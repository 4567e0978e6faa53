import Microthread.Invariant.Passage

/-!
# Calls end once

The history records how every call ends. A task that is parked on a channel, in a select or
on a handle has a call of its own that has not ended, and so has whoever stands in the middle
of a call; waking a task ends its call, and nothing else does. So no call ends twice.
-/

namespace Microthread

open Foundation

/-- The call that the entry ends. -/
def Event.ended? : Event → Option CallId
  | .done c _ _ => some c
  | _ => none

/-- The call of the task ends when the task is woken. -/
def Task.Awaits (k : Task) : Prop :=
  k.state = .waitingChan ∨ k.state = .waitingSelect ∨ k.state = .waitingJoin

namespace Rt

/-- The calls that have ended, in order. -/
def ended (s : Rt) : List CallId := s.log.filterMap Event.ended?

/-- No call ends twice: the calls of the waiting tasks and those in `pending` are different
calls, none of which has ended. Calls from `next` on have not begun. -/
structure Books (next : CallId) (pending : CallId → Prop) (s : Rt) : Prop where
  once : s.ended.Nodup
  below : ∀ c ∈ s.ended, c < next
  waiting : ∀ t ∈ s.allTasks, (s.task t).Awaits →
    (s.task t).call ∉ s.ended ∧ ¬pending (s.task t).call ∧ (s.task t).call < next
  apart : ∀ t ∈ s.allTasks, ∀ u ∈ s.allTasks, (s.task t).Awaits → (s.task u).Awaits →
    (s.task t).call = (s.task u).call → t = u
  notEnded : ∀ c, pending c → c ∉ s.ended ∧ c < next

variable {s s' : Rt} {t : TaskId} {next : CallId} {pending pending' : CallId → Prop}

theorem ended_append {es : List Event} (h : s'.log = s.log ++ es) :
    s'.ended = s.ended ++ es.filterMap Event.ended? := by
  rw [ended, h, List.filterMap_append, ended]

theorem filterMap_ended_transfers {es : List Event} (h : ∀ e ∈ es, e.IsTransfer) :
    es.filterMap Event.ended? = [] := by
  refine List.filterMap_eq_nil_iff.mpr fun e he => ?_
  have htransfer := h e he
  cases e with
  | done => exact htransfer.elim
  | _ => rfl

/-- An entry ends a call that no other entry ends. -/
theorem eq_of_ended {es : List Event} (h : (es.filterMap Event.ended?).Nodup) {e e' : Event}
    {c : CallId} (he : e ∈ es) (he' : e' ∈ es) (hc : e.ended? = some c) (hc' : e'.ended? = some c) :
    e = e' := by
  induction es with
  | nil => cases he
  | cons x es ih =>
      have mem : ∀ y ∈ es, y.ended? = some c → c ∈ es.filterMap Event.ended? := fun y hy hyc =>
        List.mem_filterMap.mpr ⟨y, hy, hyc⟩
      cases hx : x.ended? with
      | none =>
          rw [List.filterMap_cons_none hx] at h
          refine ih h ?_ ?_
          · rcases List.mem_cons.mp he with rfl | he
            · rw [hx] at hc
              cases hc
            · exact he
          · rcases List.mem_cons.mp he' with rfl | he'
            · rw [hx] at hc'
              cases hc'
            · exact he'
      | some d =>
          rw [List.filterMap_cons_some hx, List.nodup_cons] at h
          rcases List.mem_cons.mp he with rfl | hin <;> rcases List.mem_cons.mp he' with rfl | hin'
          · rfl
          · rw [hx, Option.some.injEq] at hc
            exact absurd (mem e' hin' hc') (hc ▸ h.1)
          · rw [hx, Option.some.injEq] at hc'
            exact absurd (mem e hin hc) (hc' ▸ h.1)
          · exact ih h.2 hin hin'

/-- Entries of one kind among those that end calls. -/
theorem filterMap_sublist_ended {f : Event → Option CallId}
    (hf : ∀ e c, f e = some c → e.ended? = some c) (es : List Event) :
    (es.filterMap f).Sublist (es.filterMap Event.ended?) := by
  induction es with
  | nil => exact .refl _
  | cons e es ih =>
      cases he : f e with
      | none =>
          rw [List.filterMap_cons_none he]
          cases hend : e.ended? with
          | none => rwa [List.filterMap_cons_none hend]
          | some d =>
              rw [List.filterMap_cons_some hend]
              exact ih.cons d
      | some c =>
          rw [List.filterMap_cons_some he, List.filterMap_cons_some (hf e c he)]
          exact ih.cons_cons c

/-- No call ends, and whoever waits has waited before. -/
theorem Books.keep (h : s.Books next pending) (hended : s'.ended = s.ended)
    (hwaits : ∀ t ∈ s'.allTasks, (s'.task t).Awaits →
      t ∈ s.allTasks ∧ (s.task t).Awaits ∧ (s'.task t).call = (s.task t).call) :
    s'.Books next pending := by
  refine ⟨hended ▸ h.once, hended ▸ h.below, fun t ht hw => ?_, fun t ht u hu hw hw' heq => ?_,
    hended ▸ h.notEnded⟩
  · obtain ⟨hmem, hwait, hcall⟩ := hwaits t ht hw
    rw [hcall, hended]
    exact h.waiting t hmem hwait
  · obtain ⟨hmem, hwait, hcall⟩ := hwaits t ht hw
    obtain ⟨hmem', hwait', hcall'⟩ := hwaits u hu hw'
    exact h.apart t hmem u hmem' hwait hwait' (hcall.symm.trans (heq.trans hcall'))

/-- Neither the history nor the tasks change. -/
theorem Books.congr (h : s.Books next pending) (hlog : s'.log = s.log)
    (hall : ∀ t ∈ s'.allTasks, t ∈ s.allTasks) (htask : ∀ t ∈ s'.allTasks, s'.task t = s.task t) :
    s'.Books next pending := by
  refine h.keep (by rw [ended, hlog, ended]) fun t ht hw => ?_
  rw [htask t ht] at hw ⊢
  exact ⟨hall t ht, hw, rfl⟩

/-- Fewer calls are pending. -/
theorem Books.mono (h : s.Books next pending) (hsub : ∀ c, pending' c → pending c) :
    s.Books next pending' :=
  ⟨h.once, h.below, fun t ht hw => (h.waiting t ht hw).imp_right (And.imp_left (mt (hsub _))),
    h.apart, fun c hc => h.notEnded c (hsub c hc)⟩

theorem not_awaits_ready {k : Task} (h : k.state = .ready) : ¬k.Awaits := by
  simp [Task.Awaits, h]

/-- The record of a task changes to one that does not wait. -/
theorem Books.rest (h : s.Books next pending) {k : Task} (hlog : s'.log = s.log)
    (hall : ∀ u ∈ s'.allTasks, u ∈ s.allTasks ∨ u = t)
    (htask : s'.task = Function.update s.task t k) (hk : ¬k.Awaits) : s'.Books next pending := by
  refine h.keep (by rw [ended, hlog, ended]) fun u hu hw => ?_
  by_cases hut : u = t
  · rw [htask, hut, Function.update_self] at hw
    exact absurd hw hk
  · rw [htask, Function.update_of_ne hut] at hw ⊢
    exact ⟨(hall u hu).resolve_right hut, hw, rfl⟩

/-- A waiting task is woken, which ends its call. -/
theorem Books.wake (h : s.Books next pending) {k : Task} (ht : t ∈ s.allTasks) (hw : (s.task t).Awaits)
    (hk : ¬k.Awaits) (hall : ∀ u ∈ s'.allTasks, u ∈ s.allTasks)
    (htask : s'.task = Function.update s.task t k)
    (hended : s'.ended = s.ended ++ [(s.task t).call]) : s'.Books next pending := by
  obtain ⟨hopen, hnot, hlt⟩ := h.waiting t ht hw
  have others : ∀ u ∈ s'.allTasks, (s'.task u).Awaits →
      u ≠ t ∧ u ∈ s.allTasks ∧ (s.task u).Awaits ∧ s'.task u = s.task u := fun u hu huw => by
    by_cases hut : u = t
    · rw [htask, hut, Function.update_self] at huw
      exact absurd huw hk
    · rw [htask, Function.update_of_ne hut] at huw ⊢
      exact ⟨hut, hall u hu, huw, rfl⟩
  refine ⟨?_, fun c hin => ?_, fun u hu huw => ?_, fun u hu v hv huw hvw heq => ?_,
    fun c hc => ⟨fun hin => ?_, (h.notEnded c hc).2⟩⟩
  · rw [hended]
    refine List.nodup_append.mpr ⟨h.once, List.nodup_singleton _, fun a ha b hb hab => hopen ?_⟩
    rw [← List.mem_singleton.mp hb, ← hab]
    exact ha
  · rw [hended] at hin
    rcases List.mem_append.mp hin with hin | hin
    · exact h.below c hin
    · exact List.mem_singleton.mp hin ▸ hlt
  · obtain ⟨hut, humem, huold, heq⟩ := others u hu huw
    rw [heq, hended]
    refine ⟨fun hin => ?_, (h.waiting u humem huold).2⟩
    rcases List.mem_append.mp hin with hin | hin
    · exact (h.waiting u humem huold).1 hin
    · exact hut (h.apart u humem t ht huold hw (List.mem_singleton.mp hin))
  · obtain ⟨-, humem, huold, hueq⟩ := others u hu huw
    obtain ⟨-, hvmem, hvold, hveq⟩ := others v hv hvw
    exact h.apart u humem v hvmem huold hvold (hueq ▸ hveq ▸ heq)
  · rw [hended] at hin
    rcases List.mem_append.mp hin with hin | hin
    · exact (h.notEnded c hc).1 hin
    · exact hnot (List.mem_singleton.mp hin ▸ hc)


end Rt

open Rt

variable {s s' : Rt} {t : TaskId} {next : CallId} {pending : CallId → Prop}

/-- A wait that ends with a result is one that awaits the end of a call. -/
theorem Task.Wake.awaits {k k' : Task} {o : Option (Role × Rc)} (h : k.Wake k' o) :
    o = none ∨ k.Awaits := by
  cases h with
  | chan rc hs => exact .inr (.inl hs)
  | cancelChan hs => exact .inr (.inl hs)
  | select role rc index hs => exact .inr (.inr (.inl hs))
  | join rc hs => exact .inr (.inr (.inr hs))
  | sleep hs => exact .inl rfl
  | fd rc ready hs => exact .inl rfl

theorem Rt.Effect.books (he : Effect s s') (h : s.Books next pending)
    (hall : s'.allTasks = s.allTasks) : s'.Books next pending := by
  cases he with
  | still es htask hlog hes =>
      refine h.keep ?_ fun u hu hw => ?_
      · rw [ended_append hlog, filterMap_ended_transfers hes, List.append_nil]
      · rw [hall] at hu
        rw [htask u hu] at hw ⊢
        exact ⟨hu, hw, rfl⟩
  | wake t k' o ht hw htask hlog =>
      have hk : ¬k'.Awaits := not_awaits_ready hw.state_new
      rcases hw.awaits with rfl | hwait
      · exact h.rest (hlog.trans (List.append_nil _)) (fun u hu => .inl (hall ▸ hu)) htask hk
      · cases o with
        | none => exact h.rest (hlog.trans (List.append_nil _)) (fun u hu => .inl (hall ▸ hu)) htask hk
        | some o =>
            exact h.wake ht hwait hk (fun u hu => hall ▸ hu) htask (ended_append hlog)

theorem Moves.books (hm : Moves s s') (h : s.Books next pending) (hi : s.Inv) :
    s'.Books next pending := by
  induction hm with
  | refl => exact h
  | tail hpre hm ih => exact (hm.effect (Moves.inv hpre hi)).books ih hm.allTasks_eq

theorem Shifts.books (hm : Shifts s s') (h : s.Books next pending) (hi : s.Inv) :
    s'.Books next pending :=
  Moves.books (Shifts.moves hm) h hi

theorem Rt.Books.reap (h : s.Books next pending) (hi : s.Inv) (t : TaskId) :
    (s.reap t).Books next pending := by
  have hmem : ∀ u ∈ (s.reap t).allTasks, u ≠ t ∧ u ∈ s.allTasks := fun u hu => hi.mem_reap.mp hu
  exact h.congr (reap_log s t) (fun u hu => (hmem u hu).2) fun u hu => reap_task_of_ne s (hmem u hu).1

theorem Buries.books (hb : Buries t s s') (h : s.Books next pending) (hi : s.Inv) :
    s'.Books next pending := by
  obtain ⟨hm, -, -, -⟩ := hb
  replace hm := HandleShifts.shifts hm
  exact (Shifts.books hm h hi).reap (Shifts.inv hm hi) t

theorem Cancels.books (hc : Cancels t s s') (h : s.Books next pending) (hi : s.Inv) :
    s'.Books next pending := by
  rcases hc.effect_or hi with ⟨he, hall⟩ | ⟨ht, hs, hb⟩
  · exact he.books h hall
  · refine hb.books (h.rest rfl (fun u hu => .inl hu) rfl ?_) (hi.killReady ht hs)
    simp [Task.Awaits]

theorem Rt.CancelCall.books {x : HandleId} (hc : CancelCall s x s') (h : s.Books next pending)
    (hi : s.Inv) : s'.Books next pending := by
  cases hc with
  | late => exact Shifts.books (.single (.request x)) h hi
  | wake t a hx hcomp htask hcancel =>
      have hrep := reported_shifts hcomp
      exact hcancel.books (Shifts.books hrep h hi) (Shifts.inv hrep hi)

theorem Rt.Created.books (hc : Created s s') (h : s.Books next pending) (hi : s.Inv) :
    s'.Books next pending := by
  cases hc with
  | no a hs => exact Shifts.books (Wastes.shifts hs) h hi
  | task tape =>
      exact h.rest rfl (fun u hu => (List.mem_cons.mp hu).symm) rfl (by simp [Task.Awaits])
  | handle tape =>
      exact h.rest rfl (fun u hu => (List.mem_cons.mp hu).symm) rfl (by simp [Task.Awaits])
  | chan tape elemSize capacity => exact h.congr rfl (fun _ hu => hu) fun _ _ => rfl

theorem not_awaits_running {k : Task} (h : k.state = .running) : ¬k.Awaits := by
  simp [Task.Awaits, h]

/-- A running task registers waiters; it does not wait yet. -/
theorem Register.books (hm : Register t s s') (h : s.Books next pending)
    (hr : (s.task t).state = .running) : s'.Books next pending := by
  cases hm with
  | quiet => exact h.congr rfl (fun _ hu => hu) fun _ _ => rfl
  | prepare => exact h.rest rfl (fun _ hu => .inl hu) rfl (not_awaits_running hr)
  | setIndex => exact h.rest rfl (fun _ hu => .inl hu) rfl (not_awaits_running hr)
  | add => exact h.rest rfl (fun _ hu => .inl hu) rfl (not_awaits_running hr)
  | abandon => exact h.rest rfl (fun _ hu => .inl hu) rfl (not_awaits_running hr)

theorem Registers.books (hm : Registers t s s') (h : s.Books next pending) (hi : s.Inv)
    (ht : t ∈ s.allTasks) (hr : (s.task t).state = .running) : s'.Books next pending := by
  induction hm with
  | refl => exact h
  | tail hpre hm ih => exact hm.books ih (Registers.inv hpre hi ht hr).2.2

theorem Rt.Books.finishFd (h : s.Books next pending) (hr : (s.task t).state = .running)
    (w : FdWaiterId) : (s.finishFd t w).Books next pending :=
  h.rest rfl (fun _ hu => .inl hu) rfl (not_awaits_running hr)

/-- The calls that a section ends are those of the tasks that it wakes. -/
theorem Rt.Section.books {does : Op → Prop} {c : CallId} {o : Option (Role × Rc)}
    (hs : Section does c s o s') (h : s.Books next pending) (hr : s.Rest) : s'.Books next pending := by
  have hi := hr.inv
  cases hs with
  | idle o tape => exact h.congr rfl (fun _ hu => hu) fun _ _ => rfl
  | release x rc _ hr => exact Shifts.books (.single hr.shift) h hi
  | fd o _ _ ho => exact Shifts.books (ho.shifts hi) h hi
  | go rc _ _ hc => exact hc.books h hi
  | chanCreate rc _ _ hc => exact hc.created.books h hi
  | cancel x _ hc => exact hc.books h hi
  | send kind ch value rc _ _ hsend => exact Moves.books hsend.moves h hi
  | sendNot => exact h
  | recv ch out rc _ _ hrecv => exact Moves.books hrecv.moves h hi
  | recvNot => exact h
  | close ch rc _ _ hc => exact Moves.books hc.moves h hi
  | destroy ch rc _ hl hd => exact Moves.books (hd.moves hl.1) h hi
  | unselect t rc _ hrun hf => exact Registers.books hf.registers h hi hrun.1 hrun.2
  | unwait t rc x _ _ hrun hq =>
      have hquiet := Shifts.books (.single hq.shift) h hi
      obtain ⟨gens, polling, interest, filters, tape, rfl⟩ := hq
      exact hquiet.rest rfl (fun _ hu => .inl hu) rfl (not_awaits_running hrun.2)

/-- A call that is pending ends. -/
theorem Rt.Books.finish {pending' : CallId → Prop} (h : s.Books next pending) {c : CallId}
    (hc : pending c) (hsub : ∀ d, pending' d → pending d ∧ d ≠ c)
    (hended : s'.ended = s.ended ++ [c]) (hall : s'.allTasks = s.allTasks)
    (htask : s'.task = s.task) : s'.Books next pending' := by
  obtain ⟨hopen, hlt⟩ := h.notEnded c hc
  refine ⟨?_, fun d hin => ?_, fun t ht hw => ?_, ?_, fun d hd => ?_⟩
  · rw [hended]
    refine List.nodup_append.mpr ⟨h.once, List.nodup_singleton _, fun a ha b hb hab => hopen ?_⟩
    rw [← List.mem_singleton.mp hb, ← hab]
    exact ha
  · rw [hended] at hin
    rcases List.mem_append.mp hin with hin | hin
    · exact h.below d hin
    · exact List.mem_singleton.mp hin ▸ hlt
  · rw [hall] at ht
    rw [htask] at hw ⊢
    obtain ⟨hnot, hfree, hbelow⟩ := h.waiting t ht hw
    refine ⟨fun hin => ?_, fun hp => hfree (hsub _ hp).1, hbelow⟩
    rw [hended] at hin
    rcases List.mem_append.mp hin with hin | hin
    · exact hnot hin
    · exact hfree (List.mem_singleton.mp hin ▸ hc)
  · rw [hall, htask]
    exact h.apart
  · obtain ⟨hd, hne⟩ := hsub d hd
    refine ⟨fun hin => ?_, (h.notEnded d hd).2⟩
    rw [hended] at hin
    rcases List.mem_append.mp hin with hin | hin
    · exact (h.notEnded d hd).1 hin
    · exact hne (List.mem_singleton.mp hin)

/-- A running task with a pending call begins to wait for its end. -/
theorem Rt.Books.park {pending' : CallId → Prop} (h : s.Books next pending) {c : CallId}
    (hc : pending c) (hsub : ∀ d, pending' d → pending d ∧ d ≠ c) (hlog : s'.log = s.log)
    (hall : s'.allTasks = s.allTasks) (hothers : ∀ u, u ≠ t → s'.task u = s.task u)
    (hcall : (s'.task t).call = c) : s'.Books next pending' := by
  have hended : s'.ended = s.ended := by rw [ended, hlog, ended]
  have fresh : ∀ u ∈ s.allTasks, (s.task u).Awaits → (s.task u).call ≠ c := fun u hu hw heq =>
    (h.waiting u hu hw).2.1 (heq ▸ hc)
  refine ⟨hended ▸ h.once, hended ▸ h.below, fun u hu hw => ?_, fun u hu v hv huw hvw heq => ?_,
    fun d hd => ?_⟩
  · rw [hall] at hu
    rw [hended]
    by_cases hut : u = t
    · rw [hut, hcall]
      exact ⟨(h.notEnded c hc).1, fun hp => (hsub c hp).2 rfl, (h.notEnded c hc).2⟩
    · rw [hothers u hut] at hw ⊢
      exact (h.waiting u hu hw).imp_right (And.imp_left fun hfree hp => hfree (hsub _ hp).1)
  · rw [hall] at hu hv
    by_cases hut : u = t <;> by_cases hvt : v = t
    · rw [hut, hvt]
    · rw [hothers v hvt] at hvw heq
      rw [hut, hcall] at heq
      exact absurd heq.symm (fresh v hv hvw)
    · rw [hothers u hut] at huw heq
      rw [hvt, hcall] at heq
      exact absurd heq (fresh u hu huw)
    · rw [hothers u hut] at huw heq
      rw [hothers v hvt] at hvw heq
      exact h.apart u hu v hv huw hvw heq
  · rw [hended]
    exact h.notEnded d (hsub d hd).1

/-- A call begins. -/
theorem Rt.Books.begin {pending' : CallId → Prop} (h : s.Books next pending)
    (hsub : ∀ d, pending' d → pending d ∨ d = next) : s.Books (next + 1) pending' := by
  refine ⟨h.once, fun c hc => (h.below c hc).trans (Nat.lt_succ_self next), fun t ht hw => ?_,
    h.apart, fun d hd => ?_⟩
  · obtain ⟨hopen, hfree, hlt⟩ := h.waiting t ht hw
    refine ⟨hopen, fun hp => ?_, hlt.trans (Nat.lt_succ_self next)⟩
    rcases hsub _ hp with hp | heq
    · exact hfree hp
    · exact absurd heq hlt.ne
  · rcases hsub d hd with hp | rfl
    · exact (h.notEnded d hp).imp_right fun hlt => hlt.trans (Nat.lt_succ_self next)
    · exact ⟨fun hin => absurd (h.below d hin) (lt_irrefl d), Nat.lt_succ_self d⟩

end Microthread
