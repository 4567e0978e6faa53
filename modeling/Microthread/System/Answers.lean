import Microthread.System.Calls

/-!
# What calls return

A call that does not park reports its end and returns in one step. A call that parks is
ended by whoever wakes the task; the result is left in the task's record, and the call
returns it when the task has a processor again. So a call returns the result with which
the history shows it as ended.
-/

namespace Microthread

open Foundation

namespace Rt

variable {s s' a : Rt} {t : TaskId} {own : TaskId → Prop}

/-- The record of a task is unchanged, or its wait has ended and the history shows how. -/
def Roused (s s' : Rt) (t : TaskId) : Prop :=
  s'.task t = s.task t ∨ ∃ o, (s.task t).Wake (s'.task t) o ∧
    ∀ e ∈ completion (s.task t).call o, e ∈ s'.log

/-- Nobody returns from a call, and whoever does not act is roused at most. -/
structure Rouses (own : TaskId → Prop) (s s' : Rt) : Prop where
  log : ∃ es, s'.log = s.log ++ es ∧ ∀ e ∈ es, ∀ c rc, e ≠ .ret c rc
  task : ∀ t ∈ s'.allTasks, t ∈ s.allTasks → ¬own t → s.Roused s' t

/-- The history and the records of the other tasks are left alone. -/
theorem Rouses.same (hlog : s'.log = s.log)
    (htask : ∀ t ∈ s'.allTasks, t ∈ s.allTasks → ¬own t → s'.task t = s.task t) :
    s.Rouses own s' :=
  ⟨⟨[], hlog.trans (List.append_nil _).symm, nofun⟩, fun t ht ht' hr => .inl (htask t ht ht' hr)⟩

/-- Only the record of the task that acts changes. -/
theorem Rouses.of_update {k : Task} (ht : own t) (hlog : s'.log = s.log)
    (htask : s'.task = Function.update s.task t k) : s.Rouses own s' := by
  refine .same hlog fun u _ _ hu => ?_
  rw [htask, Function.update_of_ne]
  rintro rfl
  exact hu ht

theorem Rouses.log_subset (h : s.Rouses own s') {e : Event} (he : e ∈ s.log) : e ∈ s'.log := by
  obtain ⟨es, hes, -⟩ := h.log
  rw [hes]
  exact List.mem_append_left _ he

theorem Rouses.trans (h : s.Rouses own a) (h' : a.Rouses own s')
    (hsub : ∀ t ∈ s'.allTasks, t ∈ s.allTasks → t ∈ a.allTasks) : s.Rouses own s' := by
  constructor
  · obtain ⟨es, hes, hnot⟩ := h.log
    obtain ⟨fs, hfs, hnot'⟩ := h'.log
    refine ⟨es ++ fs, by rw [hfs, hes, List.append_assoc], fun e he => ?_⟩
    rcases List.mem_append.mp he with he | he
    · exact hnot e he
    · exact hnot' e he
  · intro t ht ht' hr
    have hta := hsub t ht ht'
    rcases h.task t hta ht' hr with heq | ⟨o, hw, hlog⟩
    · rw [Roused, ← heq]
      exact h'.task t ht hta hr
    · rcases h'.task t ht hta hr with heq | ⟨o', hw', -⟩
      · exact .inr ⟨o, heq ▸ hw, fun e he => h'.log_subset (hlog e he)⟩
      · exact absurd hw.state_new hw'.state_old.1

theorem completion_ne_ret {c : CallId} {o : Option (Role × Rc)} {e : Event}
    (he : e ∈ completion c o) (d : CallId) (rc : Rc) : e ≠ .ret d rc := by
  rintro rfl
  simp [completion] at he

theorem Effect.rouses (he : Effect s s') : s.Rouses own s' := by
  constructor
  · cases he with
    | still es _ hlog hes =>
        refine ⟨es, hlog, fun e hin c rc heq => ?_⟩
        subst heq
        exact hes _ hin
    | wake t k' o _ _ _ hlog => exact ⟨_, hlog, fun e hin => completion_ne_ret hin⟩
  · exact fun t _ ht _ => he.task_eq_or ht

end Rt

open Rt

variable {s s' : Rt} {t : TaskId} {own : TaskId → Prop}

theorem Moves.rouses (hm : Moves s s') (h : s.Inv) : s.Rouses own s' := by
  induction hm with
  | refl => exact .same rfl fun _ _ _ _ => rfl
  | tail hpre hm ih =>
      refine ih.trans (hm.effect (Moves.inv hpre h)).rouses fun t ht _ => ?_
      rwa [hm.allTasks_eq] at ht

theorem Shifts.rouses (hm : Shifts s s') (h : s.Inv) : s.Rouses own s' :=
  Moves.rouses (Shifts.moves hm) h

theorem Buries.rouses (hb : Buries t s s') (h : s.Inv) : s.Rouses own s' := by
  have hmem : ∀ u ∈ s'.allTasks, u ≠ t := fun u hu => ((hb.mem h).mp hu).1
  obtain ⟨hm, -, -, -⟩ := hb
  replace hm := HandleShifts.shifts hm
  refine (Shifts.rouses hm h).trans (.same (reap_log _ t) fun u hu _ _ => ?_) fun u _ hu => ?_
  · exact reap_task_of_ne _ (hmem u hu)
  · rwa [Moves.allTasks_eq (Shifts.moves hm)]

theorem Cancels.rouses (hc : Cancels t s s') (h : s.Inv) : s.Rouses own s' := by
  rcases hc.effect_or h with ⟨he, -⟩ | ⟨ht, hs, hb⟩
  · exact he.rouses
  · have hkill := h.killReady ht hs
    have hburied : (s.killReady t).Rouses own s' := hb.rouses hkill
    have hsame : ∀ u ∈ s'.allTasks, (s.killReady t).task u = s.task u := fun u hu =>
      Function.update_of_ne ((hb.mem hkill).mp hu).1 _ _
    refine ⟨hburied.log, fun u hu hu' hr => ?_⟩
    have hroused := hburied.task u hu hu' hr
    rwa [Roused, hsame u hu] at hroused

theorem Rt.CancelCall.rouses {x : HandleId} (hc : CancelCall s x s') (h : s.Inv) :
    s.Rouses own s' := by
  cases hc with
  | late => exact Shifts.rouses (.single (.request x)) h
  | wake t a hx hcomp htask hcancel =>
      have hrep := reported_shifts hcomp
      exact (Shifts.rouses hrep h).trans (hcancel.rouses (Shifts.inv hrep h)) fun u _ hu => hu

theorem Rt.Created.rouses (hc : Created s s') (h : s.Inv) : s.Rouses own s' := by
  cases hc with
  | no a hs => exact Shifts.rouses (Wastes.shifts hs) h
  | task tape =>
      exact .same rfl fun u _ hu _ => Function.update_of_ne (h.heap.task_lt hu).ne _ _
  | handle tape =>
      exact .same rfl fun u _ hu _ =>
        Function.update_of_ne ((h.heap.task_lt hu).trans (Nat.lt_succ_self _)).ne _ _
  | chan tape elemSize capacity => exact .same rfl fun _ _ _ _ => rfl

theorem Rt.Section.rouses {does : Op → Prop} {c : CallId} {o : Option (Role × Rc)}
    (hs : Section does c s o s') (h : s.Rest) (hown : ∀ u, does (.unpark u) → own u) :
    s.Rouses own s' := by
  have hi := h.inv
  cases hs with
  | idle o tape => exact .same rfl fun _ _ _ _ => rfl
  | release x rc _ hr => exact Shifts.rouses (.single hr.shift) hi
  | fd o _ _ ho => exact Shifts.rouses (ho.shifts hi) hi
  | go rc _ _ hc => exact hc.rouses hi
  | chanCreate rc _ _ hc => exact hc.created.rouses hi
  | cancel x _ hc => exact hc.rouses hi
  | send kind ch value rc _ _ hsend => exact Moves.rouses hsend.moves hi
  | sendNot => exact .same rfl fun _ _ _ _ => rfl
  | recv ch out rc _ _ hrecv => exact Moves.rouses hrecv.moves hi
  | recvNot => exact .same rfl fun _ _ _ _ => rfl
  | close ch rc _ _ hc => exact Moves.rouses hc.moves hi
  | destroy ch rc _ hl hd => exact Moves.rouses (hd.moves hl.1) hi
  | unselect u rc hd hrun hf =>
      have hlog := Registers.log_eq hf.registers
      obtain ⟨_, _, _, _, _, _, _, _, _, _, _, _, rfl⟩ := Registers.enrols hf.registers
      exact .of_update (hown u hd) hlog rfl
  | unwait u rc x hd _ hrun hq =>
      obtain ⟨gens, polling, interest, filters, tape, rfl⟩ := hq
      exact .of_update (hown u hd) rfl rfl

/-- The end of the wait leaves the recorded result in the task's record. -/
theorem Task.Wake.answers {k k' : Task} {o : Option (Role × Rc)} (h : k.Wake k' o) {p : Pc}
    (hfits : Sys.Fits k p) {c : CallId} {rc : Rc} (hret : Returns k' c p rc) :
    ∃ role, Event.done c role rc ∈ completion k.call o := by
  cases h with
  | chan rc hs =>
      rw [hfits.chan hs] at hret
      cases hret
      exact ⟨_, List.mem_singleton_self _⟩
  | cancelChan hs =>
      rw [hfits.chan hs] at hret
      cases hret
      exact ⟨_, List.mem_singleton_self _⟩
  | select role rc index hs =>
      obtain ⟨cases, plan, hp⟩ := hfits.select hs
      rw [hp] at hret
      cases hret
      exact ⟨_, List.mem_singleton_self _⟩
  | join rc hs =>
      obtain ⟨x, hp, -⟩ := hfits.join hs
      rw [hp] at hret
      cases hret
      exact ⟨_, List.mem_singleton_self _⟩
  | sleep hs =>
      rw [hfits.sleeping hs] at hret
      cases hret
  | fd rc ready hs =>
      obtain ⟨w, use, hp⟩ := hfits.fd hs
      rw [hp] at hret
      cases hret

theorem Returns.parked {k : Task} {c : CallId} {p : Pc} {rc : Rc} (h : Returns k c p rc) :
    p.parked = true := by
  cases h <;> rfl

theorem Pc.not_returns {p : Pc} (h : p.parked = false) (k : Task) (c : CallId) (rc : Rc) :
    ¬Returns k c p rc := fun hret => by
  rw [hret.parked] at h
  cases h

theorem Onward.not_parked {c : CallId} {q p : Pc} {r : Rt} {o : Option (Role × Rc)}
    {es : List Event} (hon : Onward c q r o p es) : p.parked = false := by
  cases hon with
  | on p _ hp => exact hp
  | out => rfl

theorem Onward.answers {c d : CallId} {q p : Pc} {r : Rt} {o : Option (Role × Rc)}
    {es : List Event} {rc : Rc} (hon : Onward c q r o p es) (hin : Event.ret d rc ∈ es) :
    ∃ role, Event.done d role rc ∈ es := by
  cases hon with
  | on => cases hin
  | out role rc =>
      simp only [List.mem_cons, reduceCtorEq, Event.ret.injEq, List.not_mem_nil, or_false,
        false_or] at hin
      obtain ⟨rfl, rfl⟩ := hin
      exact ⟨role, List.mem_cons_self⟩

/-- A task that has parked waits, or stands at a place from which it returns no result. -/
theorem Parks.not_returns {t : TaskId} {c d : CallId} {q p : Pc} {r r' : Rt} {rc : Rc}
    (hp : Parks t c q r p r') (haw : ¬(r'.task t).Awaits) : ¬Returns (r'.task t) d p rc := by
  intro hret
  cases hp with
  | send ch value => exact haw (.inl (by simp [Rt.parkChan]))
  | recv ch out => exact haw (.inl (by simp [Rt.parkChan]))
  | select cases plan _ _ hs =>
      cases hs with
      | untimed => exact haw (.inr (.inl (by simp [Rt.parkSelect])))
      | timed => exact haw (.inr (.inl (by simp [Rt.parkSelectTimed])))
  | join x => exact haw (.inr (.inr (by simp [Rt.parkJoin])))
  | sleep => cases hret
  | yield => cases hret
  | fd => cases hret

/-- Getting a processor does not change what a task returns. -/
theorem Returns.dispatched {r : Rt} {c : CallId} {rc : Rc} {k : Task} {q : Queue TaskId} {p p' : Pc}
    (h : Returns k c p' rc) (hk : k = (r.dispatch t q).task t)
    (hp : p' = if p = .fresh then .user else p) : Returns (r.task t) c p rc := by
  subst hk
  split at hp
  · subst hp
    cases h
  · subst hp
    have hsame : (r.dispatch t q).task t = { r.task t with state := .running } :=
      Function.update_self ..
    rw [hsame] at h
    cases h with
    | chan role => exact .chan role
    | select cases plan => exact .select cases plan
    | join x => exact .join x

namespace Sys

variable {s s' : Sys}

/-- Every result that has been returned is the recorded one, and so is every result that a
task is going to return. -/
structure Answered (s : Sys) : Prop where
  returned : ∀ c rc, Event.ret c rc ∈ s.rt.log → ∃ role, Event.done c role rc ∈ s.rt.log
  kept : ∀ t ∈ s.rt.allTasks, ¬(s.rt.task t).Awaits → ∀ c rc,
    Returns (s.rt.task t) c (s.pc (.task t)) rc → ∃ role, Event.done c role rc ∈ s.rt.log

/-- A step after which the history shows the ends of the calls that return by it. The tasks
that act by it are asked for separately. -/
theorem Answered.step (h : s.Answered) (hok : s.Ok) {r : Rt} {es : List Event}
    (hr : s.rt.Rouses own r) (htask : s'.rt.task = r.task) (hall : s'.rt.allTasks = r.allTasks)
    (hlog : s'.rt.log = r.log ++ es)
    (hes : ∀ c rc, Event.ret c rc ∈ es → ∃ role, Event.done c role rc ∈ s'.rt.log)
    (hnew : ∀ t ∈ s'.rt.allTasks, t ∈ s.rt.allTasks ∨ s.rt.made (.task t) = false)
    (hpc : ∀ t, ¬own t → s'.pc (.task t) = s.pc (.task t))
    (hown : ∀ t ∈ s'.rt.allTasks, own t → ¬(s'.rt.task t).Awaits → ∀ c rc,
      Returns (s'.rt.task t) c (s'.pc (.task t)) rc → ∃ role, Event.done c role rc ∈ s'.rt.log) :
    s'.Answered := by
  have grows : ∀ {e}, e ∈ r.log → e ∈ s'.rt.log := fun he => by
    rw [hlog]
    exact List.mem_append_left _ he
  constructor
  · intro c rc hin
    rw [hlog] at hin
    rcases List.mem_append.mp hin with hin | hin
    · obtain ⟨fs, hfs, hnot⟩ := hr.log
      rw [hfs] at hin
      rcases List.mem_append.mp hin with hin | hin
      · obtain ⟨role, hdone⟩ := h.returned c rc hin
        exact ⟨role, grows (hr.log_subset hdone)⟩
      · exact absurd rfl (hnot _ hin c rc)
    · exact hes c rc hin
  · intro t ht haw c rc hret
    by_cases ho : own t
    · exact hown t ht ho haw c rc hret
    · rw [hpc t ho] at hret
      have ht' : t ∈ s.rt.allTasks := (hnew t ht).resolve_right fun hm => by
        have hparked := hret.parked
        rw [hok.fresh t hm] at hparked
        cases hparked
      rw [htask] at haw hret
      rcases hr.task t (hall ▸ ht) ht' ho with heq | ⟨o, hw, hdone⟩
      · rw [heq] at haw hret
        obtain ⟨role, hin⟩ := h.kept t ht' haw c rc hret
        exact ⟨role, grows (hr.log_subset hin)⟩
      · obtain ⟨role, hin⟩ := hw.answers (hok.fits t ht') hret
        exact ⟨role, grows (hdone _ hin)⟩

/-- No task acts. -/
theorem Answered.still (h : s.Answered) (hok : s.Ok) {r : Rt} {es : List Event}
    (hr : s.rt.Rouses (fun _ => False) r) (htask : s'.rt.task = r.task)
    (hall : s'.rt.allTasks = r.allTasks) (hlog : s'.rt.log = r.log ++ es)
    (hes : ∀ c rc, Event.ret c rc ∈ es → ∃ role, Event.done c role rc ∈ es)
    (hnew : ∀ t ∈ s'.rt.allTasks, t ∈ s.rt.allTasks ∨ s.rt.made (.task t) = false)
    (hpc : ∀ t, s'.pc (.task t) = s.pc (.task t)) : s'.Answered := by
  refine h.step hok hr htask hall hlog (fun c rc hin => ?_) hnew (fun t _ => hpc t)
    fun _ _ hf => hf.elim
  obtain ⟨role, hdone⟩ := hes c rc hin
  rw [hlog]
  exact ⟨role, List.mem_append_right _ hdone⟩

/-- An agent goes to a place from which no task returns. -/
theorem Answered.goes (h : s.Answered) (hok : s.Ok) {g : Agent} {p : Pc} {r : Rt} {es : List Event}
    (hr : s.rt.Rouses (fun u => g = .task u) r) (htask : s'.rt.task = r.task)
    (hall : s'.rt.allTasks = r.allTasks) (hlog : s'.rt.log = r.log ++ es)
    (hes : ∀ c rc, Event.ret c rc ∈ es → ∃ role, Event.done c role rc ∈ s'.rt.log)
    (hnew : ∀ t ∈ s'.rt.allTasks, t ∈ s.rt.allTasks ∨ s.rt.made (.task t) = false)
    (hpc : s'.pc = Function.update s.pc g p)
    (hp : ∀ t, g = .task t → ¬(s'.rt.task t).Awaits → ∀ c rc, ¬Returns (s'.rt.task t) c p rc) :
    s'.Answered := by
  refine h.step hok hr htask hall hlog hes hnew (fun t ht => ?_) fun t _ ht haw c rc hret => ?_
  · rw [hpc, Function.update_of_ne (Ne.symm ht)]
  · rw [hpc, ht, Function.update_self] at hret
    exact absurd hret (hp t ht haw c rc)

theorem Case.answered {act : Act} (hc : Case s act s') (hok : s.Ok) (h : s.Answered) :
    s'.Answered := by
  have hi := hok.rest.inv
  have hnew : ∀ t ∈ s'.rt.allTasks, t ∈ s.rt.allTasks ∨ s.rt.made (.task t) = false :=
    fun t ht => (hc.recorded hok ht).imp And.left And.left
  have same : ∀ {own : TaskId → Prop} {r : Rt}, r.log = s.rt.log → r.task = s.rt.task →
      s.rt.Rouses own r := fun hlog htask => .same hlog fun t _ _ _ => congrFun htask t
  have ended : ∀ (c d : CallId) (rc rc' : Rc), Event.ret d rc' ∈ [Event.done c .neither rc, .ret c rc] →
      ∃ role, Event.done d role rc' ∈ [Event.done c .neither rc, .ret c rc] := fun c d rc rc' hin =>
    Onward.answers (q := .user) (r := s.rt) (.out .neither rc) hin
  have quiet : ∀ {r : Rt}, s.rt.Rouses (fun _ => False) r → s'.rt.task = r.task →
      s'.rt.allTasks = r.allTasks → s'.rt.log = r.log → (∀ t, s'.pc (.task t) = s.pc (.task t)) →
      s'.Answered := fun hr htask hall hlog hpc =>
    h.still hok hr htask hall (hlog.trans (List.append_nil _).symm) nofun hnew hpc
  have rets : ∀ {r : Rt} {c : CallId} {rc : Rc}, s.rt.Rouses (fun _ => False) r →
      s'.rt.task = r.task → s'.rt.allTasks = r.allTasks →
      s'.rt.log = (r.log ++ [.done c .neither rc]) ++ [.ret c rc] →
      (∀ t, s'.pc (.task t) = s.pc (.task t)) → s'.Answered := fun hr htask hall hlog hpc =>
    h.still hok hr htask hall (hlog.trans (List.append_assoc ..)) (ended _ · _ ·) hnew hpc
  cases hc with
  | calls a call hen hpc =>
      cases a with
      | ext n => exact quiet (same rfl rfl) rfl rfl rfl fun t => rfl
      | task w t =>
          have hown : s.rt.Rouses (fun u => Agent.task t = .task u) (s.enter (.task w t) call).rt :=
            .of_update rfl rfl rfl
          exact h.goes hok hown rfl rfl
            (List.append_nil _).symm nofun hnew rfl fun _ _ _ _ _ => Pc.not_returns rfl _ _ _
  | acts a env c o p es os sel hen hcall hnp hr _ hs hon =>
      refine h.goes hok (hs.rouses hok.rest fun u hu => hu) rfl rfl rfl (fun d rc hin => ?_) hnew rfl
        fun t _ _ d rc => Pc.not_returns hon.not_parked _ _ _
      obtain ⟨role, hdone⟩ := hon.answers hin
      exact ⟨role, List.mem_append_right _ hdone⟩
  | resumesFd w t env c v use o p es hw hpc ho hon =>
      have hown : s.rt.Rouses (fun u => Agent.task t = .task u) (s.rt.finishFd t v) :=
        .of_update rfl rfl rfl
      refine h.goes hok hown rfl rfl rfl
        (fun d rc hin => ?_) hnew rfl fun t _ _ d rc => Pc.not_returns hon.not_parked _ _ _
      obtain ⟨role, hdone⟩ := hon.answers hin
      exact ⟨role, List.mem_append_right _ hdone⟩
  | returns w t env c rc sel hw hret =>
      have hrun := (hok.runs t).mpr ⟨w, hw⟩
      refine h.goes hok (r := s.rt) (same rfl rfl) rfl rfl rfl (fun d rc' hin => ?_) hnew rfl
        fun _ _ _ _ _ => Pc.not_returns rfl _ _ _
      obtain ⟨role, hdone⟩ := h.kept t hrun.1 (not_awaits_running hrun.2) c rc hret
      rw [List.mem_singleton, Event.ret.injEq] at hin
      obtain ⟨rfl, rfl⟩ := hin
      exact ⟨role, List.mem_append_left _ hdone⟩
  | goesOn w t env hw hpc =>
      exact h.goes hok (r := s.rt) (same rfl rfl) rfl rfl (List.append_nil _).symm nofun hnew rfl
        fun _ _ _ _ _ => Pc.not_returns rfl _ _ _
  | parks w t env c p hw hl hcall hnp hp hm =>
      have hrun := (hok.runs t).mpr ⟨w, hw⟩
      have hws := hok.rest.noWaiters t hrun
      obtain ⟨k, htask, -⟩ := hp.leaves hws
      refine h.goes hok (.of_update (t := t) rfl (hm.log_eq.trans (hp.log_eq hws))
        (hm.task_eq.trans htask)) rfl rfl (List.append_nil _).symm nofun hnew rfl
        fun u hu haw d rc => ?_
      obtain rfl : t = u := Agent.task.inj hu
      have heq := congrFun hm.task_eq t
      exact fun hret => hp.not_returns (heq ▸ haw) (heq ▸ hret)
  | finishes w t hw hl hpc hb =>
      have hrun := (hok.runs t).mpr ⟨w, hw⟩
      have hdie := hi.leave.die hrun.1 hrun.2 (hok.rest.noWaiters t hrun)
      have hr : s.rt.Rouses (fun u => Agent.task t = .task u) (s.rt.leave.die t) :=
        .of_update (t := t) rfl rfl rfl
      exact h.goes hok (hr.trans (hb.rouses hdie) fun u _ hu => hu) rfl rfl
        (List.append_nil _).symm nofun hnew rfl fun _ _ _ _ _ => Pc.not_returns rfl _ _ _
  | runFails n env c k tape => exact rets (same rfl rfl) rfl rfl rfl fun t => rfl
  | runEnds n env c => exact rets (same rfl rfl) rfl rfl rfl fun t => rfl
  | abortEnds n env c => exact rets (same rfl rfl) rfl rfl rfl fun t => rfl
  | halts n env c hpc hr hm =>
      have hinv : s.rt.halt.Inv := hi.congr (by constructor <;> rfl) rfl rfl rfl rfl
      have hhalt : s.rt.Rouses (fun _ => False) s.rt.halt := same rfl rfl
      exact rets (hhalt.trans (Shifts.rouses (FdShifts.shifts hm) hinv) fun u _ hu => hu)
        rfl rfl rfl fun t => rfl
  | @shutsDown n env c rt _ _ _ _ hd =>
      refine rets (r := rt) ⟨⟨[], ?_, nofun⟩, fun t ht => ?_⟩ rfl rfl rfl fun t => rfl
      · exact hd.log.trans (List.append_nil _).symm
      · simp [hd.off.allTasks] at ht
  | loops w q lock _ hl hm => exact quiet (Shifts.rouses (Ticks.shifts hm) hi) rfl rfl rfl fun t => rfl
  | dispatches w env t q hw hl hq hm =>
      obtain ⟨ht, hready⟩ := hi.mem_runq (t := t) (by simp [(Queue.pop_eq_some.mp hq).1])
      have hown : s.rt.Rouses (fun u => t = u) _ := .of_update rfl hm.log_eq hm.task_eq
      refine h.step hok hown rfl rfl
        (List.append_nil _).symm nofun hnew (fun u hu => ?_) fun u hu hut haw c rc hret => ?_
      · exact Function.update_of_ne (by simpa using Ne.symm hu) _ _
      · subst hut
        obtain ⟨role, hin⟩ := h.kept t ht (not_awaits_ready hready) c rc
          (hret.dispatched (congrFun hm.task_eq t) (Function.update_self ..))
        exact ⟨role, hm.log_eq ▸ hin⟩
  | writes a addr v => exact quiet (same rfl rfl) rfl rfl rfl fun t => rfl
  | descriptors os interest filters => exact quiet (same rfl rfl) rfl rfl rfl fun t => rfl
  | starts => exact quiet (same rfl rfl) rfl rfl rfl fun t => rfl
  | startFails => exact quiet (same rfl rfl) rfl rfl rfl fun t => rfl
  | exits => exact quiet (same rfl rfl) rfl rfl rfl fun t => rfl
  | runBegins => exact quiet (same rfl rfl) rfl rfl rfl fun t => rfl
  | runPrepares => exact quiet (same rfl rfl) rfl rfl rfl fun t => rfl
  | spawns => exact quiet (same rfl rfl) rfl rfl rfl fun t => rfl
  | launches => exact quiet (same rfl rfl) rfl rfl rfl fun t => rfl
  | aborts => exact quiet (same rfl rfl) rfl rfl rfl fun t => rfl

/-- In every run, a call returns the result with which it has ended. -/
theorem answered_of_reach (h : machine.Reach Contract s) : s.Answered := by
  refine invariant_of_cases (C := fun _ _ => True) (I := Answered) (fun kind => ⟨nofun, nofun⟩)
    (fun s s₀ hok hp hb => ?_) (fun _ _ _ _ _ _ => trivial)
    (fun s a s' hok hb _ hc => hc.answered hok hb) (h.mono fun _ _ hc => ⟨hc, trivial⟩)
  rcases hp.cases hok with ⟨tape, rfl⟩ | ⟨-, hoff, rt, hb', rfl⟩
  · exact ⟨hb.returned, hb.kept⟩
  · refine ⟨fun c rc hin => ?_, fun t ht => ?_⟩
    · change _ ∈ rt.log at hin
      rw [hb'.log] at hin
      obtain ⟨role, hdone⟩ := hb.returned c rc hin
      exact ⟨role, hb'.log ▸ hdone⟩
    · simp [hb'.off.allTasks] at ht

/-- The history only grows. -/
theorem log_subset_of_path (h : machine.Reach Contract s) (hp : machine.Path Contract s s')
    {e : Event} (he : e ∈ s.rt.log) : e ∈ s'.rt.log := by
  refine h.path_invariant (R := fun _ s' => e ∈ s'.rt.log) hp he fun t a u hr ih hact hstep => ?_
  have hok := ok_of_reach (fun _ _ hc => hc) hr
  obtain ⟨t₀, hprep, hcase⟩ := hok.step_cases hact hstep
  obtain ⟨es, hes, -⟩ := hcase.even (hprep.ok hok)
  rw [hes]
  refine List.mem_append_left _ ?_
  rcases hprep.cases hok with ⟨tape, rfl⟩ | ⟨-, -, rt, hb, rfl⟩
  · exact ih
  · exact hb.log ▸ ih

/-- A call that has ended returns the result with which it has ended. -/
theorem returns_of_done (h : machine.Reach Contract s) (hp : machine.Path Contract s s')
    {c : CallId} {r : Role} {rc rc' : Rc} (hdone : Event.done c r rc ∈ s.rt.log)
    (hret : Event.ret c rc' ∈ s'.rt.log) : rc' = rc := by
  have hreach := h.path hp
  obtain ⟨role', hdone'⟩ := (answered_of_reach hreach).returned c rc' hret
  have heq := eq_of_ended (booked_of_reach hreach).books.once hdone'
    (log_subset_of_path h hp hdone) rfl rfl
  simp only [Event.done.injEq] at heq
  exact heq.2.2

end Sys

end Microthread
