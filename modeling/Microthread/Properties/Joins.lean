import Microthread.Properties.Handles
import Microthread.System.Answers

/-!
# The life of a handle

A handle is referred to by its task, by the joiners queued on it and by the registry. It is
freed by the section after which it is released, its task is gone and nobody is queued on
it. When its task is buried the handle is completed and its joiners are woken in the order
of their arrival, all with the same result; a joiner is woken otherwise only by its own
cancellation.
-/

namespace Microthread

open Foundation

/-- A joiner has been woken with result `rc`. -/
def Task.joined (k : Task) (rc : Rc) : Task :=
  { k with joinResult := rc, joinWaitingOn := none, state := .ready }

namespace Rt

variable {s s' a b : Rt} {t u : TaskId} {x y : HandleId}

/-- What the joiners of a handle get when its task is gone. -/
def outcome (s : Rt) (x : HandleId) : Rc := if (s.handle x).cancelRequested then .cancelled else .ok

/-- The burial of `u`, whose handle is `x`, has woken the joiners `ds` so far. -/
structure Burying (u : TaskId) (x : HandleId) (a : Rt) (ds : List TaskId) (b : Rt) : Prop where
  request : (b.handle x).cancelRequested = (a.handle x).cancelRequested
  others : ∀ y, y ≠ x → b.handle y = a.handle y
  result : (b.handle x).completed = true → (b.handle x).joinResult = a.outcome x
  dropped : x ∉ b.handles → (b.handle x).completed = true
  queue : (a.waitq (.joiners x)).items = ds ++ (b.waitq (.joiners x)).items
  runq : b.runq.items = a.runq.items ++ ds
  log : b.log = a.log ++ ds.map fun t => .done (a.task t).call .neither (a.outcome x)
  woken : ∀ t ∈ ds, b.task t = (a.task t).joined (a.outcome x)
  left : ∀ t, t ∉ ds → b.task t = a.task t

theorem Burying.start (hx : x ∈ a.handles) (hc : (a.handle x).completed = false) :
    a.Burying u x [] a where
  request := rfl
  others _ _ := rfl
  result h := by simp [hc] at h
  dropped h := absurd hx h
  queue := rfl
  runq := (List.append_nil _).symm
  log := (List.append_nil _).symm
  woken := nofun
  left _ _ := rfl

/-- The dead task still refers to its handle. -/
theorem Burying.handle_eq {ds : List TaskId} (h : a.Burying u x ds b)
    (hu : (a.task u).handle = some x) : (b.task u).handle = some x := by
  by_cases hin : u ∈ ds
  · rw [h.woken u hin]
    exact hu
  · rw [h.left u hin]
    exact hu

/-- Only the handle of the dead task is completed, served or dropped. -/
theorem Burying.settled_of_ne {ds : List TaskId} (h : a.Burying u x ds b) (hi : b.Inv)
    (hdead : ∀ v, b.Dead v → v = u) (hu : (a.task u).handle = some x) (hy : y ∈ b.handles)
    (hne : y ≠ x) (hc : (b.handle y).completed = true) :
    (b.waitq (.joiners y)).items = [] ∧ (b.handle y).released = false := by
  refine hi.handle.settled y hy hc ?_
  rintro ⟨v, hv, hs, hvy⟩
  obtain rfl := hdead v ⟨hv, hs⟩
  rw [h.handle_eq hu] at hvy
  exact hne (Option.some.inj hvy).symm

theorem Burying.step {ds : List TaskId} (h : a.Burying u x ds b) (hi : b.Inv)
    (hdead : ∀ v, b.Dead v → v = u) (hu : (a.task u).handle = some x) (hm : HandleShift b s') :
    ∃ ds, a.Burying u x ds s' := by
  have hreq : b.outcome x = a.outcome x := by rw [outcome, h.request, outcome]
  cases hm with
  | complete y v hy hv hs hyv =>
      obtain rfl := hdead v ⟨hv, hs⟩
      have hxy := (hi.handle.back y hy v hyv).2
      rw [h.handle_eq hu, Option.some.injEq] at hxy
      subst hxy
      refine ⟨ds, ?_⟩
      exact {
        request := by simpa [completeHandle, Rt.modHandle] using h.request
        others := fun y hy => by simpa [completeHandle, Rt.modHandle, hy] using h.others y hy
        result := fun _ => by simpa [completeHandle, Rt.modHandle, outcome] using hreq
        dropped := fun _ => by simp [completeHandle, Rt.modHandle]
        queue := h.queue
        runq := h.runq
        log := h.log
        woken := h.woken
        left := h.left }
  | wakeJoin y t hy hc hhead =>
      by_cases hne : y = x
      · subst hne
        obtain ⟨-, hslot⟩ := hi.mem_waitq (List.mem_of_head? hhead)
        have hwait := (Task.joinWaitingOn_of_slot hslot).1
        have hnew : t ∉ ds := fun hin => by
          rw [h.woken t hin] at hwait
          cases hwait
        have hold := h.left t hnew
        refine ⟨ds ++ [t], ?_⟩
        exact {
          request := h.request
          others := h.others
          result := h.result
          dropped := h.dropped
          queue := by
            rw [h.queue]
            cases hl : (b.waitq (.joiners y)).items with
            | nil =>
                rw [hl] at hhead
                cases hhead
            | cons v vs =>
                rw [hl, List.head?_cons, Option.some.injEq] at hhead
                subst hhead
                simp [wakeJoin, Queue.remove, hl]
          runq := by
            rw [← List.append_assoc, ← h.runq]
            rfl
          log := by
            rw [List.map_append, ← List.append_assoc, ← h.log]
            simp [wakeJoin, hold, h.result hc]
          woken := fun v hv => by
            rcases List.mem_append.mp hv with hv | hv
            · have hvt : v ≠ t := fun heq => hnew (heq ▸ hv)
              simpa [wakeJoin, hvt] using h.woken v hv
            · obtain rfl := List.mem_singleton.mp hv
              simp [wakeJoin, hold, h.result hc, Task.joined]
          left := fun v hv => by
            rw [List.mem_append, not_or, List.mem_singleton] at hv
            simpa [wakeJoin, hv.2] using h.left v hv.1 }
      · obtain ⟨hnil, -⟩ := h.settled_of_ne hi hdead hu hy hne hc
        rw [hnil] at hhead
        cases hhead
  | drop y hy hc hr hnil =>
      by_cases hne : y = x
      · subst hne
        refine ⟨ds, ?_⟩
        exact { h with dropped := fun _ => hc }
      · have hrel := (h.settled_of_ne hi hdead hu hy hne hc).2
        rw [hr] at hrel
        cases hrel

theorem Burying.run {ds : List TaskId} (h : a.Burying u x ds b) (hi : b.Inv)
    (hdead : ∀ v, b.Dead v → v = u) (hu : (a.task u).handle = some x) (hm : HandleShifts b s') :
    ∃ ds, a.Burying u x ds s' := by
  induction hm with
  | refl => exact ⟨ds, h⟩
  | tail hpre hm ih =>
      obtain ⟨es, hes⟩ := ih
      have hshifts := HandleShifts.shifts hpre
      refine hes.step (Shifts.inv hshifts hi) (fun v hv => ?_) hu hm
      exact hdead v ((Moves.dead (Shifts.moves hshifts) hi v).mp hv)

/-- Nobody is queued on a handle that is not registered. -/
theorem Inv.joiners_nil (h : s.Inv) (hx : x ∉ s.handles) : (s.waitq (.joiners x)).items = [] := by
  refine List.eq_nil_iff_forall_not_mem.mpr fun t ht => hx ?_
  obtain ⟨hmem, hslot⟩ := h.mem_waitq ht
  obtain ⟨hs, hon⟩ := Task.joinWaitingOn_of_slot hslot
  exact h.handle.joinRegistered t hmem x hs hon

/-- The task of handle `x` is gone: the handle is completed, and its joiners have been woken in
the order of their arrival, all with the outcome of the task. -/
structure Parted (x : HandleId) (a b : Rt) : Prop where
  completed : (b.handle x).completed = true ∧ (b.handle x).task = none
  result : (b.handle x).joinResult = a.outcome x
  request : (b.handle x).cancelRequested = (a.handle x).cancelRequested
  others : ∀ y, y ≠ x → b.handle y = a.handle y
  queue : (b.waitq (.joiners x)).items = []
  runq : b.runq.items = a.runq.items ++ (a.waitq (.joiners x)).items
  log : b.log = a.log ++ (a.waitq (.joiners x)).items.map fun t =>
    .done (a.task t).call .neither (a.outcome x)
  woken : ∀ t ∈ (a.waitq (.joiners x)).items, b.task t = (a.task t).joined (a.outcome x)
  left : ∀ t ∈ b.allTasks, t ∉ (a.waitq (.joiners x)).items → b.task t = a.task t

end Rt

open Rt

variable {s s' a b : Rt} {t u : TaskId} {x y : HandleId}

theorem reap_waitq (s : Rt) (t : TaskId) : (s.reap t).waitq = s.waitq := by
  unfold Rt.reap
  split <;> rfl

theorem Buries.parted (hb : Buries u a b) (hi : a.Inv) (hdead : ∀ v, a.Dead v → v = u)
    (hx : x ∈ a.handles) (hxu : (a.handle x).task = some u) : Parted x a b := by
  have hu := (hi.handle.back x hx u hxu).2
  have hc : (a.handle x).completed = false := by
    cases hc : (a.handle x).completed with
    | false => rfl
    | true =>
        have hnone := (hi.handle.completed x hx).mp hc
        rw [hxu] at hnone
        cases hnone
  have hmem := fun v (hv : v ∈ b.allTasks) => ((hb.mem hi).mp hv).1
  obtain @⟨c, hm, -, hgone, hset⟩ := hb
  obtain ⟨ds, h⟩ := (Burying.start hx hc).run hi hdead hu hm
  have hinv := Shifts.inv (HandleShifts.shifts hm) hi
  have hdone : (c.handle x).completed = true ∧ (c.waitq (.joiners x)).items = [] := by
    by_cases hin : x ∈ c.handles
    · have hs := hset x (h.handle_eq hu) hin
      exact ⟨hs.1, hs.2.1⟩
    · exact ⟨h.dropped hin, hinv.joiners_nil hin⟩
  have htask : (c.handle x).task = none := by
    by_cases hin : x ∈ c.handles
    · exact (hinv.handle.completed x hin).mp hdone.1
    · have hmade : c.made (.handle x) = true :=
        (Moves.grows (Shifts.moves (HandleShifts.shifts hm))).made _ (hi.handle.live x hx).1
      exact (hinv.handle.gone x hmade hin).1
  have hds : (a.waitq (.joiners x)).items = ds := by rw [h.queue, hdone.2, List.append_nil]
  refine ⟨?_, ?_, ?_, ?_, ?_, ?_, ?_, fun t ht => ?_, fun t ht hnot => ?_⟩
  · rw [reap_handle]
    exact ⟨hdone.1, htask⟩
  · rw [reap_handle]
    exact h.result hdone.1
  · rw [reap_handle]
    exact h.request
  · rw [reap_handle]
    exact h.others
  · rw [reap_waitq]
    exact hdone.2
  · rw [reap_runq, hds]
    exact h.runq
  · rw [reap_log, hds]
    exact h.log
  · have hwoken := h.woken t (hds ▸ ht)
    have hne : t ≠ u := by
      rintro rfl
      rw [hwoken] at hgone
      cases hgone
    rw [reap_task_of_ne c hne]
    exact hwoken
  · rw [reap_task_of_ne c (hmem t ht)]
    exact h.left t (hds ▸ hnot)

/-- The burial of a task without a handle wakes nobody. -/
theorem Buries.alone (hb : Buries u a b) (hi : a.Inv) (hdead : ∀ v, a.Dead v → v = u)
    (hu : (a.task u).handle = none) : b = a.reap u := by
  obtain @⟨c, hm, -, -, -⟩ := hb
  suffices hsame : c = a by rw [hsame]
  induction hm with
  | refl => rfl
  | tail hpre hm ih =>
      subst ih
      have notDying : ∀ y, ¬Rt.Dying _ y := fun y hy => by
        obtain ⟨v, hv, hs, hvy⟩ := hy
        obtain rfl := hdead v ⟨hv, hs⟩
        rw [hu] at hvy
        cases hvy
      cases hm with
      | complete y v hy hv hs hyv =>
          obtain rfl := hdead v ⟨hv, hs⟩
          have hback := (hi.handle.back y hy v hyv).2
          rw [hu] at hback
          cases hback
      | wakeJoin y t hy hc hhead =>
          rw [(hi.handle.settled y hy hc (notDying y)).1] at hhead
          cases hhead
      | drop y hy hc hr =>
          have hrel := (hi.handle.settled y hy hc (notDying y)).2
          rw [hr] at hrel
          cases hrel

/-! ## Sections that bury nobody -/

/-- No handle is completed, and whoever waits for a join goes on waiting. -/
structure Rt.KeepsJoins (s s' : Rt) : Prop where
  completed : ∀ x, s.made (.handle x) = true → (s'.handle x).completed = (s.handle x).completed
  task : ∀ t ∈ s.allTasks, (s.task t).state = .waitingJoin → s'.task t = s.task t

theorem Rt.KeepsJoins.same (hh : s'.handle = s.handle) (ht : s'.task = s.task) : s.KeepsJoins s' :=
  ⟨fun _ _ => by rw [hh], fun _ _ _ => by rw [ht]⟩

/-- The record of one task changes, which does not wait for a join. -/
theorem Rt.KeepsJoins.of_update {k : Task} (hh : s'.handle = s.handle)
    (ht : s'.task = Function.update s.task t k)
    (hs : t ∈ s.allTasks → (s.task t).state ≠ .waitingJoin) : s.KeepsJoins s' := by
  refine ⟨fun _ _ => by rw [hh], fun u hu hw => ?_⟩
  rw [ht, Function.update_of_ne]
  rintro rfl
  exact hs hu hw

/-- One handle changes, and not in whether it is completed. -/
theorem Rt.KeepsJoins.of_handle {k : Handle} (hh : s'.handle = Function.update s.handle x k)
    (ht : s'.task = s.task)
    (hk : s.made (.handle x) = true → k.completed = (s.handle x).completed) : s.KeepsJoins s' := by
  refine ⟨fun y hy => ?_, fun _ _ _ => by rw [ht]⟩
  by_cases hyx : y = x
  · subst hyx
    rw [hh, Function.update_self]
    exact hk hy
  · rw [hh, Function.update_of_ne hyx]

theorem Rt.KeepsJoins.trans (h : s.KeepsJoins a) (h' : a.KeepsJoins s')
    (hm : ∀ o, s.made o = true → a.made o = true) (hall : ∀ t ∈ s.allTasks, t ∈ a.allTasks) :
    s.KeepsJoins s' := by
  refine ⟨fun x hx => (h'.completed x (hm _ hx)).trans (h.completed x hx), fun t ht hw => ?_⟩
  have heq := h.task t ht hw
  exact (h'.task t (hall t ht) (by rw [heq]; exact hw)).trans heq

theorem Rt.Inv.not_dying (hnd : ∀ u, ¬s.Dead u) (x : HandleId) : ¬s.Dying x := by
  rintro ⟨v, hv, hs, -⟩
  exact hnd v ⟨hv, hs⟩

theorem Drain.keepsJoins {ch : ChanId} (hd : Drain ch s s') (h : s.Inv) : s.KeepsJoins s' := by
  cases hd with
  | task r t hr _ hhead =>
      refine .of_update rfl rfl fun _ => ?_
      have hslot := (h.mem_waitq (List.mem_of_head? hhead)).2
      rw [(Task.chanRef_of_slot hslot (by simp [hr])).1]
      simp
  | select r w items _ _ hhead hs => exact .of_update rfl rfl fun _ => by rw [hs]; simp

theorem Shift.keepsJoins (hm : Shift s s') (h : s.Inv) (hnd : ∀ u, ¬s.Dead u) :
    s.KeepsJoins s' := by
  cases hm with
  | drain hd => exact hd.keepsJoins h
  | timeout t items ht hs => exact .of_update rfl rfl fun _ => by rw [hs]; simp
  | wakeJoin x t hx hc hhead =>
      rw [(h.handle.settled x hx hc (Inv.not_dying hnd x)).1] at hhead
      cases hhead
  | wakeSleep t items ht hs => exact .of_update rfl rfl fun _ => by rw [hs]; simp
  | wakeFd w items rc ready hw ha =>
      obtain ⟨-, -, -, hs⟩ := h.fd.owner w hw
      exact .of_update rfl rfl fun _ => by rw [hs.mp ha]; simp
  | completeHandle x t hx ht hs => exact absurd ⟨ht, hs⟩ (hnd t)
  | status x st hc => exact .of_handle rfl rfl fun _ => rfl
  | request x => exact .of_handle rfl rfl fun _ => rfl
  | release x => exact .of_handle rfl rfl fun _ => rfl
  | releaseDrop x => exact .of_handle rfl rfl fun _ => rfl
  | wasteTask k i =>
      exact .of_update rfl rfl fun ht => absurd (h.heap.task_lt ht) (Nat.lt_irrefl _)
  | wasteHandle => exact .of_handle rfl rfl fun hm => absurd rfl (h.handle_ne_nextAddr hm)
  | _ => exact .same rfl rfl

theorem Move.keepsJoins (hm : Move s s') (h : s.Inv) (hnd : ∀ u, ¬s.Dead u) : s.KeepsJoins s' := by
  cases hm with
  | shift hm => exact hm.keepsJoins h hnd
  | deliver r t hr ht =>
      refine .of_update rfl rfl fun _ => ?_
      rw [(Task.chanRef_of_slot (h.mem_waitq ht).2 hr).1]
      simp
  | deliverSelect r w items hw hs => exact .of_update rfl rfl fun _ => by rw [hs]; simp
  | _ => exact .same rfl rfl

theorem Moves.keepsJoins (hm : Moves s s') (h : s.Inv) (hnd : ∀ u, ¬s.Dead u) :
    s.KeepsJoins s' := by
  induction hm with
  | refl => exact .same rfl rfl
  | tail hpre hm ih =>
      refine ih.trans (hm.keepsJoins (Moves.inv hpre h) fun u hu => ?_) (Moves.grows hpre).made ?_
      · exact hnd u ((Moves.dead hpre h u).mp hu)
      · intro t ht
        rwa [Moves.allTasks_eq hpre]

theorem Shifts.keepsJoins (hm : Shifts s s') (h : s.Inv) (hnd : ∀ u, ¬s.Dead u) :
    s.KeepsJoins s' :=
  Moves.keepsJoins (Shifts.moves hm) h hnd

theorem Rt.Created.keepsJoins (hc : Created s s') (h : s.Inv) (hnd : ∀ u, ¬s.Dead u) :
    s.KeepsJoins s' := by
  cases hc with
  | no a hs => exact Shifts.keepsJoins (Wastes.shifts hs) h hnd
  | task tape =>
      exact .of_update rfl rfl fun ht => absurd (h.heap.task_lt ht) (Nat.lt_irrefl _)
  | handle tape =>
      refine ⟨fun x hx => ?_, fun t ht _ => ?_⟩
      · exact congrArg Handle.completed (Function.update_of_ne (h.handle_ne_nextAddr hx) _ _)
      · exact Function.update_of_ne ((h.heap.task_lt ht).trans (Nat.lt_succ_self _)).ne _ _
  | chan tape elemSize capacity => exact .same rfl rfl

/-- What a cancellation does to the joiners: a joiner leaves the queue when it is its target, and
the joiners of a destroyed task are served. -/
inductive Rt.CancelsJoins (x : HandleId) (s s' : Rt) : Prop where
  | kept : s.KeepsJoins s' → CancelsJoins x s s'
  | joiner (t : TaskId) (y : HandleId) : (s.handle x).task = some t → t ∈ (s.waitq (.joiners y)).items →
      s'.handle = (s.reported x).handle →
      s'.task = Function.update s.task t ((s.task t).joined .cancelled) → CancelsJoins x s s'
  | destroyed (t : TaskId) : x ∈ s.handles → (s.handle x).task = some t → t ∈ s.allTasks →
      (s.task t).state = .ready → Buries t ((s.reported x).killReady t) s' → CancelsJoins x s s'

theorem Cancels.keepsJoins (hc : Cancels t a s') (h : a.Inv) :
    a.KeepsJoins s' ∨ (∃ y, t ∈ (a.waitq (.joiners y)).items ∧ s' = a.cancelJoin y t) ∨
      (t ∈ a.allTasks ∧ (a.task t).state = .ready ∧ Buries t (a.killReady t) s') := by
  cases hc with
  | nothing => exact .inl (.same rfl rfl)
  | sleep items ht hs => exact .inl (.of_update rfl rfl fun _ => by rw [hs]; simp)
  | chan r ht hr =>
      refine .inl (.of_update rfl rfl fun _ => ?_)
      rw [(Task.chanRef_of_slot (h.mem_waitq ht).2 hr).1]
      simp
  | select items ht hs => exact .inl (.of_update rfl rfl fun _ => by rw [hs]; simp)
  | fd w items hw ha hwt =>
      obtain ⟨-, -, -, hs⟩ := h.fd.owner w hw
      exact .inl (.of_update rfl rfl fun _ => by rw [hs.mp ha]; simp)
  | join y ht => exact .inr (.inl ⟨y, ht, rfl⟩)
  | destroy ht hs hb => exact .inr (.inr ⟨ht, hs, hb⟩)

theorem reported_keepsJoins (s : Rt) (x : HandleId) : s.KeepsJoins (s.reported x) := by
  refine ⟨fun y _ => ?_, fun _ _ _ => rfl⟩
  by_cases hy : y = x
  · subst hy
    simp [Rt.reported, Rt.requested, Rt.modHandle]
  · simp [Rt.reported, Rt.requested, Rt.modHandle, hy]

theorem Rt.CancelCall.joins (hc : CancelCall s x s') (h : s.Inv) (hnd : ∀ u, ¬s.Dead u) :
    CancelsJoins x s s' := by
  cases hc with
  | late => exact .kept (Shifts.keepsJoins (.single (.request x)) h hnd)
  | wake t a hx hcomp htask hcancel =>
      rcases hcancel.keepsJoins (Shifts.inv (reported_shifts hcomp) h) with
        hkeep | ⟨y, ht, rfl⟩ | ⟨ht, hs, hb⟩
      · exact .kept ((reported_keepsJoins s x).trans hkeep (fun _ ho => ho) fun _ ht => ht)
      · exact .joiner t y htask ht rfl rfl
      · exact .destroyed t hx htask ht hs hb

theorem Rt.Section.joins {does : Op → Prop} {c : CallId} {o : Option (Role × Rc)}
    (hs : Section does c s o s') (h : s.Rest) :
    s.KeepsJoins s' ∨ ∃ x, does (.cancel x) ∧ o = some (.neither, .ok) ∧ CancelsJoins x s s' := by
  have hi := h.inv
  cases hs with
  | idle o tape => exact .inl (.same rfl rfl)
  | release x rc _ hr => exact .inl (hr.shift.keepsJoins hi h.noDead)
  | fd o _ _ ho => exact .inl (Shifts.keepsJoins (ho.shifts hi) hi h.noDead)
  | go rc _ _ hc => exact .inl (hc.keepsJoins hi h.noDead)
  | chanCreate rc _ _ hc => exact .inl (hc.created.keepsJoins hi h.noDead)
  | cancel x hd hc => exact .inr ⟨x, hd, rfl, hc.joins hi h.noDead⟩
  | send kind ch value rc _ _ hsend => exact .inl (Moves.keepsJoins hsend.moves hi h.noDead)
  | sendNot => exact .inl (.same rfl rfl)
  | recv ch out rc _ _ hrecv => exact .inl (Moves.keepsJoins hrecv.moves hi h.noDead)
  | recvNot => exact .inl (.same rfl rfl)
  | close ch rc _ _ hc => exact .inl (Moves.keepsJoins hc.moves hi h.noDead)
  | destroy ch rc _ hl hd => exact .inl (Moves.keepsJoins (hd.moves hl.1) hi h.noDead)
  | unselect t rc _ hrun hf =>
      obtain ⟨_, _, _, _, _, _, _, _, _, _, _, _, rfl⟩ := Registers.enrols hf.registers
      exact .inl (.of_update rfl rfl fun _ => by rw [hrun.2]; simp)
  | unwait t rc x _ _ hrun hq =>
      obtain ⟨gens, polling, interest, filters, tape, rfl⟩ := hq
      exact .inl (.of_update rfl rfl fun _ => by rw [hrun.2]; simp)

theorem Rt.KeepsJoins.marked (h : s.KeepsJoins a) (hm : Marked b s') (hh : b.handle = a.handle)
    (ht : b.task = a.task) : s.KeepsJoins s' := by
  have hc : ∀ y, (s'.handle y).completed = (a.handle y).completed := fun y => by
    rcases hm with rfl | ⟨x, st, -, rfl⟩
    · rw [hh]
    · by_cases hy : y = x
      · subst hy
        simp [Rt.modHandle, hh]
      · simp [Rt.modHandle, hy, hh]
  refine ⟨fun y hy => (hc y).trans (h.completed y hy), fun t hmem hw => ?_⟩
  rw [hm.task_eq, ht]
  exact h.task t hmem hw

namespace Sys

variable {s s' : Sys} {act : Act}

/-- What a step does to the joiners. -/
inductive Joining (s : Sys) (act : Act) (s' : Sys) : Prop where
  | kept : s.rt.KeepsJoins s'.rt → Joining s act s'
  | cancels (a : Actor) (env : Env) (c d : CallId) (x : HandleId) (r : Rt) : act = .cont a env →
      s.pc a.agent = .called c (.cancel x) → CancelsJoins x s.rt r →
      s'.rt = { r with log := r.log ++ [.done d .neither .ok, .ret d .ok] } → Joining s act s'
  | finishes (w : Nat) (t : TaskId) : act = .finish w t → s.workers w = .running t →
      Buries t (s.rt.leave.die t) s'.rt → Joining s act s'
  | shutdown (n : Nat) (env : Env) (c : CallId) : act = .cont (.ext n) env →
      s.pc (.ext n) = .called c .shutdown → s'.rt.allTasks = [] → Joining s act s'

theorem Case.joining (hc : Case s act s') (hok : s.Ok) : s.Joining act s' := by
  have hi := hok.rest.inv
  have hnd := hok.rest.noDead
  cases hc with
  | calls a call hen hpc =>
      cases a with
      | ext n => exact .kept (.same rfl rfl)
      | task w t =>
          have hrun := (hok.runs t).mpr ⟨w, by simpa [Sys.enabled] using hen⟩
          exact .kept (.of_update rfl rfl fun _ => by rw [hrun.2]; simp)
  | acts a env c o p es os sel hen hcall hnp hr _ hs hon =>
      rcases hs.joins hok.rest with hkeep | ⟨x, ⟨d, hd⟩, rfl, hcancel⟩
      · exact .kept ⟨hkeep.completed, hkeep.task⟩
      · cases hon with
        | out => exact .cancels a env d c x _ rfl hd hcancel rfl
  | resumesFd w t env c v use o p es hw =>
      have hrun := (hok.runs t).mpr ⟨w, hw⟩
      exact .kept (.of_update rfl rfl fun _ => by rw [hrun.2]; simp)
  | parks w t env c p hw hl hcall hnp hp hm =>
      have hrun := (hok.runs t).mpr ⟨w, hw⟩
      have hws := hok.rest.noWaiters t hrun
      obtain ⟨k, htask, -⟩ := hp.leaves hws
      have hpark := KeepsJoins.of_update (hp.handle_eq hws) htask fun _ => by rw [hrun.2]; simp
      exact .kept (hpark.marked hm rfl rfl)
  | finishes w t hw hl hpc hb => exact .finishes w t rfl hw hb
  | halts n env c hpc hr hm =>
      have hinv : s.rt.halt.Inv := hi.congr (by constructor <;> rfl) rfl rfl rfl rfl
      have hkeep := Shifts.keepsJoins (FdShifts.shifts hm) hinv hnd
      exact .kept ⟨hkeep.completed, hkeep.task⟩
  | shutsDown n env c hpc hinit hr halone hd => exact .shutdown n env c rfl hpc hd.off.allTasks
  | loops w q lock _ hl hm =>
      have hkeep := Shifts.keepsJoins (Ticks.shifts hm) hi hnd
      exact .kept ⟨hkeep.completed, hkeep.task⟩
  | dispatches w env t q hw hl hq hm =>
      obtain ⟨-, hready⟩ := hi.mem_runq (t := t) (by simp [(Queue.pop_eq_some.mp hq).1])
      have hrun : s.rt.KeepsJoins (s.rt.dispatch t q) :=
        .of_update rfl rfl fun _ => by rw [hready]; simp
      exact .kept (hrun.marked hm rfl rfl)
  | _ => exact .kept (.same rfl rfl)

/-- By this step task `u` of handle `x` is gone: its function has returned, or it was cancelled
before it ran again. The joiners have been appended to the run queue in the order of their
arrival, and their calls have ended with the outcome of the task. -/
structure Completes (s : Sys) (act : Act) (s' : Sys) (x : HandleId) (u : TaskId) : Prop where
  task : x ∈ s.rt.handles ∧ (s.rt.handle x).task = some u
  gone : u ∉ s'.rt.allTasks
  cause : (∃ w, act = .finish w u ∧
      (s'.rt.handle x).cancelRequested = (s.rt.handle x).cancelRequested) ∨
    ∃ a env c, act = .cont a env ∧ s.pc a.agent = .called c (.cancel x) ∧
      (s'.rt.handle x).cancelRequested = true
  completed : (s'.rt.handle x).completed = true ∧ (s'.rt.handle x).task = none ∧
    (s'.rt.handle x).joinResult = s'.rt.outcome x
  queue : (s'.rt.waitq (.joiners x)).items = []
  runq : s'.rt.runq.items = s.rt.runq.items.erase u ++ (s.rt.waitq (.joiners x)).items
  log : ∃ es, s'.rt.log = s.rt.log ++ ((s.rt.waitq (.joiners x)).items.map fun t =>
    Event.done (s.rt.task t).call .neither (s'.rt.outcome x)) ++ es
  woken : ∀ t ∈ (s.rt.waitq (.joiners x)).items,
    s'.rt.task t = (s.rt.task t).joined (s'.rt.outcome x)

theorem outcome_congr {r r' : Rt} {x : HandleId}
    (h : (r'.handle x).cancelRequested = (r.handle x).cancelRequested) :
    r'.outcome x = r.outcome x := by
  rw [Rt.outcome, h, Rt.outcome]

/-- What `Completes` says, and that the other handles and tasks are left alone. -/
def Only (s : Sys) (act : Act) (s' : Sys) (x : HandleId) (u : TaskId) : Prop :=
  s.Completes act s' x u ∧
    (∀ y, y ≠ x → (s'.rt.handle y).completed = (s.rt.handle y).completed) ∧
    ∀ t ∈ s'.rt.allTasks, t ∉ (s.rt.waitq (.joiners x)).items → s'.rt.task t = s.rt.task t

/-- Task `u`, which is dead in `a`, is buried; `es` is reported afterwards. -/
theorem only_of_buries {a r : Rt} {l : List Event} (hok : s.Ok) (hmem : x ∈ s.rt.handles)
    (htask : (s.rt.handle x).task = some u) (hu : (s.rt.task u).state ≠ .waitingJoin)
    (ha : a.Inv) (hb : Buries u a r) (hr : s'.rt = { r with log := r.log ++ l })
    (hself : x ∈ a.handles ∧ (a.handle x).task = some u)
    (hother : ∀ y, y ≠ x → (a.handle y).completed = (s.rt.handle y).completed)
    (hsame : ∀ t, t ≠ u → a.task t = s.rt.task t) (hall : a.allTasks = s.rt.allTasks)
    (hwaitq : a.waitq = s.rt.waitq) (hrunq : a.runq.items = s.rt.runq.items.erase u)
    (hlog : a.log = s.rt.log)
    (hcause : (∃ w, act = .finish w u ∧
        (a.handle x).cancelRequested = (s.rt.handle x).cancelRequested) ∨
      ∃ b env c, act = .cont b env ∧ s.pc b.agent = .called c (.cancel x) ∧
        (a.handle x).cancelRequested = true) : s.Only act s' x u := by
  have hdead : ∀ v, a.Dead v → v = u := fun v hv => by
    by_contra hne
    refine hok.rest.noDead v ⟨hall ▸ hv.1, ?_⟩
    rw [← hsame v hne]
    exact hv.2
  have hp := hb.parted ha hdead hself.1 hself.2
  have hout : s'.rt.outcome x = a.outcome x := by
    refine outcome_congr ?_
    rw [hr]
    exact hp.request
  have hne : ∀ t ∈ (s.rt.waitq (.joiners x)).items, t ≠ u := fun t ht heq =>
    hu (heq ▸ (Task.joinWaitingOn_of_slot (hok.rest.inv.mem_waitq ht).2).1)
  have hrequest : (s'.rt.handle x).cancelRequested = (a.handle x).cancelRequested := by
    rw [hr]
    exact hp.request
  refine ⟨⟨⟨hmem, htask⟩, fun hin => ?_, ?_, ?_, ?_, ?_, ⟨l, ?_⟩, fun t ht => ?_⟩, fun y hy => ?_,
    fun t ht hnot => ?_⟩
  · rw [hr] at hin
    exact ((hb.mem ha).mp hin).1 rfl
  · rw [hrequest]
    exact hcause
  · rw [hout, hr]
    exact ⟨hp.completed.1, hp.completed.2, hp.result⟩
  · rw [hr]
    exact hp.queue
  · rw [hr, ← hrunq, ← hwaitq]
    exact hp.runq
  · rw [hout, hr, ← hlog, ← hwaitq]
    change r.log ++ l = _
    rw [hp.log]
    refine congrArg (· ++ l) (congrArg (_ ++ ·) (List.map_congr_left fun t ht => ?_))
    rw [hsame t (hne t (hwaitq ▸ ht))]
  · rw [hout, hr, ← hsame t (hne t ht)]
    exact hp.woken t (hwaitq ▸ ht)
  · rw [hr, ← hother y hy]
    exact congrArg Handle.completed (hp.others y hy)
  · rw [hr] at ht ⊢
    rw [← hsame t ((hb.mem ha).mp ht).1]
    exact hp.left t ht (hwaitq ▸ hnot)

/-- A task whose function has returned is buried. -/
theorem only_finish {w : Nat} (hok : s.Ok) (hw : s.workers w = .running u)
    (hb : Buries u (s.rt.leave.die u) s'.rt) (hx : (s.rt.task u).handle = some x) :
    s.Only (.finish w u) s' x u := by
  have hi := hok.rest.inv
  have hrun := (hok.runs u).mpr ⟨w, hw⟩
  obtain ⟨hmem, htask⟩ := hi.handle.linked u hrun.1 (by rw [hrun.2]; simp) x hx
  have hnot : u ∉ s.rt.runq.items := fun hin => by
    have hready := (hi.mem_runq hin).2
    rw [hrun.2] at hready
    cases hready
  refine only_of_buries (l := []) hok hmem htask (by rw [hrun.2]; simp)
    (hi.leave.die hrun.1 hrun.2 (hok.rest.noWaiters u hrun)) hb (by rw [List.append_nil])
    ⟨hmem, htask⟩ (fun _ _ => rfl) (fun t ht => Function.update_of_ne ht _ _) rfl rfl ?_ rfl
    (.inl ⟨w, rfl, rfl⟩)
  rw [List.erase_of_not_mem hnot]
  rfl

/-- A task that is ready is cancelled and buried. -/
theorem only_cancel {a : Actor} {env : Env} {c d : CallId} {r : Rt} (hok : s.Ok)
    (hpc : s.pc a.agent = .called c (.cancel x)) (hmem : x ∈ s.rt.handles)
    (htask : (s.rt.handle x).task = some u) (hu : u ∈ s.rt.allTasks)
    (hs : (s.rt.task u).state = .ready) (hb : Buries u ((s.rt.reported x).killReady u) r)
    (hr : s'.rt = { r with log := r.log ++ [.done d .neither .ok, .ret d .ok] }) :
    s.Only (.cont a env) s' x u := by
  have hi := hok.rest.inv
  have hcomp : (s.rt.handle x).completed = false := by
    by_contra hc
    have hnone := (hi.handle.completed x hmem).mp (by simpa using hc)
    rw [htask] at hnone
    cases hnone
  have hin : u ∈ s.rt.runq.items := (hi.task.placed.mem .runq u).mpr ⟨hu, by simp [Task.slot, hs]⟩
  refine only_of_buries hok hmem htask (by rw [hs]; simp)
    ((Shifts.inv (reported_shifts hcomp) hi).killReady hu hs) hb hr ⟨hmem, ?_⟩ (fun y hy => ?_)
    (fun t ht => Function.update_of_ne ht _ _) rfl rfl ?_ rfl (.inr ⟨a, env, c, rfl, hpc, ?_⟩)
  · simp [Rt.killReady, Rt.reported, Rt.requested, Rt.modHandle, htask]
  · simp [Rt.killReady, Rt.reported, Rt.requested, Rt.modHandle, hy]
  · simp [Rt.killReady, Rt.reported, Rt.requested, Rt.modHandle, Queue.remove_of_mem hin]
  · simp [Rt.killReady, Rt.reported, Rt.requested, Rt.modHandle]

/-- The step is a call of `mt_task_cancel` on `x`. -/
def Cancelling (s : Sys) (act : Act) (x : HandleId) : Prop :=
  ∃ a env c, act = .cont a env ∧ s.pc a.agent = .called c (.cancel x)

/-- The step is a call of `mt_shutdown`. -/
def Stopping (s : Sys) (act : Act) : Prop :=
  ∃ a env c, act = .cont a env ∧ s.pc a.agent = .called c .shutdown

/-- What a step does to handles and joiners. -/
structure JoinStep (s : Sys) (act : Act) (s' : Sys) : Prop where
  /-- a handle is completed when its task goes, or by the shutdown -/
  completes : ∀ x, s.rt.made (.handle x) = true → (s.rt.handle x).completed = false →
    (s'.rt.handle x).completed = true → s.Stopping act ∨ ∃ u, s.Completes act s' x u
  /-- a joiner goes on with the outcome of the task it has waited for, or is cancelled -/
  leaves : ∀ t ∈ s.rt.allTasks, t ∈ s'.rt.allTasks → ∀ x, (s.rt.task t).state = .waitingJoin →
    (s.rt.task t).joinWaitingOn = some x → (s'.rt.task t).state ≠ .waitingJoin →
    (∃ u, s.Completes act s' x u) ∨ ∃ y, s.Cancelling act y ∧ (s.rt.handle y).task = some t ∧
      s'.rt.task t = (s.rt.task t).joined .cancelled

/-- Nobody is woken and no handle is completed. -/
theorem JoinStep.of_kept
    (hc : ∀ x, s.rt.made (.handle x) = true → (s'.rt.handle x).completed = (s.rt.handle x).completed)
    (ht : ∀ t ∈ s'.rt.allTasks, t ∈ s.rt.allTasks → (s.rt.task t).state = .waitingJoin →
      s'.rt.task t = s.rt.task t) : s.JoinStep act s' := by
  refine ⟨fun x hm h h' => ?_, fun t hmem hmem' x hw _ hne => ?_⟩
  · rw [hc x hm, h] at h'
    cases h'
  · rw [ht t hmem' hmem hw] at hne
    exact absurd hw hne

/-- The joiners of one handle are woken. -/
theorem Only.joinStep (h : s.Only act s' x u) (hi : s.rt.Inv) : s.JoinStep act s' := by
  obtain ⟨hcomp, hother, hleft⟩ := h
  refine ⟨fun y hm hc hc' => ?_, fun t hmem hmem' y hw hon hne => ?_⟩
  · by_cases hy : y = x
    · exact .inr ⟨u, hy ▸ hcomp⟩
    · rw [hother y hy, hc] at hc'
      cases hc'
  · by_cases hin : t ∈ (s.rt.waitq (.joiners x)).items
    · have hon' := (Task.joinWaitingOn_of_slot (hi.mem_waitq hin).2).2
      rw [hon, Option.some.injEq] at hon'
      exact .inl ⟨u, hon' ▸ hcomp⟩
    · rw [hleft t hmem' hin] at hne
      exact absurd hw hne

theorem Case.joinStep (hc : Case s act s') (hok : s.Ok) : s.JoinStep act s' := by
  have hi := hok.rest.inv
  cases hc.joining hok with
  | kept hkeep => exact .of_kept hkeep.completed fun t _ ht hw => hkeep.task t ht hw
  | cancels a env c d x r hact hpc hcancel hr =>
      cases hcancel with
      | kept hkeep =>
          refine .of_kept (fun y hy => ?_) fun t _ ht hw => ?_
          · rw [hr]
            exact hkeep.completed y hy
          · rw [hr]
            exact hkeep.task t ht hw
      | joiner t y htask ht hhandle hrt =>
          have hstask : s'.rt.task = Function.update s.rt.task t ((s.rt.task t).joined .cancelled) := by
            rw [hr]
            exact hrt
          refine ⟨fun z hm h h' => ?_, fun v hmem hmem' z hw _ hne => .inr ⟨x, ?_⟩⟩
          · have hsame : (s'.rt.handle z).completed = (s.rt.handle z).completed := by
              rw [hr]
              exact (congrArg Handle.completed (congrFun hhandle z)).trans
                ((reported_keepsJoins s.rt x).completed z hm)
            rw [hsame, h] at h'
            cases h'
          · have hvt : v = t := by
              by_contra hvt
              rw [hstask, Function.update_of_ne hvt] at hne
              exact hne hw
            subst hvt
            refine ⟨⟨a, env, c, hact, hpc⟩, htask, ?_⟩
            rw [hstask, Function.update_self]
      | destroyed t hmem htask ht hs hb =>
          subst hact
          exact (only_cancel hok hpc hmem htask ht hs hb hr).joinStep hi
  | finishes w t hact hw hb =>
      subst hact
      cases hx : (s.rt.task t).handle with
      | some x => exact (only_finish hok hw hb hx).joinStep hi
      | none =>
          have hrun := (hok.runs t).mpr ⟨w, hw⟩
          have hdie := hi.leave.die hrun.1 hrun.2 (hok.rest.noWaiters t hrun)
          have hsame : ∀ v, v ≠ t → (s.rt.leave.die t).task v = s.rt.task v := fun v hv =>
            Function.update_of_ne hv _ _
          have hdead : ∀ v, (s.rt.leave.die t).Dead v → v = t := fun v hv => by
            by_contra hne
            refine hok.rest.noDead v ⟨hv.1, ?_⟩
            rw [← hsame v hne]
            exact hv.2
          have hnone : ((s.rt.leave.die t).task t).handle = none := by simp [Rt.die, Rt.leave, hx]
          have heq := hb.alone hdie hdead hnone
          refine .of_kept (fun y _ => ?_) fun v hv _ _ => ?_
          · rw [heq, reap_handle]
            rfl
          · have hvt := ((hb.mem hdie).mp hv).1
            rw [heq, reap_task_of_ne _ hvt]
            exact hsame v hvt
  | shutdown n env c hact hpc hall =>
      refine ⟨fun x _ _ _ => .inl ⟨.ext n, env, c, hact, hpc⟩, fun t _ hmem => ?_⟩
      rw [hall] at hmem
      cases hmem

theorem Completes.of_tick {tape : List Bool} (h : (s.tick tape).Completes act s' x u) :
    s.Completes act s' x u :=
  ⟨h.task, h.gone, h.cause, h.completed, h.queue, h.runq, h.log, h.woken⟩

theorem joinStep_of_step (h : machine.Reach Contract s) (hact : s.Contract act)
    (hstep : machine.step s act = some s') : s.JoinStep act s' := by
  have hok := ok_of_reach (fun _ _ hc => hc) h
  obtain ⟨s₀, hp, hcase⟩ := hok.step_cases hact hstep
  have hmoves := hcase.joinStep (hp.ok hok)
  rcases hp.cases hok with ⟨tape, rfl⟩ | ⟨-, hoff, rt, hb, rfl⟩
  · refine ⟨fun x hm hc hc' => ?_, fun t ht ht' x hw hon hne => ?_⟩
    · rcases hmoves.completes x hm hc hc' with hstop | ⟨u, hcomp⟩
      · exact .inl hstop
      · exact .inr ⟨u, hcomp.of_tick⟩
    · rcases hmoves.leaves t ht ht' x hw hon hne with ⟨u, hcomp⟩ | hcancel
      · exact .inl ⟨u, hcomp.of_tick⟩
      · exact .inr hcancel
  · refine ⟨fun x hm hc hc' => ?_, fun t ht => ?_⟩
    · rcases hmoves.completes x (by rw [hb.made]; exact hm) (by rw [hb.handle]; exact hc) hc' with
        hstop | ⟨u, hcomp⟩
      · exact .inl hstop
      · have hmem := hcomp.task.1
        rw [hb.off.handles] at hmem
        cases hmem
    · rw [hoff.allTasks] at ht
      cases ht

end Sys

/-! ## Handles in every state -/

/-- Who refers to a handle refers to one that has not been freed, and a handle is freed once,
when it is released, its task is gone and nobody is queued on it. -/
structure Rt.HandlesSound (s : Rt) : Prop where
  freed : ∀ x, s.made (.handle x) = true → s.frees (.handle x) ≤ 1 ∧
    (s.frees (.handle x) = 1 ↔ (s.handle x).released = true ∧ (s.handle x).task = none ∧
      (s.waitq (.joiners x)).items = [])
  completed : ∀ x, s.made (.handle x) = true → (s.handle x).completed = true →
    (s.waitq (.joiners x)).items = []
  /-- no pointer to a freed handle has been followed -/
  stale : s.stale = false
  registry : ∀ x ∈ s.handles, s.Live (.handle x)
  tasks : ∀ t ∈ s.allTasks, ∀ x, (s.task t).handle = some x → s.Live (.handle x)
  waits : ∀ t ∈ s.allTasks, ∀ x, (s.task t).state = .waitingJoin →
    (s.task t).joinWaitingOn = some x → s.Live (.handle x)
  joiners : ∀ x, (s.waitq (.joiners x)).items ≠ [] → s.Live (.handle x)

theorem Rt.Rest.handlesSound (h : s.Rest) : s.HandlesSound := by
  have hi := h.inv
  have hh := hi.handle
  have settled : ∀ x ∈ s.handles, (s.handle x).completed = true →
      (s.waitq (.joiners x)).items = [] ∧ (s.handle x).released = false := fun x hx hc =>
    hh.settled x hx hc (Inv.not_dying h.noDead x)
  refine ⟨fun x hm => ?_, fun x hm hc => ?_, hh.notStale, hh.live, fun t ht x hx => ?_,
    fun t ht x hs hon => hh.live x (hh.joinRegistered t ht x hs hon), fun x hne => ?_⟩
  · by_cases hx : x ∈ s.handles
    · have hfree := (hh.live x hx).2
      refine ⟨by omega, by omega, ?_⟩
      rintro ⟨hr, htask, -⟩
      have hrel := (settled x hx ((hh.completed x hx).mpr htask)).2
      rw [hr] at hrel
      cases hrel
    · obtain ⟨htask, hfree, -⟩ := hh.gone x hm hx
      rw [hfree]
      refine ⟨?_, fun h1 => ⟨?_, htask, hi.joiners_nil hx⟩, fun hr => if_pos hr.1⟩
      · split
        · exact le_rfl
        · exact Nat.zero_le 1
      · by_contra hr
        rw [if_neg hr] at h1
        cases h1
  · by_cases hx : x ∈ s.handles
    · exact (settled x hx hc).1
    · exact hi.joiners_nil hx
  · refine hh.live x (hh.linked t ht (fun hs => h.noDead t ⟨ht, hs⟩) x hx).1
  · by_contra hdead
    exact hne (hi.joiners_nil fun hx => hdead (hh.live x hx))

namespace Sys

variable {s : Sys}

/-- In every run in which handles are released at most once and not used after their release: a
handle is freed exactly once, when it is released, its task is gone and nobody is queued on it;
no freed handle is referred to; a completed one has no joiners; and when its task goes, the
joiners are woken in the order of their arrival with its outcome, which is what their calls
return. A joiner leaves the queue otherwise only by its own cancellation. -/
theorem handle_lifecycle (h : machine.Reach Contract s) :
    s.rt.HandlesSound ∧ ∀ act s', s.Contract act → machine.step s act = some s' →
      s.JoinStep act s' ∧
      ∀ x u, s.Completes act s' x u → ∀ t ∈ (s.rt.waitq (.joiners x)).items,
        ∃ c, s.pc (.task t) = .joinPark c x ∧ ∀ s'' rc, machine.Path Contract s' s'' →
          Event.ret c rc ∈ s''.rt.log → rc = s'.rt.outcome x := by
  have hok := ok_of_reach (fun _ _ hc => hc) h
  refine ⟨hok.rest.handlesSound, fun act s' hact hstep => ⟨joinStep_of_step h hact hstep, ?_⟩⟩
  intro x u hcomp t ht
  obtain ⟨hmem, hslot⟩ := hok.rest.inv.mem_waitq ht
  obtain ⟨hw, hon⟩ := Task.joinWaitingOn_of_slot hslot
  obtain ⟨y, hpc, hony⟩ := (hok.fits t hmem).join hw
  rw [hon, Option.some.injEq] at hony
  subst hony
  refine ⟨_, hpc, fun s'' rc hp hret => ?_⟩
  refine returns_of_done (h.step hact hstep) hp (r := .neither) ?_ hret
  obtain ⟨es, hlog⟩ := hcomp.log
  rw [hlog]
  exact List.mem_append_left _ (List.mem_append_right _ (List.mem_map.mpr ⟨t, ht, rfl⟩))

theorem handle_lifecycle_two_joiners : ∃ s s' u, machine.Reach Contract s ∧
    machine.step s (.finish 0 1) = some s' ∧ (s.rt.waitq (.joiners 0)).items = [2, 3] ∧
    (s'.rt.handle 0).completed = true ∧ s.Completes (.finish 0 1) s' 0 u ∧
    s'.rt.outcome 0 = .ok := by
  obtain ⟨s, hs, hp⟩ := reach_of_promised .poll (List.flatten [
      invoke (.ext 0) (.go true 0 true), invoke (.ext 0) (.go true 0 false),
      invoke (.ext 0) (.go true 0 false), invoke (.ext 0) (.run 1 true) 2, works 0 3,
      invoke (.task 0 1) .yield, works 0 2, invoke (.task 0 2) (.join 0), works 0 2,
      invoke (.task 0 3) (.join 0), works 0 2, [.cont (.task 0 1) {}]])
    (fun s => s.promised (.finish 0 1) && s.rt.made (.handle 0) && !(s.rt.handle 0).completed &&
      (s.rt.waitq (.joiners 0)).items == [2, 3] && (machine.step s (.finish 0 1)).any fun s' : Sys =>
        (s'.rt.handle 0).completed && s'.rt.outcome 0 == .ok) (by decide +kernel)
  simp only [Bool.and_eq_true, beq_iff_eq, Bool.not_eq_true', Option.any_eq_true] at hp
  obtain ⟨⟨⟨⟨hcon, hmade⟩, hopen⟩, hqueue⟩, s', hstep, hcomp, hout⟩ := hp
  have hjoin := ((handle_lifecycle hs).2 _ s' (contract_of_promised hcon) hstep).1
  rcases hjoin.completes 0 hmade hopen hcomp with ⟨_, _, _, hact, -⟩ | ⟨u, hu⟩
  · cases hact
  · exact ⟨s, s', u, hs, hstep, hqueue, hcomp, hu, hout⟩

end Sys

end Microthread
