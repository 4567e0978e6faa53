import Microthread.Properties.Cancellation

/-!
# Cancelling twice

A second `mt_task_cancel` dispatches on the state that the first has left. A running task
keeps its state and a ready one is gone with its handle completed, so there the second call
finds nothing more to do. A parked task has become ready: the second call destroys it.
-/

namespace Microthread

open Foundation Rt

variable {s s' : Rt} {t : TaskId} {x : HandleId}

/-- What a handle's owner relies on while the handle is not released. -/
structure Rt.HandleHeld (s s' : Rt) (x : HandleId) : Prop where
  cancelRequested : (s'.handle x).cancelRequested = (s.handle x).cancelRequested
  released : (s'.handle x).released = (s.handle x).released
  made : s'.made (.handle x) = s.made (.handle x)
  frees : s'.frees (.handle x) = s.frees (.handle x)
  registered : x ∈ s'.handles ↔ x ∈ s.handles

theorem Rt.HandleHeld.of_eq (hh : s'.handle = s.handle) (hm : s'.made = s.made)
    (hf : s'.frees (.handle x) = s.frees (.handle x)) (hr : s'.handles = s.handles) :
    s.HandleHeld s' x :=
  ⟨by rw [hh], by rw [hh], by rw [hm], hf, by rw [hr]⟩

theorem Rt.HandleHeld.trans {a : Rt} (h₁ : s.HandleHeld a x) (h₂ : a.HandleHeld s' x) :
    s.HandleHeld s' x :=
  ⟨h₂.cancelRequested.trans h₁.cancelRequested, h₂.released.trans h₁.released,
    h₂.made.trans h₁.made, h₂.frees.trans h₁.frees, h₂.registered.trans h₁.registered⟩

theorem Rt.HandleHeld.usable (h : s.HandleHeld s' x) (hx : s.Usable x) : s'.Usable x :=
  ⟨⟨h.made.trans hx.1.1, h.frees.trans hx.1.2⟩, h.released.trans hx.2⟩

theorem HandleShift.held (hm : HandleShift s s') (hr : (s.handle x).released = false) :
    s.HandleHeld s' x := by
  cases hm with
  | complete y u hy =>
      by_cases hxy : x = y
      · subst hxy
        exact ⟨by simp [Rt.completeHandle, Rt.modHandle], by simp [Rt.completeHandle, Rt.modHandle],
          rfl, rfl, Iff.rfl⟩
      · have heq : (s.completeHandle y (s.handle y).cancelRequested).handle x = s.handle x :=
          Function.update_of_ne hxy _ _
        exact ⟨by rw [heq], by rw [heq], rfl, rfl, Iff.rfl⟩
  | wakeJoin y u => exact .of_eq rfl rfl rfl rfl
  | drop y hy hc hrel =>
      have hxy : x ≠ y := by
        rintro rfl
        simp [hrel] at hr
      exact ⟨rfl, rfl, rfl, Function.update_of_ne (by simpa using hxy) _ _,
        List.mem_erase_of_ne hxy⟩

theorem HandleShifts.held (hm : HandleShifts s s') (hr : (s.handle x).released = false) :
    s.HandleHeld s' x := by
  induction hm with
  | refl => exact .of_eq rfl rfl rfl rfl
  | tail _ hm ih => exact ih.trans (hm.held (ih.released.trans hr))

theorem held_reap (s : Rt) (t : TaskId) (x : HandleId) : s.HandleHeld (s.reap t) x := by
  unfold Rt.reap
  split
  · exact .of_eq rfl rfl (by simp) rfl
  · exact .of_eq rfl rfl (by simp) rfl

/-- A cancellation of a ready task leaves its handle completed. -/
theorem Buries.completed (hb : Buries t s s') (h : s.Inv) (ht : (s.task t).state = .dead)
    (hth : (s.task t).handle = some x) (hx : x ∈ s.handles)
    (hr : (s.handle x).released = false) :
    s.HandleHeld s' x ∧ (s'.handle x).completed = true := by
  obtain @⟨a, hm, -, -, hset⟩ := hb
  have hheld := HandleShifts.held hm hr
  have htask : a.task t = s.task t := HandleShifts.task_eq hm h (by simp [ht])
  refine ⟨hheld.trans (held_reap a t x), ?_⟩
  rw [reap_handle]
  exact (hset x (htask ▸ hth) (hheld.registered.mpr hx)).1

/-- What a cancellation does, by the state it finds the task in. -/
theorem Cancels.by_state (hc : Cancels t s s') (h : s.Inv) :
    ((s.task t).state = .running ∧ s' = s) ∨
    ((s.task t).state = .ready ∧ Buries t (s.killReady t) s') ∨
    ((s.task t).state ≠ .ready ∧ (s.task t).state ≠ .running ∧ (s'.task t).state = .ready ∧
      s'.allTasks = s.allTasks ∧ ∀ x, s'.handle = s.handle ∧ s.HandleHeld s' x) := by
  cases hc with
  | nothing hs => exact .inl ⟨hs, rfl⟩
  | destroy ht hs hb => exact .inr (.inl ⟨hs, hb⟩)
  | sleep items ht hs =>
      exact .inr (.inr ⟨by simp [hs], by simp [hs], by simp [Rt.wakeSleep], rfl,
        fun x => ⟨rfl, .of_eq rfl rfl rfl rfl⟩⟩)
  | chan r ht hr =>
      have hs := (Task.chanRef_of_slot (h.mem_waitq ht).2 hr).1
      exact .inr (.inr ⟨by simp [hs], by simp [hs], by simp [Rt.cancelChan], rfl,
        fun x => ⟨rfl, .of_eq rfl rfl rfl rfl⟩⟩)
  | select items ht hs =>
      exact .inr (.inr ⟨by simp [hs], by simp [hs], by simp [Rt.wakeSelect], rfl,
        fun x => ⟨rfl, .of_eq rfl rfl (by simp [Rt.wakeSelect, Rt.dropWaiters]) rfl⟩⟩)
  | fd w items hw ha htask =>
      have hs := (h.fd.owner w hw).2.2.2.mp ha
      rw [htask] at hs
      exact .inr (.inr ⟨by simp [hs], by simp [hs], by simp [Rt.wakeFd, htask], rfl,
        fun x => ⟨rfl, .of_eq rfl rfl rfl rfl⟩⟩)
  | join y ht =>
      have hs := (Task.joinWaitingOn_of_slot (h.mem_waitq ht).2).1
      exact .inr (.inr ⟨by simp [hs], by simp [hs], by simp [Rt.cancelJoin], rfl,
        fun x => ⟨rfl, .of_eq rfl rfl rfl rfl⟩⟩)

/-- A request that is already there changes nothing. -/
theorem requested_of (hreq : (s.handle x).cancelRequested = true) : s.requested x = s := by
  have hupd : Function.update s.handle x { s.handle x with cancelRequested := true } = s.handle := by
    rw [show ({ s.handle x with cancelRequested := true } : Handle) = s.handle x by rw [← hreq]]
    exact Function.update_eq_self x s.handle
  unfold Rt.requested Rt.modHandle
  rw [hupd]

theorem reported_reported (s : Rt) (x : HandleId) : (s.reported x).reported x = s.reported x := by
  simp [Rt.reported, Rt.requested, Rt.modHandle]

/-- The call on a completed handle only sets the request. -/
theorem taskCancel_of_completed (hx : s.Usable x) (hc : (s.handle x).completed = true)
    (hreq : (s.handle x).cancelRequested = true) : s.taskCancel x = (.ok, s) := by
  unfold Rt.taskCancel
  simp only [derefHandle_eq hx.1.2]
  have heq : (s.modHandle x fun k => { k with cancelRequested := true }) = s := requested_of hreq
  rw [heq, if_pos hc]

/-- Two calls in a row leave the state that the first leaves, and both succeed. -/
def Rt.CancelsOnce (s : Rt) (x : HandleId) : Prop :=
  (s.taskCancel x).1 = .ok ∧ (s.taskCancel x).2.taskCancel x = (.ok, (s.taskCancel x).2)

/-- The second call, when the first has left `a` and the handle is not completed there. -/
theorem Rt.Rest.cancelled_again {a : Rt} (h : a.Rest) (hx : a.Usable x)
    (htask : (a.handle x).task = some t) (hc : (a.handle x).completed = false) :
    (a.taskCancel x).1 = .ok ∧ Cancels t (a.reported x) (a.taskCancel x).2 := by
  obtain ⟨hrc, hcall⟩ := h.inv.taskCancel h.noDead hx
  refine ⟨hrc, ?_⟩
  generalize (a.taskCancel x).2 = b at hcall
  cases hcall with
  | late hc' => simp [hc] at hc'
  | wake u _ _ _ hu hcancel =>
      obtain rfl : t = u := Option.some.inj (htask.symm.trans hu)
      exact hcancel

theorem reported_handle (s : Rt) (x : HandleId) : (s.reported x).handle x =
    { s.handle x with cancelRequested := true, status := .cancelled } := by
  simp [Rt.reported, Rt.requested, Rt.modHandle]

theorem Rt.Usable.reported (hx : s.Usable x) : (s.reported x).Usable x :=
  ⟨hx.1, by rw [reported_handle]; exact hx.2⟩

/-- The first call on a completed handle sets the request, the second finds it set. -/
theorem cancelsOnce_completed (hx : s.Usable x) (hc : (s.handle x).completed = true) :
    s.CancelsOnce x := by
  have hfirst : s.taskCancel x = (.ok, s.requested x) := by
    unfold Rt.taskCancel
    simp only [derefHandle_eq hx.1.2]
    exact if_pos (by simpa [Rt.modHandle] using hc)
  unfold CancelsOnce
  rw [hfirst]
  refine ⟨rfl, taskCancel_of_completed ⟨hx.1, ?_⟩ ?_ ?_⟩
  · simpa [Rt.requested, Rt.modHandle] using hx.2
  · simpa [Rt.requested, Rt.modHandle] using hc
  · simp [Rt.requested, Rt.modHandle]

/-- A running task is left as it is, by both calls. -/
theorem Rt.Rest.cancelsOnce_running (h : s.Rest) (hx : s.Usable x)
    (htask : (s.handle x).task = some t) (hs : (s.task t).state = .running) :
    s.CancelsOnce x := by
  have hcomp := h.inv.not_completed hx htask
  have hi := Shifts.inv (reported_shifts hcomp) h.inv
  obtain ⟨hrc, hfirst⟩ := h.cancelled_again hx htask hcomp
  have heq : (s.taskCancel x).2 = s.reported x := by
    rcases hfirst.by_state hi with ⟨-, heq⟩ | ⟨hr, -⟩ | ⟨-, hr, -⟩
    · exact heq
    · exact absurd (hs.symm.trans hr) (by decide)
    · exact absurd hs hr
  obtain ⟨hrc', hsecond⟩ := Rest.cancelled_again (Shifts.rest (reported_shifts hcomp) h).1
    hx.reported (by rw [reported_handle]; exact htask) (by rw [reported_handle]; exact hcomp)
  rw [reported_reported] at hsecond
  have heq' : ((s.reported x).taskCancel x).2 = s.reported x := by
    rcases hsecond.by_state hi with ⟨-, heq⟩ | ⟨hr, -⟩ | ⟨-, hr, -⟩
    · exact heq
    · exact absurd (hs.symm.trans hr) (by decide)
    · exact absurd hs hr
  unfold CancelsOnce
  rw [heq]
  exact ⟨hrc, Prod.ext hrc' heq'⟩

/-- A ready task is destroyed by the first call; the second finds its handle completed. -/
theorem Rt.Rest.cancelsOnce_ready (h : s.Rest) (hx : s.Usable x)
    (htask : (s.handle x).task = some t) (hs : (s.task t).state = .ready) :
    s.CancelsOnce x := by
  have hcomp := h.inv.not_completed hx htask
  have hi := Shifts.inv (reported_shifts hcomp) h.inv
  obtain ⟨hmem, u, hu, hxu, hux⟩ := h.inv.usable_task hx hcomp
  obtain rfl : t = u := Option.some.inj (htask.symm.trans hxu)
  obtain ⟨hrc, hfirst⟩ := h.cancelled_again hx htask hcomp
  obtain ⟨hr, -⟩ | ⟨-, hb⟩ | ⟨hr, -⟩ := hfirst.by_state hi
  · exact absurd (hs.symm.trans hr) (by decide)
  · obtain ⟨hheld, hdone⟩ := hb.completed (hi.killReady hu hs)
      (by simp [Rt.killReady]) (by simp [Rt.killReady]; exact hux) hmem hx.reported.2
    refine ⟨hrc, taskCancel_of_completed (hheld.usable hx.reported) hdone ?_⟩
    rw [hheld.cancelRequested]
    exact congrArg Handle.cancelRequested (reported_handle s x)
  · exact absurd hs hr

/-- A parked task is woken by the first call and destroyed by the second. -/
theorem Rt.Rest.not_cancelsOnce (h : s.Rest) (hx : s.Usable x)
    (htask : (s.handle x).task = some t) (hs : ¬(s.task t).awake) : ¬s.CancelsOnce x := by
  rintro ⟨-, hagain⟩
  have hcomp := h.inv.not_completed hx htask
  have hi := Shifts.inv (reported_shifts hcomp) h.inv
  obtain ⟨-, u, hu, hxu, -⟩ := h.inv.usable_task hx hcomp
  obtain rfl : t = u := Option.some.inj (htask.symm.trans hxu)
  obtain ⟨-, hfirst⟩ := h.cancelled_again hx htask hcomp
  have hrest := (hfirst.rest (Shifts.rest (reported_shifts hcomp) h).1).1
  obtain ⟨hr, -⟩ | ⟨hr, -⟩ | ⟨-, -, hready, hall, hkept⟩ := hfirst.by_state hi
  · exact hs (.inr hr)
  · exact hs (.inl hr)
  · obtain ⟨hhandle, hheld⟩ := hkept x
    have hrec := (congrFun hhandle x).trans (reported_handle s x)
    have hcomp' : ((s.taskCancel x).2.handle x).completed = false := by rw [hrec]; exact hcomp
    obtain ⟨-, hsecond⟩ := hrest.cancelled_again (hheld.usable hx.reported)
      (by rw [hrec]; exact htask) hcomp'
    rw [hagain] at hsecond
    have hi' := Shifts.inv (reported_shifts hcomp') hrest.inv
    obtain ⟨hr, -⟩ | ⟨-, hb⟩ | ⟨hr, -⟩ := hsecond.by_state hi'
    · exact absurd (hready.symm.trans hr) (by decide)
    · have hgone := (hb.mem (hi'.killReady (hall ▸ hu) hready) (u := t)).mp (hall ▸ hu)
      exact hgone.1 rfl
    · exact hr hready

namespace Sys

/-- In every reachable state two cancellations of a handle in a row do what one does, exactly
when the handle's task, if there is one left, is not parked. -/
theorem cancel_idempotent_iff {s : Sys} (h : machine.Reach Sys.Contract s) (x : HandleId)
    (hx : s.rt.Usable x) :
    s.rt.CancelsOnce x ↔ ∀ t ∈ (s.rt.handle x).task, (s.rt.task t).awake := by
  have hrest := (ok_of_reach (fun _ _ hc => hc) h).rest
  constructor
  · intro honce t ht
    by_contra hnot
    exact hrest.not_cancelsOnce hx ht hnot honce
  · intro hawake
    cases htask : (s.rt.handle x).task with
    | some t =>
        rcases hawake t htask with hready | hrun
        · exact hrest.cancelsOnce_ready hx htask hready
        · exact hrest.cancelsOnce_running hx htask hrun
    | none =>
        have hdone : (s.rt.handle x).completed = true := by
          by_contra hc
          obtain ⟨-, t, -, ht, -⟩ := hrest.inv.usable_task hx (by simpa using hc)
          simp [ht] at htask
        exact cancelsOnce_completed hx hdone

/-- A task that has not been started. -/
theorem cancel_idempotent_iff_ready : ∃ s, machine.Reach Sys.Contract s ∧ s.rt.Usable 0 ∧
    (s.rt.task 1).state = .ready ∧ s.rt.CancelsOnce 0 := by
  obtain ⟨s, hs, hp⟩ := reach_of_promised .poll (invoke (.ext 0) (.go true 0 true))
    (fun s => decide (s.rt.Usable 0) && (s.rt.handle 0).task == some 1 &&
      (s.rt.task 1).state == .ready) (by decide +kernel)
  simp only [Bool.and_eq_true, beq_iff_eq, decide_eq_true_eq] at hp
  obtain ⟨⟨husable, htask⟩, hready⟩ := hp
  refine ⟨s, hs, husable, hready, (cancel_idempotent_iff hs 0 husable).mpr ?_⟩
  intro t ht
  obtain rfl : 1 = t := Option.some.inj (htask.symm.trans ht)
  exact .inl hready

/-- A receiver parked on a channel: one call queues it with its cancellation result, the second
destroys it. -/
theorem second_cancel_destroys : ∃ s, machine.Reach Sys.Contract s ∧ s.rt.Usable 0 ∧
    (s.rt.task 1).state = .waitingChan ∧
    (s.rt.taskCancel 0).2.runq.items = [1] ∧
    ((s.rt.taskCancel 0).2.task 1).chanResult = .cancelled ∧
    ((s.rt.taskCancel 0).2.taskCancel 0).2.runq.items = [] ∧
    ((s.rt.taskCancel 0).2.taskCancel 0).2.frees (.task 1) = 1 ∧ ¬s.rt.CancelsOnce 0 := by
  obtain ⟨s, hs, hp⟩ := reach_of_promised .poll receiverTrace
    (fun s => decide (s.rt.Usable 0) && (s.rt.task 1).state == .waitingChan &&
      (s.rt.taskCancel 0).2.runq.items == [1] &&
      ((s.rt.taskCancel 0).2.task 1).chanResult == .cancelled &&
      ((s.rt.taskCancel 0).2.taskCancel 0).2.runq.items == [] &&
      ((s.rt.taskCancel 0).2.taskCancel 0).2.frees (.task 1) == 1) (by decide +kernel)
  simp only [Bool.and_eq_true, beq_iff_eq, decide_eq_true_eq] at hp
  obtain ⟨⟨⟨⟨⟨husable, hwait⟩, hqueued⟩, hres⟩, hgone⟩, hfreed⟩ := hp
  refine ⟨s, hs, husable, hwait, hqueued, hres, hgone, hfreed, ?_⟩
  rintro ⟨-, hagain⟩
  rw [hagain, hqueued] at hgone
  cases hgone

end Sys

end Microthread
