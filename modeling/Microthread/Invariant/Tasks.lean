import Microthread.Invariant.Select

/-!
# The task and handle sections

Creation, join, cancellation, release, and what follows a switch to the
scheduler, as sequences of elementary changes. A registered handle has not been
freed, so following a pointer to it leaves no mark.
-/

namespace Microthread

open Foundation

namespace Rt

variable {s s' : Rt} {t : TaskId} {x : HandleId}

/-! ## Handles -/

theorem derefHandle_eq (hf : s.frees (.handle x) = 0) : s.derefHandle x = s := by
  simp [derefHandle, hf]

theorem foldl_derefHandle {hs : List HandleId} (hlive : ∀ y ∈ hs, s.frees (.handle y) = 0) :
    hs.foldl derefHandle s = s := by
  induction hs with
  | nil => rfl
  | cons y ys ih =>
      rw [List.foldl_cons, derefHandle_eq (hlive y List.mem_cons_self)]
      exact ih fun z hz => hlive z (List.mem_cons_of_mem y hz)

theorem handleUnregister_eq (hlive : ∀ y ∈ s.handles, s.frees (.handle y) = 0) :
    s.handleUnregister x = { s with handles := s.handles.erase x } := by
  rw [handleUnregister]
  have hfold : (s.handles.takeWhile (· ≠ x)).foldl derefHandle s = s :=
    foldl_derefHandle fun y hy => hlive y ((List.takeWhile_sublist _).subset hy)
  simp only [hfold]

theorem handleFreeIfPossible_eq (hf : s.frees (.handle x) = 0)
    (hlive : ∀ y ∈ s.handles, s.frees (.handle y) = 0) :
    s.handleFreeIfPossible x =
      if !(s.handle x).released || (s.handle x).task.isSome || (s.waitq (.joiners x)).count != 0
      then s else s.dropHandle x := by
  simp only [handleFreeIfPossible, derefHandle_eq hf, handleUnregister_eq hlive]
  rfl

theorem HandleInv.frees_eq_zero (h : s.HandleInv) : ∀ y ∈ s.handles, s.frees (.handle y) = 0 :=
  fun y hy => (h.live y hy).2

/-- The joiners of a completed handle are woken in the order they came. -/
theorem Inv.handleWakeJoiners (h : s.Inv) (hx : x ∈ s.handles)
    (hc : (s.handle x).completed = true) (fuel : Nat)
    (hfuel : (s.waitq (.joiners x)).items.length ≤ fuel) :
    HandleShifts s (handleWakeJoiners x (s.handle x).joinResult fuel s) ∧
      ((handleWakeJoiners x (s.handle x).joinResult fuel s).waitq (.joiners x)).items = [] ∧
      (handleWakeJoiners x (s.handle x).joinResult fuel s).handle = s.handle ∧
      (handleWakeJoiners x (s.handle x).joinResult fuel s).handles = s.handles := by
  induction fuel generalizing s with
  | zero => exact ⟨.refl, List.length_eq_zero_iff.mp (Nat.le_zero.mp hfuel), rfl, rfl⟩
  | succ fuel ih =>
      cases hp : s.chanWaitqPop (.joiners x) with
      | none =>
          have heq : Rt.handleWakeJoiners x (s.handle x).joinResult (fuel + 1) s = s := by
            simp only [Rt.handleWakeJoiners, hp]
          rw [heq]
          exact ⟨.refl, chanWaitqPop_eq_none.mp hp, rfl, rfl⟩
      | some p =>
          obtain ⟨t, a⟩ := p
          obtain ⟨hhead, rfl⟩ := chanWaitqPop_eq_some hp
          have ht := List.mem_of_head? hhead
          have hm : HandleShift s (s.wakeJoin x t (s.handle x).joinResult) := .wakeJoin x t hx hc hhead
          have hlen : ((s.wakeJoin x t (s.handle x).joinResult).waitq
              (.joiners x)).items.length ≤ fuel := by
            simp only [Rt.wakeJoin, Function.update_self, Queue.remove_of_mem ht,
              List.length_erase_of_mem ht]
            omega
          obtain ⟨h1, h2, h3, h4⟩ := ih (hm.shift.inv h) hx hc hlen
          simp only [Rt.handleWakeJoiners, hp, taskCompleteJoinWait_unlinkTask]
          exact ⟨.head hm h1, h2, h3, h4⟩

/-- Completing the handle of a dead task settles it. -/
theorem Inv.handleComplete (h : s.Inv) (hx : x ∈ s.handles) (ht : t ∈ s.allTasks)
    (hdead : (s.task t).state = .dead) (hxt : (s.handle x).task = some t)
    (hth : (s.task t).handle = some x) :
    HandleShifts s (s.handleComplete x (s.handle x).cancelRequested) ∧
      Settled (s.handleComplete x (s.handle x).cancelRequested) t := by
  have hnc : (s.handle x).completed = false := by
    by_contra hc
    have := (h.handle.completed x hx).mp (by simpa using hc)
    rw [hxt] at this
    cases this
  set c := (s.handle x).cancelRequested with hcdef
  have hm : HandleShift s (s.completeHandle x c) := .complete x t hx ht hdead hxt
  have hinv := hm.shift.inv h
  have hres : ((s.completeHandle x c).handle x).joinResult = if c then .cancelled else .ok := by
    simp [Rt.completeHandle, Rt.modHandle]
  have hcomp : ((s.completeHandle x c).handle x).completed = true := by
    simp [Rt.completeHandle, Rt.modHandle]
  have hnone : ((s.completeHandle x c).handle x).task = none := by
    simp [Rt.completeHandle, Rt.modHandle]
  obtain ⟨h1, h2, h3, h4⟩ := hinv.handleWakeJoiners hx hcomp
    ((s.completeHandle x c).waitq (.joiners x)).items.length (le_refl _)
  rw [hres] at h1 h2 h3 h4
  unfold Rt.handleComplete
  rw [derefHandle_eq (h.handle.frees_eq_zero x hx)]
  simp only [hnc, Bool.false_eq_true, if_false]
  set a := Rt.handleWakeJoiners x (if c then .cancelled else .ok)
    ((s.completeHandle x c).waitq (.joiners x)).items.length (s.completeHandle x c) with ha
  have haeq : Rt.handleWakeJoiners x (if c then .cancelled else .ok)
      ((s.modHandle x fun k => { k with
        completed := true, task := none, joinResult := if c then .cancelled else .ok
        status := if c then .cancelled else .done }).waitq (.joiners x)).items.length
      (s.modHandle x fun k => { k with
        completed := true, task := none, joinResult := if c then .cancelled else .ok
        status := if c then .cancelled else .done }) = a := rfl
  rw [haeq]
  have hshift : HandleShifts s a := .head hm h1
  have hainv := Shifts.inv (HandleShifts.shifts hshift) h
  have hxa : x ∈ a.handles := by
    rw [h4]
    exact hx
  have hath : (a.task t).handle = some x := by
    rw [Moves.task_eq (Shifts.moves (HandleShifts.shifts hshift)) h ht (.inr (.inr hdead))]
    exact hth
  have hcount : (a.waitq (.joiners x)).count = 0 := by
    rw [hainv.task.waitqExact, h2]
    rfl
  rw [handleFreeIfPossible_eq (hainv.handle.frees_eq_zero x hxa) hainv.handle.frees_eq_zero, h3,
    hcount, hnone]
  have hrel : ((s.completeHandle x c).handle x).released = (a.handle x).released := by rw [h3]
  cases hr : (a.handle x).released with
  | true =>
      simp only [hrel, hr, Bool.not_true, Option.isSome_none, bne_self_eq_false, Bool.or_self,
        Bool.false_eq_true, if_false]
      have hdrop : HandleShift a (a.dropHandle x) := .drop x hxa (by rw [h3]; exact hcomp) hr h2
      refine ⟨hshift.tail hdrop, fun y hy hmem => ?_⟩
      -- the handle is no longer registered, so nothing is left to settle
      have : y = x := Option.some.inj (hy.symm.trans hath)
      subst this
      exact absurd hmem (List.Nodup.not_mem_erase hainv.handle.nodup)
  | false =>
      simp only [hrel, hr, Bool.not_false, Bool.true_or, if_true]
      refine ⟨hshift, fun y hy _ => ?_⟩
      have : y = x := Option.some.inj (hy.symm.trans hath)
      subst this
      exact ⟨by rw [h3]; exact hcomp, h2, hr⟩

/-! ## Destruction -/

theorem fdWaiterRemove_of_inactive {w : FdWaiterId} (hw : (s.fdw w).state ≠ .active) :
    s.fdWaiterRemove w = (false, { s with
      fdw := Function.update s.fdw w { s.fdw w with state := .removed }
      fdWaiters := s.fdWaiters.erase w }) := by
  have hact : s.fdWaiterIsActive w = false := by simpa [fdWaiterIsActive] using hw
  simp [fdWaiterRemove, fdWaiterDeactivate, hact, modFdw, fdWaiterUnlink]

/-- Removing a waiter that is gone already only frees it. -/
theorem fdFreeWaiter_of_removed {w : FdWaiterId} (hw : (s.fdw w).state = .removed)
    (hmem : w ∉ s.fdWaiters) : s.fdFreeWaiter w = s.free (.fdWaiter w) := by
  have hself : Function.update s.fdw w { s.fdw w with state := .removed } = s.fdw :=
    Function.update_eq_self_iff.mpr (by rw [← hw])
  rw [fdFreeWaiter, fdWaiterRemove_of_inactive (by simp [hw]), hself,
    List.erase_of_not_mem hmem]

/-- Destroying a dead task. -/
theorem Inv.taskDestroy (h : s.Inv) (ht : t ∈ s.allTasks) (hdead : (s.task t).state = .dead) :
    s.taskDestroy t = s.reap t := by
  have hidle := h.select.idle t ht (by simp [hdead]) (by simp [hdead])
  have hfree : s.selectFreeTaskWaiters t = s.modTask t fun k =>
      { k with selectWaiters := [], selectWaiterCount := 0 } := by
    rw [selectFreeTaskWaiters_eq h.select.exact (fun w hw => h.select.droppable ht hw)
      (h.select.nodup t ht), hidle, dropWaiters_nil h.select.exact]
  unfold Rt.taskDestroy Rt.reap
  rw [hfree]
  cases hfd : (s.task t).fdWaiter with
  | none =>
      have hnone : ((s.modTask t fun k => { k with selectWaiters := [], selectWaiterCount := 0 }).task
        t).fdWaiter = none := by simp [modTask, hfd]
      simp only [hnone]
      rfl
  | some w =>
      have hsome : ((s.modTask t fun k => { k with selectWaiters := [], selectWaiterCount := 0 }).task
        t).fdWaiter = some w := by simp [modTask, hfd]
      have hw := (h.fd.linked t ht w hfd).1
      have hwt := (h.fd.linked t ht w hfd).2
      have hinactive : (s.fdw w).state ≠ .active := by
        intro ha
        have := (h.fd.owner w hw).2.2.2.mp ha
        rw [hwt, hdead] at this
        cases this
      simp only [hsome]
      rw [fdWaiterRemove_of_inactive (s := s.modTask t _) hinactive, fdFreeWaiter_of_removed]
      · simp [modTask, free, taskUnregister]
      · simp
      · exact h.fd.nodup.not_mem_erase

/-- A dead task goes, after its handle has been completed. -/
theorem Inv.bury (h : s.Inv) (ht : t ∈ s.allTasks) (hdead : (s.task t).state = .dead)
    (hlinked : ∀ x, (s.task t).handle = some x → x ∈ s.handles ∧ (s.handle x).task = some t) :
    Buries t s ((match (s.task t).handle with
      | some x => s.handleComplete x (s.handle x).cancelRequested
      | none => s).taskDestroy t) := by
  cases hth : (s.task t).handle with
  | none =>
      rw [h.taskDestroy ht hdead]
      exact .mk .refl ht hdead fun x hx => by rw [hth] at hx; cases hx
  | some x =>
      obtain ⟨hx, hxt⟩ := hlinked x hth
      obtain ⟨hshift, hset⟩ := h.handleComplete hx ht hdead hxt hth
      have hm := Shifts.moves (HandleShifts.shifts hshift)
      have ht' : t ∈ (s.handleComplete x (s.handle x).cancelRequested).allTasks := by
        rwa [Moves.allTasks_eq hm]
      have hdead' : ((s.handleComplete x (s.handle x).cancelRequested).task t).state = .dead := by
        rwa [Moves.task_eq hm h ht (.inr (.inr hdead))]
      rw [(Shifts.inv (HandleShifts.shifts hshift) h).taskDestroy ht' hdead']
      exact .mk hshift ht' hdead' hset

/-! ## Cancellation -/

/-- A ready task taken out of the run queue is dead. -/
theorem Inv.runqRemove (h : s.Inv) (ht : t ∈ s.allTasks) (hs : (s.task t).state = .ready) :
    s.runqRemove t = (true, { s with runq := (s.runq.remove t).2 }.guarded s.runq.count) := by
  have hmem : t ∈ s.runq.items := (h.task.placed.mem .runq t).mpr ⟨ht, by simp [Task.slot, hs]⟩
  simp only [Rt.runqRemove, Queue.remove_of_mem hmem]
  rfl

theorem chanRemoveWaiter_cancel {r : WaitqRef} (hr : (s.task t).chanRef = some r)
    (ht : t ∈ (s.waitq r).items) :
    ∃ a, s.chanRemoveWaiter t = (true, a) ∧
      a.taskCompleteChannelWait t .cancelled = s.cancelChan r t := by
  refine ⟨(s.unlinkTask r t).decChannelWaiting.taskClearChannelWait t, ?_, ?_⟩
  · unfold Task.chanRef at hr
    unfold chanRemoveWaiter
    split at hr
    · next hk hc =>
        cases hr
        simp only [hc, hk, waitqRemove_of_mem ht, if_true]
    · next hk hc =>
        cases hr
        simp only [hc, hk, waitqRemove_of_mem ht, if_true]
    · cases hr
  · simp [taskCompleteChannelWait, taskClearChannelWait, decChannelWaiting, unlinkTask,
      taskMarkReady, runqPush, modTask, guarded, record, setWaitq, Rt.cancelChan, Task.chanRole]

theorem Inv.handleRemoveJoiner (h : s.Inv) (hx : x ∈ s.handles)
    (ht : t ∈ (s.waitq (.joiners x)).items) :
    ∃ a, s.handleRemoveJoiner (some x) t = (true, a) ∧
      a.taskCompleteJoinWait t .cancelled = s.cancelJoin x t := by
  refine ⟨(s.unlinkTask (.joiners x) t).decJoinWaiting.modTask t fun k =>
    { k with joinWaitingOn := none }, ?_, ?_⟩
  · unfold Rt.handleRemoveJoiner
    simp only [derefHandle_eq (h.handle.frees_eq_zero x hx), waitqRemove_of_mem ht]
  · simp [taskCompleteJoinWait, decJoinWaiting, unlinkTask, taskMarkReady, runqPush, modTask,
      guarded, record, setWaitq, Rt.cancelJoin]

theorem Task.chan?_of_chanRef {k : Task} {r : WaitqRef} (h : k.chanRef = some r) :
    r.chan? ≠ none := by
  unfold Task.chanRef at h
  split at h
  · cases h
    simp [WaitqRef.chan?]
  · cases h
    simp [WaitqRef.chan?]
  · cases h

/-- The wake of a cancellation, for a task whose handle carries the request. -/
theorem Inv.taskWakeForCancel (h : s.Inv) (ht : t ∈ s.allTasks) (hdead : (s.task t).state ≠ .dead)
    (hreq : ∀ x, (s.task t).handle = some x → (s.handle x).cancelRequested = true) :
    Cancels t s (s.taskWakeForCancel t) := by
  unfold Rt.taskWakeForCancel
  cases hs : (s.task t).state with
  | ready =>
      have hth : ((s.killReady t).task t).handle = (s.task t).handle := by simp [Rt.killReady]
      have hlinked := h.handle.linked t ht (by simp [hs])
      have hb := (h.killReady ht hs).bury ht (by simp [Rt.killReady]) fun x hx => hlinked x (hth ▸ hx)
      rw [hth] at hb
      rw [h.runqRemove ht hs]
      refine .destroy ht hs ?_
      change Buries t (s.killReady t) ((match ((s.killReady t).task t).handle with
        | some x => (s.killReady t).handleComplete x true
        | none => s.killReady t).taskDestroy t)
      rw [hth]
      cases hh : (s.task t).handle with
      | none =>
          rw [hh] at hb
          exact hb
      | some x =>
          rw [hh] at hb
          have hx : ((s.killReady t).handle x).cancelRequested = true := hreq x hh
          simp only [hx] at hb
          exact hb
  | sleeping =>
      have hmem : t ∈ s.timers.items :=
        (h.task.placed.mem .timers t).mpr ⟨ht, by simp [Task.slot, hs]⟩
      obtain ⟨items, hp, heq⟩ := timerRemove_of_mem hmem
      simp only [heq]
      exact taskMarkReady_wakeSleep s t items ▸ .sleep items ht hs hp
  | waitingChan =>
      obtain ⟨r, hr, hmem⟩ := h.mem_chanRef ht hs
      obtain ⟨a, h1, h2⟩ := chanRemoveWaiter_cancel hr hmem
      simp only [h1, h2]
      exact .chan r hmem (Task.chan?_of_chanRef hr)
  | waitingSelect =>
      obtain ⟨items, hp, heq⟩ := h.selectUnparkTask ht hs .neither .cancelled (s.task t).selectIndex
      simp only [heq]
      exact .select items ht hs hp
  | waitingFd =>
      obtain ⟨w, hfd⟩ := Option.ne_none_iff_exists'.mp (h.fd.waiting t ht hs).2
      obtain ⟨hw, howner⟩ := h.fd.linked t ht w hfd
      have ha : (s.fdw w).state = .active := (h.fd.owner w hw).2.2.2.mpr (by rw [howner, hs])
      obtain ⟨items, hp, heq⟩ := h.fdReadyWaiter hw ha .cancelled 0
      simp only [hfd, heq]
      exact .fd w items hw ha howner (howner ▸ hp)
  | waitingJoin =>
      obtain ⟨x, hx, hmem⟩ := h.mem_joinRef ht hs
      obtain ⟨a, h1, h2⟩ := h.handleRemoveJoiner (h.handle.joinRegistered t ht x hs hx) hmem
      simp only [hx, h1, h2]
      exact .join x hmem
  | running => exact .nothing hs
  | dead => exact absurd hs hdead

/-- The handle may still be used by its owner. -/
def Usable (s : Rt) (x : HandleId) : Prop := s.Live (.handle x) ∧ (s.handle x).released = false

instance (s : Rt) (x : HandleId) : Decidable (s.Usable x) := inferInstanceAs (Decidable (_ ∧ _))

/-- A usable handle that is not completed is registered and has its task. -/
theorem Inv.usable_task (h : s.Inv) (hx : s.Usable x) (hc : (s.handle x).completed = false) :
    x ∈ s.handles ∧ ∃ t ∈ s.allTasks, (s.handle x).task = some t ∧ (s.task t).handle = some x := by
  have hmem : x ∈ s.handles := by
    by_contra hmem
    have := (h.handle.gone x hx.1.1 hmem).2.2 hx.2
    rw [hc] at this
    cases this
  refine ⟨hmem, ?_⟩
  cases ht : (s.handle x).task with
  | none =>
      have := (h.handle.completed x hmem).mpr ht
      rw [hc] at this
      cases this
  | some t =>
      obtain ⟨h1, h2⟩ := h.handle.back x hmem t ht
      exact ⟨t, h1, rfl, h2⟩

/-- Nobody waits on a handle that is not registered. -/
theorem Inv.joiners_eq_nil (h : s.Inv) (hx : x ∉ s.handles) :
    (s.waitq (.joiners x)).items = [] := by
  by_contra hne
  obtain ⟨t, ht⟩ := List.exists_mem_of_ne_nil _ hne
  obtain ⟨hall, hslot⟩ := h.mem_waitq ht
  obtain ⟨hs, hj⟩ := Task.joinWaitingOn_of_slot hslot
  exact hx (h.handle.joinRegistered t hall x hs hj)

/-- The request flag of a handle is set. -/
def requested (s : Rt) (x : HandleId) : Rt :=
  s.modHandle x fun k => { k with cancelRequested := true }

/-- The request is reported by the handle. -/
def reported (s : Rt) (x : HandleId) : Rt :=
  (s.requested x).modHandle x fun k => { k with status := .cancelled }

/-- What `mt_task_cancel` does. -/
inductive CancelCall (s : Rt) (x : HandleId) : Rt → Prop where
  | late : (s.handle x).completed = true → CancelCall s x (s.requested x)
  | wake (t a) : x ∈ s.handles → (s.handle x).completed = false → (s.handle x).task = some t →
      Cancels t (s.reported x) a → CancelCall s x a

theorem reported_shifts (hc : (s.handle x).completed = false) : Shifts s (s.reported x) :=
  .tail (.single (.request x)) (.status x .cancelled (by simp [Rt.modHandle, hc]))

theorem Inv.taskCancel (h : s.Inv) (hnd : ∀ u, ¬s.Dead u) (hx : s.Usable x) :
    (s.taskCancel x).1 = .ok ∧ CancelCall s x (s.taskCancel x).2 := by
  unfold Rt.taskCancel
  simp only [derefHandle_eq hx.1.2]
  have hcomp : ((s.modHandle x fun k => { k with cancelRequested := true }).handle x).completed =
      (s.handle x).completed := by simp [Rt.modHandle]
  rw [hcomp]
  cases hc : (s.handle x).completed with
  | true => exact ⟨rfl, .late hc⟩
  | false =>
      obtain ⟨hmem, t, ht, hxt, hth⟩ := h.usable_task hx hc
      have htask : ((s.reported x).handle x).task = some t := by
        simp [reported, requested, Rt.modHandle, hxt]
      have hreq : ((s.reported x).handle x).cancelRequested = true := by
        simp [reported, requested, Rt.modHandle]
      simp only [Bool.false_eq_true, if_false]
      split
      case h_2 hnone => exact absurd (hnone.symm.trans htask) (by simp)
      case h_1 u hu =>
      obtain rfl : u = t := Option.some.inj (hu.symm.trans htask)
      refine ⟨rfl, .wake u _ hmem hc hxt ?_⟩
      refine (Shifts.inv (reported_shifts hc) h).taskWakeForCancel ht (fun hd => hnd u ⟨ht, hd⟩) ?_
      intro y hy
      rwa [Option.some.inj (hy.symm.trans hth)]

/-! ## Release and join -/

theorem Inv.taskHandleRelease (h : s.Inv) (hnd : ∀ u, ¬s.Dead u) (hx : s.Usable x) :
    Releases x s (s.taskHandleRelease x) := by
  set a := s.modHandle x fun k => { k with released := true } with ha
  have hrel : (a.handle x).released = true := by simp [ha, Rt.modHandle]
  have htask : (a.handle x).task = (s.handle x).task := by simp [ha, Rt.modHandle]
  unfold Rt.taskHandleRelease
  rw [derefHandle_eq hx.1.2, handleFreeIfPossible_eq (s := s.modHandle x _) hx.1.2
    h.handle.frees_eq_zero]
  simp only [← ha, hrel, htask]
  cases hc : (s.handle x).completed with
  | false =>
      obtain ⟨hmem, t, ht, hxt, hth⟩ := h.usable_task hx hc
      simp only [hxt, Option.isSome_some, Bool.or_true, Bool.true_or, if_true]
      exact .kept hmem hc
  | true =>
      have hnone : (s.handle x).task = none := by
        by_cases hmem : x ∈ s.handles
        · exact (h.handle.completed x hmem).mp hc
        · exact (h.handle.gone x hx.1.1 hmem).1
      have hj : (s.waitq (.joiners x)).items = [] := by
        by_cases hmem : x ∈ s.handles
        · refine (h.handle.settled x hmem hc ?_).1
          rintro ⟨u, hu, hd, -⟩
          exact hnd u ⟨hu, hd⟩
        · exact h.joiners_eq_nil hmem
      have hcount : (a.waitq (.joiners x)).count = 0 := by
        change (s.waitq (.joiners x)).count = 0
        rw [h.task.waitqExact, hj]
        rfl
      simp only [hnone, hcount, Bool.not_true, Option.isSome_none, bne_self_eq_false, Bool.or_self,
        Bool.false_eq_true, if_false]
      exact .freed hx.1 hx.2 hc hnone hj

theorem Inv.join (h : s.Inv) (hx : s.Usable x) (cur : Option TaskId) :
    match s.join cur x with
    | (.ret rc, s') => s' = s ∧
        (((s.handle x).completed = true ∧ rc = (s.handle x).joinResult) ∨ rc = .state)
    | (.park, s') => ∃ t, cur = some t ∧ x ∈ s.handles ∧ (s.handle x).completed = false ∧
        s' = s.parkJoin t x := by
  unfold Rt.join
  simp only [derefHandle_eq hx.1.2]
  cases hc : (s.handle x).completed with
  | true => exact ⟨rfl, .inl ⟨rfl, rfl⟩⟩
  | false =>
      simp only [Bool.false_eq_true, if_false]
      cases cur with
      | none => exact ⟨rfl, .inr rfl⟩
      | some t =>
          simp only
          by_cases hself : (s.handle x).task = some t
          · rw [if_pos hself]
            exact ⟨rfl, .inr rfl⟩
          · rw [if_neg hself]
            exact ⟨t, rfl, (h.usable_task hx hc).1, trivial, rfl⟩

/-! ## Creation -/

theorem stackAlloc_eq (s : Rt) (n : Nat) :
    ∃ rc tape, s.stackAlloc n = (rc, { s with tape := tape }) := by
  unfold stackAlloc
  simp only
  by_cases hlt : (if n = 0 then defaultStackSizeBytes else n) < minStackSizeBytes
  · rw [if_pos hlt]
    exact ⟨_, s.tape, rfl⟩
  · rw [if_neg hlt]
    obtain ⟨ok, tape, h⟩ := s.ask_eq
    rw [h]
    cases ok with
    | false => exact ⟨_, tape, rfl⟩
    | true =>
        obtain ⟨ok, tape', h'⟩ := ({ s with tape := tape } : Rt).ask_eq
        simp only
        rw [h']
        cases ok with
        | false => exact ⟨_, tape', rfl⟩
        | true => exact ⟨_, tape', rfl⟩

/-- How a creation ends: with a registered object, or with what was allocated freed. -/
inductive Created (s : Rt) : Rt → Prop where
  | no (a) : Wastes s a → Created s a
  | task (tape) : Created s { s with tape := tape }.spawn
  | handle (tape) : Created s { s with tape := tape }.spawnHandle
  | chan (tape elemSize capacity) : Created s ({ s with tape := tape }.newChan elemSize capacity)

/-- What a creation of a task answers: a negative code if nothing is registered, and otherwise
the identifier of the task, with its handle if one is wanted. -/
inductive Made (s : Rt) (wantHandle : Bool) : Int × Option HandleId × Rt → Prop where
  | no (id a) : id < 0 → Wastes s a → (a.nextId = s.nextId ∨ a.nextId = bumpId s.nextId) →
      Made s wantHandle (id, none, a)
  | task (tape) : wantHandle = false →
      Made s wantHandle (s.nextId, none, { s with tape := tape }.spawn)
  | handle (tape) : wantHandle = true →
      Made s wantHandle (s.nextId, some s.nextAddr, { s with tape := tape }.spawnHandle)

theorem Made.created {wantHandle : Bool} {r : Int × Option HandleId × Rt}
    (hm : Made s wantHandle r) : Created s r.2.2 := by
  cases hm with
  | no id a _ hs => exact .no a hs
  | task tape => exact .task tape
  | handle tape => exact .handle tape

theorem Rc.toInt_neg {rc : Rc} (h : rc ≠ .ok) : rc.toInt < 0 := by
  cases rc with
  | ok => exact absurd rfl h
  | _ => decide

theorem createTaskFor_none (s : Rt) (stackSize : Nat) :
    Made s false (s.createTaskFor stackSize none) := by
  have hq : ∀ tape, Waste s { s with tape := tape } := fun tape => .tape tape
  unfold createTaskFor
  obtain ⟨ok, tape, h⟩ := s.ask_eq
  rw [h]
  cases ok with
  | false => exact .no _ _ (Rc.toInt_neg (by simp)) (.single (hq tape)) (.inl rfl)
  | true =>
      simp only [alloc]
      obtain ⟨rc, tape, h⟩ := stackAlloc_eq ({ ({ s with tape := tape } : Rt) with
        nextAddr := s.nextAddr + 1, made := Function.update s.made (.task s.nextAddr) true })
        (if stackSize ≠ 0 then stackSize else s.defaultStackSize)
      rw [h]
      by_cases hrc : rc = .ok
      · subst hrc
        set b : Rt := { s with
          tape := tape, nextAddr := s.nextAddr + 1
          made := Function.update s.made (.task s.nextAddr) true, nextId := bumpId s.nextId
          task := Function.update s.task s.nextAddr { id := s.nextId } } with hb
        obtain ⟨ok, tape', h'⟩ := b.ask_eq
        dsimp only
        generalize hr : Rt.ask _ = r
        obtain rfl : r = (ok, { b with tape := tape' }) := hr.symm.trans h'
        cases ok with
        | false =>
            exact .no _ _ (Rc.toInt_neg (by simp))
              (.tail (.single (hq tape')) (.task { id := s.nextId } (bumpId s.nextId))) (.inr rfl)
        | true => exact .task tape' rfl
      · cases rc
        case ok => exact absurd rfl hrc
        all_goals
          exact .no _ _ (Rc.toInt_neg (by simp))
            (.tail (.single (hq tape)) (.object .task (fun _ => rfl) (by simp))) (.inl rfl)

/-- Undoing a handle that is first in the registry. -/
theorem discardHandle_eq {hs : List HandleId} (hh : s.handles = x :: hs)
    (hlive : ∀ y ∈ s.handles, s.frees (.handle y) = 0)
    (hcount : (s.waitq (.joiners x)).count = 0) :
    s.discardHandle (some x) = { s with
      handles := hs
      handle := Function.update s.handle x { s.handle x with task := none, released := true }
      frees := Function.update s.frees (.handle x) 1 } := by
  have hx := hlive x (by simp [hh])
  simp only [discardHandle]
  rw [handleFreeIfPossible_eq (s := s.modHandle x _) hx hlive]
  simp [Rt.modHandle, hcount, Rt.dropHandle, hh, hx]

/-- The state in which a new handle waits for its task. -/
def handleMade (s : Rt) : Rt :=
  { s with
    nextAddr := s.nextAddr + 1
    made := Function.update s.made (.handle s.nextAddr) true
    handle := Function.update s.handle s.nextAddr {}
    handles := s.nextAddr :: s.handles }

/-- The state in which a task has been allocated for the new handle, with the records
`k` and `hk`. -/
def taskMade (s : Rt) (tape : List Bool) (k : Task) (id : Int) (hk : Handle) : Rt :=
  { s with
    tape := tape, nextId := id
    nextAddr := s.nextAddr + 2
    made := Function.update (Function.update s.made (.handle s.nextAddr) true)
      (.task (s.nextAddr + 1)) true
    task := Function.update s.task (s.nextAddr + 1) k
    handle := Function.update s.handle s.nextAddr hk
    handles := s.nextAddr :: s.handles }

section

variable (h : s.Inv)

include h in
theorem Inv.handle_fresh : s.frees (.handle s.nextAddr) = 0 ∧
    (s.waitq (.joiners s.nextAddr)).count = 0 := by
  refine ⟨h.heap.frees_eq_zero (le_refl _), ?_⟩
  rw [h.task.waitqExact, h.joiners_eq_nil]
  · rfl
  · exact fun hmem => h.handle_ne hmem rfl

include h in
theorem Inv.handle_live_fresh : ∀ y ∈ s.nextAddr :: s.handles, s.frees (.handle y) = 0 := by
  intro y hy
  rcases List.mem_cons.mp hy with rfl | hy
  · exact h.handle_fresh.1
  · exact h.handle.frees_eq_zero y hy

include h in
theorem Inv.discard_handleMade (tape : List Bool) :
    ({ s.handleMade with tape := tape } : Rt).discardHandle (some s.nextAddr) =
      { s with tape := tape }.wasteHandle := by
  rw [discardHandle_eq (s := { s.handleMade with tape := tape }) rfl h.handle_live_fresh
    h.handle_fresh.2]
  simp [handleMade, Rt.wasteHandle, Rt.waste, h.handle_fresh.1]

include h in
/-- The task of a new handle could not be made. -/
theorem Inv.discard_taskMade (tape : List Bool) (k : Task) (id : Int) (task : Option TaskId) :
    ((s.taskMade tape k id { task := task }).free (.task (s.nextAddr + 1))).discardHandle
      (some s.nextAddr) = { s with tape := tape }.wasteHandle.wasteTask k id := by
  have hlive : ∀ y ∈ s.nextAddr :: s.handles,
      Function.update s.frees (.task (s.nextAddr + 1)) (s.frees (.task (s.nextAddr + 1)) + 1)
        (.handle y) = 0 := by
    intro y hy
    rw [Function.update_of_ne (by simp)]
    exact h.handle_live_fresh y hy
  rw [discardHandle_eq (s := (s.taskMade tape k id { task := task }).free
    (.task (s.nextAddr + 1))) rfl hlive h.handle_fresh.2]
  simp only [free, taskMade, Rt.wasteHandle, Rt.wasteTask, Rt.waste, h.handle_fresh.1,
    Function.update_self, Function.update_idem]
  congr 1
  rw [Function.update_comm (by simp)]
  simp

include h in
theorem Inv.createTaskFor_some (stackSize : Nat) (tape₀ : List Bool) :
    Made s true (({ s.handleMade with tape := tape₀ } : Rt).createTaskFor stackSize
      (some s.nextAddr)) := by
  have hq : ∀ tape, Waste s { s with tape := tape } := fun tape => .tape tape
  -- what is left of a failed creation, and how far the counter has gone on
  let Fails : Rt → Prop := fun r =>
    Wastes s r ∧ (r.nextId = s.nextId ∨ r.nextId = bumpId s.nextId)
  have hwaste : ∀ tape k id, (id = s.nextId ∨ id = bumpId s.nextId) →
      Fails ({ s with tape := tape }.wasteHandle.wasteTask k id) := fun tape k id hid =>
    ⟨((Relation.ReflTransGen.single (hq tape)).tail .handle).tail (.task k id), hid⟩
  unfold createTaskFor
  obtain ⟨ok, tape, htape⟩ := ({ s.handleMade with tape := tape₀ } : Rt).ask_eq
  rw [htape]
  cases ok with
  | false =>
      have hfails := Eq.subst (motive := Fails) (h.discard_handleMade tape).symm
        ⟨.tail (.single (hq tape)) .handle, .inl rfl⟩
      exact .no _ _ (Rc.toInt_neg (by simp)) hfails.1 hfails.2
  | true =>
      simp only [alloc]
      generalize hst : stackAlloc _ _ = r
      obtain ⟨rc, tape, htape⟩ := stackAlloc_eq ({ s.handleMade with
        tape := tape, nextAddr := s.nextAddr + 2
        made := Function.update s.handleMade.made (.task (s.nextAddr + 1)) true })
        (if stackSize ≠ 0 then stackSize else s.defaultStackSize)
      have hself : ({ s.handleMade with
          tape := tape, nextAddr := s.nextAddr + 2
          made := Function.update s.handleMade.made (.task (s.nextAddr + 1)) true } : Rt) =
          s.taskMade tape (s.task (s.nextAddr + 1)) s.nextId {} := by
        simp [handleMade, taskMade]
      obtain rfl : r = (rc, s.taskMade tape (s.task (s.nextAddr + 1)) s.nextId {}) := by
        rw [← hst, ← hself]
        exact htape
      by_cases hrc : rc = .ok
      · subst hrc
        set b := s.taskMade tape { id := s.nextId, handle := some s.nextAddr } (bumpId s.nextId)
          { task := some (s.nextAddr + 1) } with hb
        have hbeq : ((({ s.taskMade tape (s.task (s.nextAddr + 1)) s.nextId {} with
            nextId := bumpId s.nextId } : Rt).modTask (s.nextAddr + 1) fun _ =>
              { id := s.nextId, state := .ready, handle := some s.nextAddr }).modHandle s.nextAddr
                fun k => { k with task := some (s.nextAddr + 1) }) = b := by
          simp [hb, taskMade, modTask, Rt.modHandle]
        obtain ⟨ok, tape', h'⟩ := b.ask_eq
        dsimp only
        generalize hr : Rt.ask _ = r
        obtain rfl : r = (ok, { b with tape := tape' }) :=
          hr.symm.trans ((congrArg Rt.ask hbeq).trans h')
        cases ok with
        | false =>
            have hdisc := h.discard_taskMade tape' { id := s.nextId, handle := some s.nextAddr }
              (bumpId s.nextId) (some (s.nextAddr + 1))
            have hfails := Eq.subst (motive := Fails) hdisc.symm (hwaste _ _ _ (.inr rfl))
            exact .no _ _ (Rc.toInt_neg (by simp)) hfails.1 hfails.2
        | true => exact .handle tape' rfl
      · have hdisc := h.discard_taskMade tape (s.task (s.nextAddr + 1)) s.nextId none
        have hfails := Eq.subst (motive := Fails) hdisc.symm (hwaste _ _ _ (.inl rfl))
        have hneg := Rc.toInt_neg hrc
        cases rc
        case ok => exact absurd rfl hrc
        all_goals exact .no _ _ hneg hfails.1 hfails.2

end

/-- Creating a task. -/
theorem Inv.createTaskInternal (h : s.Inv) (fn : Bool) (stackSize : Nat) (wantHandle : Bool) :
    Made s wantHandle (s.createTaskInternal fn stackSize wantHandle) := by
  unfold Rt.createTaskInternal
  cases fn with
  | false => exact .no _ s (Rc.toInt_neg (by simp)) .refl (.inl rfl)
  | true =>
      cases wantHandle with
      | false => exact s.createTaskFor_none stackSize
      | true =>
          obtain ⟨ok, tape, htape⟩ := s.ask_eq
          simp only [Bool.not_true, Bool.false_eq_true, if_false, if_true]
          rw [htape]
          cases ok with
          | false => exact .no _ _ (Rc.toInt_neg (by simp)) (.single (.tape tape)) (.inl rfl)
          | true => exact h.createTaskFor_some stackSize tape

/-- How the creation of a channel ends. -/
inductive ChanCreated (s : Rt) : Rt → Prop where
  | no (a) : Wastes s a → a.nextId = s.nextId → ChanCreated s a
  | chan (tape elemSize capacity) : ChanCreated s ({ s with tape := tape }.newChan elemSize capacity)

theorem ChanCreated.created (hc : ChanCreated s s') : Created s s' := by
  cases hc with
  | no a hs => exact .no _ hs
  | chan tape elemSize capacity => exact .chan tape elemSize capacity

theorem chanCreate_created (s : Rt) (elemSize capacity : Nat) :
    ChanCreated s (s.chanCreate elemSize capacity).2 := by
  have hq : ∀ tape, Waste s { s with tape := tape } := fun tape => .tape tape
  unfold Rt.chanCreate
  split
  · exact .no s .refl rfl
  · obtain ⟨ok, tape, htape⟩ := s.ask_eq
    rw [htape]
    cases ok with
    | false => exact .no _ (.single (hq tape)) rfl
    | true =>
        have hno : ∀ tape', ChanCreated s (({ s with tape := tape' } : Rt).waste .chan) := fun tape' =>
          .no _ (.tail (.single (hq tape')) (.object .chan (fun _ => rfl) (by simp))) rfl
        by_cases hcap : capacity > 0
        · simp only [alloc, hcap, if_true]
          obtain ⟨ok, tape', h⟩ := ({ s with
            tape := tape, nextAddr := s.nextAddr + 1
            made := Function.update s.made (.chan s.nextAddr) true } : Rt).ask_eq
          simp only [h]
          cases ok with
          | false => exact hno tape'
          | true => exact .chan tape' elemSize capacity
        · simp only [alloc, hcap, if_false]
          exact .chan tape elemSize capacity

theorem Created.inv (hc : Created s s') (h : s.Inv) : s'.Inv := by
  have hq : ∀ tape, ({ s with tape := tape } : Rt).Inv := fun tape =>
    h.congr (by constructor <;> rfl) rfl rfl rfl rfl
  cases hc with
  | no a hs => exact Shifts.inv (Wastes.shifts hs) h
  | task tape => exact (hq tape).spawn
  | handle tape => exact (hq tape).spawnHandle
  | chan tape e c => exact (hq tape).newChan e c

/-! ## Switching -/

/-- At most the reported status of one handle changes, which is not completed. -/
def Marked (s s' : Rt) : Prop :=
  s' = s ∨ ∃ x status, (s.handle x).completed = false ∧
    s' = s.modHandle x fun k => { k with status := status }

theorem Marked.shifts (hm : Marked s s') : Shifts s s' := by
  rcases hm with rfl | ⟨x, st, hc, rfl⟩
  · exact .refl
  · exact .single (.status x st hc)

theorem handleSetStatus_marked {st : TaskStatus}
    (hlive : ∀ x, (s.task t).handle = some x → s.frees (.handle x) = 0) :
    Marked s (s.handleSetStatus t st) := by
  unfold handleSetStatus
  cases hh : (s.task t).handle with
  | none => exact .inl rfl
  | some x =>
      simp only [derefHandle_eq (hlive x hh)]
      split
      · exact .inl rfl
      · next hc => exact .inr ⟨x, _, by simpa using hc, rfl⟩

theorem Inv.handle_frees (h : s.Inv) (ht : t ∈ s.allTasks) (hd : (s.task t).state ≠ .dead)
    (x : HandleId) (hx : (s.task t).handle = some x) : s.frees (.handle x) = 0 :=
  h.handle.frees_eq_zero x (h.handle.linked t ht hd x hx).1

/-- A parked task has switched to its scheduler. -/
theorem Inv.taskAfterSwitch_parked (h : s.Inv) (ht : t ∈ s.allTasks)
    (hs : (s.task t).state ≠ .ready ∧ (s.task t).state ≠ .running ∧ (s.task t).state ≠ .dead) :
    Marked s.leave (s.taskAfterSwitch t) := by
  obtain ⟨h1, h2, h3⟩ := hs
  have hlive := h.handle_frees ht h3
  unfold Rt.taskAfterSwitch
  simp only [guarded]
  cases hst : (s.task t).state with
  | ready => exact absurd hst h1
  | running => exact absurd hst h2
  | dead => exact absurd hst h3
  | _ => exact handleSetStatus_marked (s := s.leave) hlive

theorem handleSetStatus_runqPush (s : Rt) (t u : TaskId) (st : TaskStatus) :
    (s.handleSetStatus t st).runqPush u = (s.runqPush u).handleSetStatus t st := by
  have htask : (s.runqPush u).task = s.task := rfl
  unfold handleSetStatus
  rw [htask]
  cases (s.task t).handle with
  | none => rfl
  | some x =>
      change Rt.runqPush (if (s.handle x).completed = true then _ else _) u =
        if (s.handle x).completed = true then _ else _
      split <;> rfl

/-- A task that yields is appended to the run queue. -/
theorem Inv.taskAfterSwitch_yield (h : s.Inv) (ht : t ∈ s.allTasks)
    (hs : (s.task t).state = .running) :
    Marked (s.parkYield t).leave
      ((s.modTask t fun k => { k with state := .ready }).taskAfterSwitch t) := by
  have hst : ((s.modTask t fun k => { k with state := .ready }).task t).state = .ready := by
    simp [modTask]
  have hlive : ∀ x, ((s.parkYield t).leave.task t).handle = some x → s.frees (.handle x) = 0 := by
    intro x hx
    refine h.handle_frees ht (by simp [hs]) x ?_
    simpa [Rt.parkYield, Rt.leave] using hx
  unfold Rt.taskAfterSwitch
  simp only [guarded, hst]
  rw [handleSetStatus_runqPush]
  exact handleSetStatus_marked (s := (s.parkYield t).leave) hlive

/-- A task whose function has returned is buried. -/
theorem Inv.taskAfterSwitch_dead (h : s.Inv) (ht : t ∈ s.allTasks)
    (hs : (s.task t).state = .running) (hws : (s.task t).selectWaiters = []) :
    Buries t (s.leave.die t) ((s.taskMarkDead t).taskAfterSwitch t) := by
  have hlinked := h.handle.linked t ht (by simp [hs])
  have hth : ((s.leave.die t).task t).handle = (s.task t).handle := by simp [Rt.die, Rt.leave]
  have hb := (h.leave.die ht hs hws).bury ht (by simp [Rt.die]) fun x hx => hlinked x (hth ▸ hx)
  have hst : ((s.taskMarkDead t).task t).state = .dead := by simp [taskMarkDead, modTask]
  unfold Rt.taskAfterSwitch
  simp only [guarded, hst]
  exact hb

/-- The head of the run queue gets a processor. -/
theorem Inv.taskDispatch (h : s.Inv) {q : Queue TaskId} (hq : s.runq.pop = some (t, q)) :
    Marked (s.dispatch t q) (({ s with runq := q } : Rt).taskDispatch t) := by
  have hinv := h.dispatch hq
  have hitems := (Queue.pop_eq_some.mp hq).1
  obtain ⟨ht, -⟩ := (h.task.placed.mem .runq t).mp (by simp [hitems])
  exact handleSetStatus_marked (s := s.dispatch t q)
    (hinv.handle_frees ht (by simp [Rt.dispatch]))

end Rt

end Microthread
