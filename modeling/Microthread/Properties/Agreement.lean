import Microthread.Invariant.Channel
import Microthread.System.Step

/-!
# Blocking and nonblocking channel operations

A send and a try-send of the same value in the same state differ only where both
find that nobody can take it, and in the name under which the history records the
sender. The history decides nothing, so a completion may be moved past a change of
it (`withLog`). Receives are recorded alike, and there the two states are equal.
-/

namespace Microthread

open Foundation

namespace Rt

variable (s : Rt) (log : List Event)

/-- The same runtime with another history. -/
def withLog : Rt := { s with log := log }

/-- The runtimes differ in their history at most. -/
def SameButLog (s s' : Rt) : Prop := s' = s.withLog s'.log

theorem timerRemove_withLog (t : TaskId) :
    (s.withLog log).timerRemove t = ((s.timerRemove t).1, (s.timerRemove t).2.withLog log) := by
  simp only [timerRemove, withLog]
  cases s.timers.items.idxOf? t with
  | none => rfl
  | some i => rfl

theorem selectWaitqRemove_withLog (r : SelectqRef) (w : WaiterId) :
    (s.withLog log).selectWaitqRemove r w =
      ((s.selectWaitqRemove r w).1, (s.selectWaitqRemove r w).2.withLog log) := by
  unfold selectWaitqRemove
  rw [show (s.withLog log).selectq r = s.selectq r from rfl]
  rcases (s.selectq r).remove w with ⟨removed, q⟩
  cases removed with
  | false => rfl
  | true => rfl

theorem selectRemoveWaiterFromChannel_withLog (w : WaiterId) :
    (s.withLog log).selectRemoveWaiterFromChannel w = ((s.selectRemoveWaiterFromChannel w).1,
      (s.selectRemoveWaiterFromChannel w).2.withLog log) := by
  unfold selectRemoveWaiterFromChannel
  rw [show (s.withLog log).selw w = s.selw w from rfl]
  by_cases ha : (s.selw w).active = true
  · simp only [if_pos ha]
    cases (s.selw w).op with
    | send => exact s.selectWaitqRemove_withLog log _ w
    | recv => exact s.selectWaitqRemove_withLog log _ w
    | default => rfl
    | timeout => rfl
    | unknown => rfl
  · simp only [if_neg ha]

theorem selectFreeWaiter_withLog (w : WaiterId) :
    (s.withLog log).selectFreeWaiter w = (s.selectFreeWaiter w).withLog log := by
  unfold selectFreeWaiter
  rw [show (s.withLog log).selw w = s.selw w from rfl, selectRemoveWaiterFromChannel_withLog]
  by_cases ha : (s.selw w).active = true
  · simp only [if_pos ha]
    rfl
  · simp only [if_neg ha]
    rfl

theorem foldl_selectFreeWaiter_withLog (ws : List WaiterId) :
    ws.foldl selectFreeWaiter (s.withLog log) = (ws.foldl selectFreeWaiter s).withLog log := by
  induction ws generalizing s with
  | nil => rfl
  | cons w ws ih =>
      rw [List.foldl_cons, List.foldl_cons, selectFreeWaiter_withLog]
      exact ih (s.selectFreeWaiter w)

theorem selectFreeTaskWaiters_withLog (t : TaskId) :
    (s.withLog log).selectFreeTaskWaiters t = (s.selectFreeTaskWaiters t).withLog log := by
  unfold selectFreeTaskWaiters
  rw [show (s.withLog log).task t = s.task t from rfl, foldl_selectFreeWaiter_withLog]
  rfl

theorem taskCompleteSelectWait_withLog (t : TaskId) :
    (s.withLog log).taskCompleteSelectWait t = (s.taskCompleteSelectWait t).withLog log := by
  unfold taskCompleteSelectWait
  rw [show (s.withLog log).task t = s.task t from rfl]
  by_cases hc : (s.task t).selectCountedWaiting = true
  · simp only [if_pos hc]
    rfl
  · simp only [if_neg hc]

theorem selectUnparkTask_withLog (t : TaskId) (rc : Rc) (index : Nat) :
    (s.withLog log).selectUnparkTask t rc index = (s.selectUnparkTask t rc index).withLog log := by
  unfold selectUnparkTask
  rw [show (s.withLog log).task t = s.task t from rfl, timerRemove_withLog]
  by_cases hc : (s.task t).selectInTimer = true
  · simp only [if_pos hc]
    rw [show ((s.timerRemove t).2.withLog log).modTask t (fun k => { k with selectInTimer := false })
        = ((s.timerRemove t).2.modTask t fun k => { k with selectInTimer := false }).withLog log
      from rfl, selectFreeTaskWaiters_withLog, taskCompleteSelectWait_withLog]
    rfl
  · simp only [if_neg hc]
    rw [selectFreeTaskWaiters_withLog, taskCompleteSelectWait_withLog]
    rfl

/-- Completing a waiter appends one entry to whatever the history is. -/
theorem selectCompleteWaiter_withLog (w : WaiterId) (rc : Rc) :
    ∃ log', (s.withLog log).selectCompleteWaiter w rc =
      (s.selectCompleteWaiter w rc).withLog log' := by
  let e : Event := .done (s.task (s.selw w).task).call (s.selw w).role rc
  refine ⟨log ++ [e], ?_⟩
  have h := selectUnparkTask_withLog
    ((s.record e).modSelw w fun x => { x with active := false }) (log ++ [e]) (s.selw w).task rc
    (s.selw w).index
  exact h

/-- The name of the sender is all that the kind of a send decides. -/
theorem chanSendNow_kind (c : CallId) (kind kind' : SendKind) (ch : ChanId) (value : Addr) :
    ∃ log, s.chanSendNow c kind' ch value =
      (s.chanSendNow c kind ch value).map fun p => (p.1, p.2.withLog log) := by
  unfold chanSendNow
  simp only
  by_cases hc : (s.chan ch).closed = true
  · simp only [if_pos hc]
    exact ⟨s.log, rfl⟩
  simp only [if_neg hc]
  cases s.chanWaitqPop (.receivers ch) with
  | some p => exact ⟨_, rfl⟩
  | none =>
      cases s.selectWaitqPop (.receivers ch) with
      | some p =>
          obtain ⟨w, a⟩ := p
          let b := a.writeMem (a.selw w).value (a.readMem value (s.chan ch).elemSize)
          let e : SendKind → Event := fun k => .handoff ch c k value (a.task (a.selw w).task).call
            (a.selw w).value (a.readMem value (s.chan ch).elemSize)
          obtain ⟨log, h⟩ := selectCompleteWaiter_withLog (b.record (e kind)) (b.log ++ [e kind']) w .ok
          refine ⟨log, ?_⟩
          exact congrArg (fun x => some (Rc.ok, x)) h
      | none =>
          by_cases hb : (decide ((s.chan ch).capacity > 0) &&
              decide ((s.chan ch).len < (s.chan ch).capacity)) = true
          · simp only [if_pos hb]
            exact ⟨_, rfl⟩
          · simp only [if_neg hb]
            exact ⟨s.log, rfl⟩

theorem chanSendNow_rc (c : CallId) (kind : SendKind) (ch : ChanId) (value : Addr) (p : Rc × Rt)
    (h : s.chanSendNow c kind ch value = some p) : p.1 ≠ .wouldBlock := by
  unfold chanSendNow at h
  simp only at h
  split at h
  · obtain rfl := Option.some.inj h
    simp
  split at h
  · obtain rfl := Option.some.inj h
    simp
  split at h
  · obtain rfl := Option.some.inj h
    simp
  split at h
  · obtain rfl := Option.some.inj h
    simp
  · cases h

theorem chanRecvNow_rc (c : CallId) (ch : ChanId) (out : Addr) (p : Rc × Rt)
    (h : s.chanRecvNow c ch out = some p) : p.1 ≠ .wouldBlock := by
  unfold chanRecvNow at h
  simp only at h
  split at h
  · obtain rfl := Option.some.inj h
    simp
  split at h
  · split at h
    · obtain rfl := Option.some.inj h
      simp
    · obtain rfl := Option.some.inj h
      simp
  split at h
  · split at h
    · obtain rfl := Option.some.inj h
      simp
    · obtain rfl := Option.some.inj h
      simp
  split at h
  · obtain rfl := Option.some.inj h
    simp
  · cases h

/-! ## Where the operations agree and where they part -/

variable (cur : Option TaskId) (c : CallId) (ch : ChanId) (a : Addr)

theorem chanSend_of_trySend (h : (s.chanTrySend c .nonblocking ch a).1 ≠ .wouldBlock) :
    ∃ s', s.chanSend cur c ch a = (.ret (s.chanTrySend c .nonblocking ch a).1, s') ∧
      SameButLog (s.chanTrySend c .nonblocking ch a).2 s' := by
  obtain ⟨log, hkind⟩ := s.chanSendNow_kind c .nonblocking .plain ch a
  rw [chanTrySend_eq] at h ⊢
  rw [chanSend_eq, hkind]
  cases hn : s.chanSendNow c .nonblocking ch a with
  | some p => exact ⟨p.2.withLog log, rfl, rfl⟩
  | none =>
      rw [hn] at h
      exact absurd rfl h

theorem chanSend_of_wouldBlock (h : (s.chanTrySend c .nonblocking ch a).1 = .wouldBlock) :
    (s.chanTrySend c .nonblocking ch a).2 = s ∧ s.chanSend none c ch a = (.ret .state, s) ∧
      ∀ t, s.chanSend (some t) c ch a = (.park, s.parkChan t ch .send a) := by
  obtain ⟨log, hkind⟩ := s.chanSendNow_kind c .nonblocking .plain ch a
  have hnone : s.chanSendNow c .nonblocking ch a = none := by
    rw [chanTrySend_eq] at h
    cases hn : s.chanSendNow c .nonblocking ch a with
    | none => rfl
    | some p =>
        rw [hn] at h
        exact absurd h (s.chanSendNow_rc c .nonblocking ch a p hn)
  rw [hnone] at hkind
  refine ⟨?_, ?_, fun t => ?_⟩
  · rw [chanTrySend_eq, hnone, Option.getD_none]
  · rw [chanSend_eq, hkind]
    rfl
  · rw [chanSend_eq, hkind]
    rfl

theorem chanRecv_of_tryRecv (h : (s.chanTryRecv c ch a).1 ≠ .wouldBlock) :
    s.chanRecv cur c ch a = (.ret (s.chanTryRecv c ch a).1, (s.chanTryRecv c ch a).2) := by
  rw [chanTryRecv_eq] at h ⊢
  rw [chanRecv_eq]
  cases hn : s.chanRecvNow c ch a with
  | some p => rfl
  | none =>
      rw [hn] at h
      exact absurd rfl h

theorem chanRecv_of_wouldBlock (h : (s.chanTryRecv c ch a).1 = .wouldBlock) :
    (s.chanTryRecv c ch a).2 = s ∧ s.chanRecv none c ch a = (.ret .state, s) ∧
      ∀ t, s.chanRecv (some t) c ch a = (.park, s.parkChan t ch .recv a) := by
  have hnone : s.chanRecvNow c ch a = none := by
    rw [chanTryRecv_eq] at h
    cases hn : s.chanRecvNow c ch a with
    | none => rfl
    | some p =>
        rw [hn] at h
        exact absurd h (s.chanRecvNow_rc c ch a p hn)
  refine ⟨?_, ?_, fun t => ?_⟩
  · rw [chanTryRecv_eq, hnone, Option.getD_none]
  · rw [chanRecv_eq, hnone]
  · rw [chanRecv_eq, hnone]

end Rt

/-- A blocking operation does what its nonblocking twin does whenever that one is not
refused with `MT_ERR_WOULD_BLOCK`, which leaves everything as it is; there the blocking one
appends the calling task to the queue of its direction, or fails outside a task. Null
arguments are refused alike. -/
theorem blocking_agrees_with_nonblocking (s : Rt) (c : CallId) (ch : ChanId) (a : Addr) :
    ((s.chanTrySend c .nonblocking ch a).1 ≠ .wouldBlock → ∀ cur, ∃ s',
        s.chanSend cur c ch a = (.ret (s.chanTrySend c .nonblocking ch a).1, s') ∧
          Rt.SameButLog (s.chanTrySend c .nonblocking ch a).2 s') ∧
    ((s.chanTrySend c .nonblocking ch a).1 = .wouldBlock →
        (s.chanTrySend c .nonblocking ch a).2 = s ∧
        s.chanSend none c ch a = (.ret .state, s) ∧
        ∀ t, s.chanSend (some t) c ch a = (.park, s.parkChan t ch .send a) ∧
          ((s.parkChan t ch .send a).waitq (.senders ch)).items =
            (s.waitq (.senders ch)).items ++ [t]) ∧
    ((s.chanTryRecv c ch a).1 ≠ .wouldBlock → ∀ cur,
        s.chanRecv cur c ch a = (.ret (s.chanTryRecv c ch a).1, (s.chanTryRecv c ch a).2)) ∧
    ((s.chanTryRecv c ch a).1 = .wouldBlock →
        (s.chanTryRecv c ch a).2 = s ∧
        s.chanRecv none c ch a = (.ret .state, s) ∧
        ∀ t, s.chanRecv (some t) c ch a = (.park, s.parkChan t ch .recv a) ∧
          ((s.parkChan t ch .recv a).waitq (.receivers ch)).items =
            (s.waitq (.receivers ch)).items ++ [t]) ∧
    (∀ (y : Sys) (b : Actor) (env : Env) (x : Option ChanId) (v : Option Addr),
        x = none ∨ v = none →
        y.callApi b c env (.chanSend x v) = y.callApi b c env (.chanTrySend x v) ∧
        y.callApi b c env (.chanRecv x v) = y.callApi b c env (.chanTryRecv x v)) := by
  refine ⟨fun h cur => s.chanSend_of_trySend cur c ch a h, fun h => ?_,
    fun h cur => s.chanRecv_of_tryRecv cur c ch a h, fun h => ?_, ?_⟩
  · obtain ⟨hs, hext, htask⟩ := s.chanSend_of_wouldBlock c ch a h
    refine ⟨hs, hext, fun t => ⟨htask t, ?_⟩⟩
    simp [Rt.parkChan, Rt.chanQueue, Queue.push]
  · obtain ⟨hs, hext, htask⟩ := s.chanRecv_of_wouldBlock c ch a h
    refine ⟨hs, hext, fun t => ⟨htask t, ?_⟩⟩
    simp [Rt.parkChan, Rt.chanQueue, Queue.push]
  · intro y b env x v hnull
    cases x with
    | none => exact ⟨rfl, rfl⟩
    | some ch =>
        obtain rfl : v = none := hnull.resolve_left (by simp)
        exact ⟨rfl, rfl⟩

end Microthread
