import Microthread.Model.Queues

/-!
# Parking and waking tasks

`task_state.c`, `select_wait.c` and `join.c`. A task that leaves the processor
is entered in the structure that will wake it; the completing side fixes the
result in the task record and appends the task to the run queue. Completions
are recorded in the history at the moment the result is fixed.
-/

namespace Microthread

/-- What the wait the task is in is to the channel it waits on. -/
def Task.chanRole (k : Task) : Role :=
  match k.chanWaitKind, k.chanWaitCh with
  | .send, some ch => .send ch
  | .recv, some ch => .recv ch
  | _, _ => .neither

/-- The queue a select waiter is linked in. -/
def SelectWaiter.ref (x : SelectWaiter) : SelectqRef :=
  if x.op = .send then .senders x.ch else .receivers x.ch

/-- What the case of a select waiter is to its channel. -/
def SelectWaiter.role (x : SelectWaiter) : Role :=
  if x.op = .send then .send x.ch else .recv x.ch

namespace Rt

variable (s : Rt)

/-! ## `task_state.c` -/

def taskMarkReady (t : TaskId) : Rt :=
  (s.modTask t fun k => { k with state := .ready }).runqPush t

def taskMarkRunning (t : TaskId) : Rt := s.modTask t fun k => { k with state := .running }

def taskMarkDead (t : TaskId) : Rt := s.modTask t fun k => { k with state := .dead }

def decChannelWaiting : Rt :=
  { s with channelWaitingCount := s.channelWaitingCount - 1 }.guarded s.channelWaitingCount

def decJoinWaiting : Rt :=
  { s with joinWaitingCount := s.joinWaitingCount - 1 }.guarded s.joinWaitingCount

def taskBlockOnChannel (t : TaskId) (ch : ChanId) (kind : ChanWaitKind) (value : Addr) : Rt :=
  let s := s.modTask t fun k =>
    { k with chanWaitKind := kind, chanWaitCh := some ch, chanValue := some value,
             chanResult := .ok, state := .waitingChan }
  { s with channelWaitingCount := s.channelWaitingCount + 1 }

def taskCompleteChannelWait (t : TaskId) (result : Rc) : Rt :=
  let s := s.record (.done (s.task t).call (s.task t).chanRole result)
  let s := s.modTask t fun k =>
    { k with chanResult := result, chanWaitKind := .none, chanWaitCh := none, chanValue := none }
  s.decChannelWaiting.taskMarkReady t

def taskClearChannelWait (t : TaskId) : Rt :=
  s.modTask t fun k => { k with chanWaitKind := .none, chanWaitCh := none, chanValue := none }

def taskBlockOnSelect (t : TaskId) : Rt :=
  let s := s.modTask t fun k => { k with state := .waitingSelect }
  if (s.task t).selectCountedWaiting then s
  else
    { s with channelWaitingCount := s.channelWaitingCount + 1 }.modTask t fun k =>
      { k with selectCountedWaiting := true }

def taskCompleteSelectWait (t : TaskId) : Rt :=
  if (s.task t).selectCountedWaiting then
    s.decChannelWaiting.modTask t fun k => { k with selectCountedWaiting := false }
  else s

def taskBlockOnJoin (t : TaskId) (h : HandleId) : Rt :=
  let s := s.modTask t fun k =>
    { k with joinWaitingOn := some h, joinResult := .ok, state := .waitingJoin }
  { s with joinWaitingCount := s.joinWaitingCount + 1 }

def taskCompleteJoinWait (t : TaskId) (result : Rc) : Rt :=
  let s := s.record (.done (s.task t).call .neither result)
  let s := s.modTask t fun k => { k with joinResult := result, joinWaitingOn := none }
  s.decJoinWaiting.taskMarkReady t

/-! ## `select_wait.c` -/

def selectRemoveWaiterFromChannel (w : WaiterId) : Bool × Rt :=
  if (s.selw w).active then
    match (s.selw w).op with
    | .send => s.selectWaitqRemove (.senders (s.selw w).ch) w
    | .recv => s.selectWaitqRemove (.receivers (s.selw w).ch) w
    | _ => (false, s)
  else (false, s)

/-- One iteration of the loop of `mt_select_free_task_waiters`. -/
def selectFreeWaiter (w : WaiterId) : Rt :=
  (if (s.selw w).active then (s.selectRemoveWaiterFromChannel w).2 else s).free (.selectWaiter w)

def selectFreeTaskWaiters (t : TaskId) : Rt :=
  ((s.task t).selectWaiters.foldl selectFreeWaiter s).modTask t fun k =>
    { k with selectWaiters := [], selectWaiterCount := 0 }

def selectUnparkTask (t : TaskId) (result : Rc) (index : Nat) : Rt :=
  let s := if (s.task t).selectInTimer then
      (s.timerRemove t).2.modTask t fun k => { k with selectInTimer := false }
    else s
  let s := (s.selectFreeTaskWaiters t).taskCompleteSelectWait t
  (s.modTask t fun k => { k with selectResult := result, selectIndex := index }).taskMarkReady t

def selectCompleteWaiter (w : WaiterId) (result : Rc) : Rt :=
  let x := s.selw w
  let s := s.record (.done (s.task x.task).call x.role result)
  (s.modSelw w fun x => { x with active := false }).selectUnparkTask x.task result x.index

def selectTimeoutReady (t : TaskId) : Rt :=
  let s := s.record (.done (s.task t).call .neither .ok)
  let s := s.modTask t fun k => { k with selectInTimer := false }
  let s := (s.selectFreeTaskWaiters t).taskCompleteSelectWait t
  (s.modTask t fun k => { k with selectResult := .ok }).taskMarkReady t

/-! ## Handles: `join.c` and the registry of `runtime.c` -/

def handleRegister (h : HandleId) : Rt := { s with handles := h :: s.handles }

/-- The walk follows the registry link of every handle before `h`. -/
def handleUnregister (h : HandleId) : Rt :=
  let s := (s.handles.takeWhile (· ≠ h)).foldl derefHandle s
  { s with handles := s.handles.erase h }

def handleFreeIfPossible (h : HandleId) : Rt :=
  let s := s.derefHandle h
  if !(s.handle h).released || (s.handle h).task.isSome || (s.waitq (.joiners h)).count != 0 then s
  else (s.handleUnregister h).free (.handle h)

/-- The loop of `mt_handle_complete`; every iteration pops one joiner. -/
def handleWakeJoiners (h : HandleId) (result : Rc) : Nat → Rt → Rt
  | 0, s => s
  | fuel + 1, s =>
    match s.chanWaitqPop (.joiners h) with
    | none => s
    | some (t, s) => handleWakeJoiners h result fuel (s.taskCompleteJoinWait t result)

def handleComplete (h : HandleId) (cancelled : Bool) : Rt :=
  let s := s.derefHandle h
  if (s.handle h).completed then s
  else
    let result := if cancelled then .cancelled else .ok
    let s := s.modHandle h fun k =>
      { k with completed := true, task := none, joinResult := result,
               status := if cancelled then .cancelled else .done }
    (handleWakeJoiners h result (s.waitq (.joiners h)).items.length s).handleFreeIfPossible h

def handleRemoveJoiner (h : Option HandleId) (t : TaskId) : Bool × Rt :=
  match h with
  | none => (false, s)
  | some h =>
    match (s.derefHandle h).waitqRemove (.joiners h) t with
    | (true, s) => (true, s.decJoinWaiting.modTask t fun k => { k with joinWaitingOn := none })
    | (false, s) => (false, s)

end Rt

end Microthread
