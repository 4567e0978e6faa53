import Microthread.Model.FdWait

/-!
# Tasks and handles

`task.c` and the task registry of `runtime.c`. An operation answers either with
a code, after releasing the lock, or with `park`: the calling task has entered a
wait structure and switches to its scheduler with the lock held.
-/

namespace Microthread

/-- `MT_DEFAULT_STACK_SIZE` and `MT_MIN_STACK_SIZE` -/
def defaultStackSizeBytes : Nat := 64 * 1024
def minStackSizeBytes : Nat := 16 * 1024

/-- How a locked section of an API call ends. -/
inductive Outcome where
  | ret (rc : Rc)
  | park
  deriving DecidableEq, Repr

namespace Rt

variable (s : Rt)

def taskRegister (t : TaskId) : Rt := { s with allTasks := t :: s.allTasks }

def taskUnregister (t : TaskId) : Rt := { s with allTasks := s.allTasks.erase t }

def taskDestroy (t : TaskId) : Rt :=
  let s := s.selectFreeTaskWaiters t
  let s := match (s.task t).fdWaiter with
    | some w => ((s.fdWaiterRemove w).2.fdFreeWaiter w).modTask t fun k =>
        { k with fdWaiter := none, fdInTimer := false }
    | none => s
  (s.taskUnregister t).free (.task t)

/-- `mt_stack_alloc` as far as the scheduler sees it: the size check, the
mapping and its guard page. -/
def stackAlloc (requestedSize : Nat) : Rc × Rt :=
  let size := if requestedSize = 0 then defaultStackSizeBytes else requestedSize
  if size < minStackSizeBytes then (.invalid, s)
  else
    match s.ask with
    | (false, s) => (.nomem, s)
    | (true, s) =>
      match s.ask with
      | (false, s) => (.err, s)
      | (true, s) => (.ok, s)

/-- Undo the creation of a handle whose task could not be made. -/
def discardHandle (h : Option HandleId) : Rt :=
  match h with
  | none => s
  | some h => (s.modHandle h fun k => { k with task := none, released := true }).handleFreeIfPossible h

/-- `next_id++` on a 32-bit `int`. -/
def bumpId (i : Int) : Int := Int.bmod (i + 1) (2 ^ 32)

/-- Everything after the handle has been made. -/
def createTaskFor (stackSize : Nat) (h : Option HandleId) : Int × Option HandleId × Rt :=
  match s.ask with
  | (false, s) => (Rc.nomem.toInt, none, s.discardHandle h)
  | (true, s) =>
    let (t, s) := s.alloc .task
    match s.stackAlloc (if stackSize ≠ 0 then stackSize else s.defaultStackSize) with
    | (.ok, s) =>
      let id := s.nextId
      let s := { s with nextId := bumpId id }
      let s := s.modTask t fun _ => { id := id, state := .ready, handle := h }
      let s := match h with
        | some h => s.modHandle h fun k => { k with task := some t }
        | none => s
      match s.ask with
      | (false, s) => (Rc.err.toInt, none, (s.free (.task t)).discardHandle h)
      | (true, s) =>
        let s := (s.runqPush t).taskRegister t
        (id, h, { s with liveCount := s.liveCount + 1 })
    | (rc, s) => (rc.toInt, none, (s.free (.task t)).discardHandle h)

/-- The task's identifier or a negative code, and the handle if one was wanted. -/
def createTaskInternal (fn : Bool) (stackSize : Nat) (wantHandle : Bool) :
    Int × Option HandleId × Rt :=
  if !fn then (Rc.invalid.toInt, none, s)
  else if wantHandle then
    match s.ask with
    | (false, s) => (Rc.nomem.toInt, none, s)
    | (true, s) =>
      let (h, s) := s.alloc .handle
      let s := (s.modHandle h fun _ => { status := .ready, joinResult := .ok }).handleRegister h
      s.createTaskFor stackSize (some h)
  else s.createTaskFor stackSize none

/-- `mt_join` by the current task `cur`, if there is one. -/
def join (cur : Option TaskId) (h : HandleId) : Outcome × Rt :=
  let s := s.derefHandle h
  if (s.handle h).completed then (.ret (s.handle h).joinResult, s)
  else
    match cur with
    | none => (.ret .state, s)
    | some t =>
      if (s.handle h).task = some t then (.ret .state, s)
      else (.park, (s.taskBlockOnJoin t h).chanWaitqPush (.joiners h) t)

/-! ## Cancellation -/

/-- `mt_chan_remove_waiter` of `scheduler.c` -/
def chanRemoveWaiter (t : TaskId) : Bool × Rt :=
  match (s.task t).chanWaitCh with
  | none => (false, s)
  | some ch =>
    let (removed, s) := match (s.task t).chanWaitKind with
      | .send => s.waitqRemove (.senders ch) t
      | .recv => s.waitqRemove (.receivers ch) t
      | .none => (false, s)
    let s := if removed then s.decChannelWaiting else s
    (removed, s.taskClearChannelWait t)

def taskWakeForCancel (t : TaskId) : Rt :=
  match (s.task t).state with
  | .ready =>
    match s.runqRemove t with
    | (true, s) =>
      let s := s.taskMarkDead t
      let s := { s with liveCount := s.liveCount - 1 }.guarded s.liveCount
      let s := { s with completedCount := s.completedCount + 1 }
      let s := match (s.task t).handle with
        | some h => s.handleComplete h true
        | none => s
      s.taskDestroy t
    | (false, s) => s
  | .sleeping =>
    match s.timerRemove t with
    | (true, s) => s.taskMarkReady t
    | (false, s) => s
  | .waitingChan =>
    match s.chanRemoveWaiter t with
    | (true, s) => s.taskCompleteChannelWait t .cancelled
    | (false, s) => s
  | .waitingSelect =>
    (s.record (.done (s.task t).call .neither .cancelled)).selectUnparkTask t .cancelled
      (s.task t).selectIndex
  | .waitingFd =>
    match (s.task t).fdWaiter with
    | some w => s.fdReadyWaiter w .cancelled 0
    | none => s
  | .waitingJoin =>
    match s.handleRemoveJoiner (s.task t).joinWaitingOn t with
    | (true, s) => s.taskCompleteJoinWait t .cancelled
    | (false, s) => s
  | .running | .dead => s

def taskCancel (h : HandleId) : Rc × Rt :=
  let s := (s.derefHandle h).modHandle h fun k => { k with cancelRequested := true }
  if (s.handle h).completed then (.ok, s)
  else
    let s := s.modHandle h fun k => { k with status := .cancelled }
    match (s.handle h).task with
    | some t => (.ok, s.taskWakeForCancel t)
    | none => (.ok, s)

def statusFromTask : TaskState → TaskStatus
  | .ready => .ready
  | .running => .running
  | .sleeping => .sleeping
  | .waitingChan => .waitingChan
  | .waitingSelect => .waitingSelect
  | .waitingFd => .waitingFd
  | .waitingJoin => .waitingJoin
  | .dead => .done

/-- `mt_task_status`: the reported status, and the handle has been followed. -/
def taskStatus (h : HandleId) : TaskStatus × Rt :=
  let s := s.derefHandle h
  if (s.handle h).completed then ((s.handle h).status, s)
  else if (s.handle h).cancelRequested then (.cancelled, s)
  else
    match (s.handle h).task with
    | some t => (statusFromTask (s.task t).state, s)
    | none => ((s.handle h).status, s)

def taskHandleRelease (h : HandleId) : Rt :=
  ((s.derefHandle h).modHandle h fun k => { k with released := true }).handleFreeIfPossible h

/-- `mt_task_cancelled` for the current task. -/
def taskCancelled (t : TaskId) : Bool × Rt :=
  match (s.task t).handle with
  | some h => ((s.handle h).cancelRequested, s.derefHandle h)
  | none => (false, s)

end Rt

end Microthread
