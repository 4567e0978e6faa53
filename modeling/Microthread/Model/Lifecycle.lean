import Microthread.Model.Channel
import Microthread.Model.Io

/-!
# Switching, timer expiry, initialisation and shutdown

The straight-line parts of `scheduler.c` and `runtime_lifecycle.c`; the worker
loop that strings them together is part of the system model.
-/

namespace Microthread

open Foundation

namespace Rt

variable (s : Rt)

/-! ## `scheduler.c` -/

/-- The status update a handle gets at every switch, unless it is completed. -/
def handleSetStatus (t : TaskId) (status : TaskStatus) : Rt :=
  match (s.task t).handle with
  | none => s
  | some h =>
    let s := s.derefHandle h
    if (s.handle h).completed then s
    else s.modHandle h fun k =>
      { k with status := if k.cancelRequested then .cancelled else status }

def taskAfterSwitch (t : TaskId) : Rt :=
  let s := { s with runningTasks := s.runningTasks - 1 }.guarded s.runningTasks
  match (s.task t).state with
  | .ready => (s.handleSetStatus t .ready).runqPush t
  | .sleeping => s.handleSetStatus t .sleeping
  | .waitingChan => s.handleSetStatus t .waitingChan
  | .waitingSelect => s.handleSetStatus t .waitingSelect
  | .waitingFd => s.handleSetStatus t .waitingFd
  | .waitingJoin => s.handleSetStatus t .waitingJoin
  | .dead =>
    let s := { s with liveCount := s.liveCount - 1 }.guarded s.liveCount
    let s := { s with completedCount := s.completedCount + 1 }
    let s := match (s.task t).handle with
      | some h => s.handleComplete h (s.handle h).cancelRequested
      | none => s
    s.taskDestroy t
  | .running => { s with runResult := .state, stopping := true }

/-- Make the popped task the current task of a worker. -/
def taskDispatch (t : TaskId) : Rt :=
  ({ s with runningTasks := s.runningTasks + 1 }.taskMarkRunning t).handleSetStatus t .running

/-- Wake one expired task that has been popped from the heap. -/
def timerFire (t : TaskId) : Rt :=
  match (s.task t).state with
  | .waitingSelect => s.selectTimeoutReady t
  | .waitingFd => s.fdTimeoutReady t
  | _ => s.taskMarkReady t

/-- The loop of `mt_wake_expired_timers`; every iteration pops one timer. -/
def wakeExpiredTimersLoop (nowNs : Nat) : Nat → Rt → Rt
  | 0, s => s
  | fuel + 1, s =>
    match s.timerPeek with
    | none => s
    | some top =>
      if (s.task top).wakeNs > nowNs then s
      else
        match s.timerPop with
        | none => s
        | some (t, s) => wakeExpiredTimersLoop nowNs fuel (s.timerFire t)

def wakeExpiredTimers (nowNs : Nat) : Rt :=
  wakeExpiredTimersLoop nowNs s.timers.items.length s

/-- `mt_yield` and `mt_sleep_ms` up to the switch. `mt_sleep_ms` without memory
for its timer sleeps on the OS thread and returns. -/
def yield (t : TaskId) : Outcome × Rt := (.park, s.modTask t fun k => { k with state := .ready })

def sleepMs (t : TaskId) (ms nowNs : Nat) : Outcome × Rt :=
  if ms = 0 then s.yield t
  else
    match s.timerPush t (deadlineFromTimeout nowNs ms) with
    | (.ok, s) => (.park, s)
    | (_, s) => (.ret .ok, s)

/-! ## `runtime_lifecycle.c` -/

/-- `memset` of the runtime record. Objects, user memory and history remain. -/
def reset : Rt :=
  { ioBackendBuild := s.ioBackendBuild, task := s.task, chan := s.chan, handle := s.handle,
    selw := s.selw, fdw := s.fdw, waitq := s.waitq, selectq := s.selectq, nextAddr := s.nextAddr,
    made := s.made, frees := s.frees, mem := s.mem, tape := s.tape, log := s.log
    suppressed := s.suppressed, stale := s.stale }

/-- `mt_init`: the answer of the backend initialisation decides. -/
def init : Rc × Rt :=
  if s.initialized then (.ok, s)
  else
    match s.reset.ask with
    | (false, s) => (.backend, s)
    | (true, s) =>
      (.ok, { s with
        initialized := true, defaultStackSize := defaultStackSizeBytes, nextId := 1
        workerCount := 1, runResult := .ok, ioBackendKind := s.ioBackendBuild })

/-- `mt_go_with_stack`; `mt_go` asks for the default stack size with 0. -/
def goWithStack (fn : Bool) (stackSize : Nat) : Int × Rt :=
  match s.init with
  | (.ok, s) =>
    match s.createTaskInternal fn stackSize false with
    | (id, _, s) => (id, s)
  | (_, s) => (Rc.err.toInt, s)

/-- `mt_go_handle_with_stack`; no handle is `NULL`. -/
def goHandleWithStack (fn : Bool) (stackSize : Nat) : Option HandleId × Rt :=
  match s.init with
  | (.ok, s) =>
    match s.createTaskInternal fn stackSize true with
    | (id, h, s) => (if id < 0 then none else h, s)
  | (_, s) => (none, s)

/-- `mt_shutdown` while a run is in progress. -/
def shutdownRunning : Rt :=
  { s with stopping := true, runResult := .cancelled }.fdWakeAll .cancelled

def shutdownChannel (ch : ChanId) : Rt :=
  ((((s.modChan ch fun k => { k with closed := true }).setWaitq (.senders ch) {}).setWaitq
    (.receivers ch) {}).setSelectq (.senders ch) {}).setSelectq (.receivers ch) {}

def shutdownHandle (h : HandleId) : Rt :=
  ((s.derefHandle h).modHandle h fun k =>
    { k with cancelRequested := true, completed := true, status := .cancelled
             joinResult := .cancelled, task := none }).setWaitq (.joiners h) {}

def shutdownTask (t : TaskId) : Rt :=
  let s := s.selectFreeTaskWaiters t
  let s := match (s.task t).fdWaiter with
    | some w => ((s.fdWaiterRemove w).2.fdFreeWaiter w).modTask t fun k => { k with fdWaiter := none }
    | none => s
  { s with liveCount := s.liveCount - 1 }.guarded s.liveCount |>.taskDestroy t

/-- The loop over the task registry; every iteration unregisters its head. -/
def shutdownTasks : Nat → Rt → Rt
  | 0, s => s
  | fuel + 1, s =>
    match s.allTasks with
    | [] => s
    | t :: _ => shutdownTasks fuel (s.shutdownTask t)

def shutdownFreeHandle (h : HandleId) : Rt :=
  let s := s.derefHandle h
  if (s.handle h).released then s.free (.handle h) else s

/-- `mt_shutdown` with no run in progress. -/
def shutdownIdle : Rt :=
  let s := s.channels.foldl shutdownChannel s
  let s := s.handles.foldl shutdownHandle s
  let s := shutdownTasks s.allTasks.length s
  let s := { s with
    runq := {}, timers := {}, channelWaitingCount := 0, joinWaitingCount := 0, fdWaitingCount := 0
    fdGenerations := [], ioBackendKind := .none, ioPolling := false }
  (s.handles.foldl shutdownFreeHandle s).reset

end Rt

end Microthread
