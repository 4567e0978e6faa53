import Microthread.Foundation.Machine
import Microthread.Model.Lifecycle

/-!
# The system of workers, tasks and external threads

A step of the system is one region between `mt_lock` and `mt_unlock`, or a part
of one: the lock is a field of the state, and a worker that keeps it across
several steps excludes everyone else. System calls made outside the lock are
steps of their own. User programs are arbitrary, so a running task and an
external thread may make any API call whenever they are not inside one. What
the operating system answers is an argument of the action.

A task that parks runs `mt_task_after_switch` and hands the lock to its worker
in the same step. A call that consists of several sections keeps its place in a
`Pc`, and everyone may act between its sections.
-/

namespace Microthread

open Foundation

/-- Whose program counter: a task's, or that of an external OS thread. -/
inductive Agent where
  | task (t : TaskId) | ext (n : Nat)
  deriving DecidableEq, Repr

/-- A task on the worker it runs on, or an external OS thread. -/
inductive Actor where
  | task (w : Nat) (t : TaskId) | ext (n : Nat)
  deriving DecidableEq, Repr

def Actor.agent : Actor → Agent
  | .task _ t => .task t
  | .ext n => .ext n

/-- `mt_current_task` -/
def Actor.current : Actor → Option TaskId
  | .task _ t => some t
  | .ext _ => none

/-! ## The descriptors of the process -/

/-- An open descriptor: which opening of the number it is, its file status flags,
and the flags it had just before the first `mt_fd_adopt` that succeeded on it
since it was opened or released. -/
structure OpenFile where
  inst : Nat
  flags : Nat := 0
  before : Option Nat := none
  deriving DecidableEq, Repr

/-- The descriptor table of the process; openings are numbered. -/
structure Os where
  file : Nat → Option OpenFile := fun _ => none
  nextInst : Nat := 0

namespace Os

variable (o : Os)

/-- The opening that is current under a number. -/
def inst (fd : Nat) : Option Nat := (o.file fd).map (·.inst)

/-- `open`, `socket` or `accept` issues the number `fd`. -/
def issue (fd flags : Nat) : Os :=
  { file := Function.update o.file fd (some { inst := o.nextInst, flags := flags })
    nextInst := o.nextInst + 1 }

def close (fd : Nat) : Os := { o with file := Function.update o.file fd none }

/-- `fcntl(fd, F_SETFL, flags)` -/
def setFlags (fd flags : Nat) : Os :=
  { o with file := Function.update o.file fd ((o.file fd).map fun f => { f with flags := flags }) }

/-- The descriptor has been adopted; `flags` are those that the adopting call read. -/
def noteAdopt (fd flags : Nat) : Os :=
  { o with file := Function.update o.file fd ((o.file fd).map fun f =>
      { f with before := f.before <|> some flags }) }

/-- The descriptor has been released. -/
def noteRelease (fd : Nat) : Os :=
  { o with file := Function.update o.file fd ((o.file fd).map fun f => { f with before := none }) }

end Os

/-! ## Calls -/

/-- API calls with their arguments. -/
inductive Api where
  | go (fn : Bool) (stackSize : Nat) (wantHandle : Bool)
  | yield
  | sleep (ms : Nat)
  | join (h : HandleId)
  | cancel (h : HandleId)
  | status (h : HandleId)
  | cancelled
  | release (h : HandleId)
  | chanCreate (elemSize capacity : Nat)
  | chanSend (ch : Option ChanId) (value : Option Addr)
  | chanRecv (ch : Option ChanId) (out : Option Addr)
  | chanTrySend (ch : Option ChanId) (value : Option Addr)
  | chanTryRecv (ch : Option ChanId) (out : Option Addr)
  | chanClose (ch : ChanId)
  | chanDestroy (ch : ChanId)
  | select (cases : List SelectCase)
  | fdAdopt (fd : Nat)
  | fdRelease (fd : Nat)
  | fdWait (fd events timeoutMs : Nat)
  | fdRead (fd len timeoutMs : Nat)
  | fdWrite (fd len timeoutMs : Nat)
  | netAccept (fd timeoutMs : Nat)
  | fdClose (fd : Nat)
  | run (workers : Nat) (sleepForTimers : Bool)
  | shutdown
  deriving DecidableEq, Repr

/-- The call begins with work outside the lock. -/
def Api.unlocked : Api → Bool
  | .select _ | .fdAdopt _ | .fdRead .. | .fdWrite .. | .netAccept .. => true
  | _ => false

/-! ## Program counters -/

inductive IoKind where
  | read | write | accept
  deriving DecidableEq, Repr

/-- A call of `mt_fd_read`, `mt_fd_write` or `mt_net_accept` in progress. -/
structure IoOp where
  kind : IoKind
  fd : Nat
  len : Nat := 0
  timeoutMs : Nat := 0
  total : Nat := 0
  deadlineNs : Nat := 0
  deriving DecidableEq, Repr

/-- What the loop of the call waits for. -/
def IoOp.events (op : IoOp) : Nat := if op.kind = .write then fdWrite else fdRead

/-- The code an error ends the call with; a started write reports its progress. -/
def IoOp.result (op : IoOp) (rc : Rc) : Rc := if op.kind = .write ∧ op.total > 0 then .ok else rc

/-- What an `mt_fd_adopt` is part of. -/
inductive AdoptUse where
  | adopt
  /-- the first step of a read, a write or an accept -/
  | io (op : IoOp)
  /-- the descriptor `accept` has returned -/
  | accepted
  deriving DecidableEq, Repr

/-- What an `mt_fd_wait` is part of. -/
inductive WaitUse where
  | wait
  | io (op : IoOp)
  deriving DecidableEq, Repr

/-- Where an agent stands in the code. -/
inductive Pc where
  /-- the context is made and the entry function not reached -/
  | fresh
  /-- outside the runtime -/
  | user
  /-- at the entry of an API function -/
  | called (c : CallId) (call : Api)
  /-- in the trial pass of `mt_select`, before case `i` -/
  | selectTry (c : CallId) (cases : List SelectCase) (plan : SelectPlan) (i : Nat)
  /-- after the trial pass, before the registration section -/
  | selectReg (c : CallId) (cases : List SelectCase) (plan : SelectPlan)
  | chanPark (c : CallId) (role : Role)
  | selectPark (c : CallId) (cases : List SelectCase) (plan : SelectPlan)
  | joinPark (c : CallId) (h : HandleId)
  /-- in the switch of `mt_yield` or `mt_sleep_ms` -/
  | switchPark
  | fdPark (c : CallId) (w : FdWaiterId) (use : WaitUse)
  /-- in `mt_fd_adopt`, before its `fcntl` calls -/
  | fdAdopt (c : CallId) (fd : Nat) (use : AdoptUse)
  /-- in `mt_fd_adopt`, after `fcntl` has read `flags`, before the section -/
  | fdAdopting (c : CallId) (fd flags : Nat) (use : AdoptUse)
  /-- in `mt_fd_release`, before `fcntl` restores the flags -/
  | fdRestoring (c : CallId) (fd flags : Nat)
  /-- before the system call of a read, a write or an accept -/
  | ioCall (c : CallId) (op : IoOp)
  /-- before the `mt_fd_wait` of a read, a write or an accept -/
  | ioWait (c : CallId) (op : IoOp)
  /-- before `mt_net_accept` closes the descriptor it could not adopt -/
  | acceptDrop (c : CallId) (fd : Nat)
  /-- in `mt_fd_close`, before the OS `close` of the opening that was marked -/
  | fdClosing (c : CallId) (fd : Nat) (inst : Option Nat)
  /-- in `mt_fd_close`, after the OS `close`, before the mark is cleared -/
  | fdClosed (c : CallId) (fd : Nat) (rc : Rc)
  /-- `mt_run_internal` before its threads are made, making them, in worker 0's
  loop, and after a thread could not be made -/
  | runAlloc (c : CallId) (workers : Nat)
  | runSpawn (c : CallId) (workers next : Nat)
  | runLoop (c : CallId)
  | runAbort (c : CallId)
  /-- the task's function has returned -/
  | finished
  deriving DecidableEq, Repr

/-- Where the worker loop goes on after `mt_poll_fd_waiters_with_timeout`. -/
inductive PollCont where
  | top | pop
  deriving DecidableEq, Repr

/-- Where a worker stands in `mt_worker_loop`. -/
inductive WorkerPc where
  | off
  | start
  /-- at the head of the loop, holding the lock -/
  | top
  /-- before `mt_runq_pop`, holding the lock -/
  | pop
  /-- inside the backend wait, the lock released -/
  | polling (k : PollCont)
  /-- the backend wait has returned a batch; the lock is still released -/
  | polled (k : PollCont) (batch : List ReadyEvent)
  /-- in the condition wait of `mt_poll_fd_waiters_with_timeout` -/
  | pollWait (timed : Bool) (k : PollCont)
  | running (t : TaskId)
  /-- in the untimed condition wait of the idle branch -/
  | idleWait
  /-- in the timed condition wait of the idle branch -/
  | timerWait
  | exited
  deriving DecidableEq, Repr

/-! ## Actions -/

/-- Answer of `read`, `write` or `accept`; an interrupted call is made again. -/
inductive IoAnswer where
  /-- the bytes moved, or the number that `accept` issues -/
  | done (n : Nat)
  | again
  | failed (ebadf : Bool)
  deriving DecidableEq, Repr

/-- Answers of the operating system during a step. -/
structure Env where
  tape : List Bool := []
  nowNs : Nat := 0
  /-- a second reading of the clock in the same step -/
  nowNs2 : Nat := 0
  poll : PollResult := .revents 0
  io : IoAnswer := .again
  /-- status flags of a descriptor that `accept` issues -/
  flags : Nat := 0
  osOk : Bool := true
  deriving DecidableEq, Repr

/-- One action of one party. -/
inductive Act where
  /-- user code calls an API function -/
  | api (a : Actor) (call : Api)
  /-- the next section of a call in progress -/
  | cont (a : Actor) (env : Env)
  /-- the task's function returns -/
  | finish (w : Nat) (t : TaskId)
  /-- user code writes its memory -/
  | write (a : Actor) (addr : Addr) (v : List Byte)
  /-- user code opens or closes a descriptor without the runtime -/
  | osOpen (a : Actor) (fd flags : Nat)
  | osClose (a : Actor) (fd : Nat)
  /-- the next section of a worker's loop -/
  | worker (w : Nat) (env : Env)
  /-- the kernel ends a backend wait with a batch of ready events -/
  | collect (w : Nat) (batch : List ReadyEvent)
  deriving DecidableEq, Repr

/-! ## The state -/

/-- The runtime, who holds its lock, and where everyone stands. -/
structure Sys where
  rt : Rt := {}
  os : Os := {}
  lock : Option Nat := none
  workers : Nat → WorkerPc := fun _ => .off
  pc : Agent → Pc := fun
    | .task _ => .fresh
    | .ext _ => .user
  sleepForTimers : Bool := true
  nextCall : CallId := 0
  /-- the calls made so far, with their callers -/
  calls : CallId → Option (Agent × Api) := fun _ => none
  /-- what the calls of `mt_select` have stored in `*selected_index` -/
  selectedIndex : CallId → Option Nat := fun _ => none

namespace Sys

variable (s : Sys)

def setPc (a : Agent) (p : Pc) : Sys := { s with pc := Function.update s.pc a p }

def setWorker (w : Nat) (p : WorkerPc) : Sys := { s with workers := Function.update s.workers w p }

/-- `mt_select` stores the index of the case that it has chosen. -/
def storeIndex (c : CallId) (i : Nat) : Sys :=
  { s with selectedIndex := Function.update s.selectedIndex c (some i) }

/-- The actor is executing: an external thread, or the current task of a worker. -/
def enabled : Actor → Bool
  | .task w t => s.workers w == .running t
  | .ext _ => true

/-- An API function is called; the call gets a name of its own. -/
def enter (a : Actor) (call : Api) : Sys :=
  { s with
    rt := match a with
      | .task _ t => s.rt.modTask t fun k => { k with call := s.nextCall }
      | .ext _ => s.rt
    nextCall := s.nextCall + 1
    calls := Function.update s.calls s.nextCall (some (a.agent, call)) }.setPc a.agent
      (.called s.nextCall call)

/-- A call is completed and returns at once. -/
def ret (a : Actor) (c : CallId) (role : Role) (rc : Rc) (rt : Rt) : Sys :=
  { s with rt := (rt.record (.done c role rc)).record (.ret c rc) }.setPc a.agent .user

/-- A parked call returns the result its completion fixed. -/
def retParked (a : Actor) (c : CallId) (rc : Rc) : Sys :=
  { s with rt := s.rt.record (.ret c rc) }.setPc a.agent .user

/-- Task `t` switches to the scheduler of worker `w`, which holds the lock now. -/
def switch (w : Nat) (t : TaskId) (rt : Rt) (p : Pc) : Sys :=
  { s with rt := rt.taskAfterSwitch t, lock := some w }.setPc (.task t) p |>.setWorker w .top

/-- End of a locked section: return, or park at `p`. Only tasks park. -/
def conclude (a : Actor) (c : CallId) (role : Role) (p : Pc) : Outcome × Rt → Sys
  | (.ret rc, rt) => s.ret a c role rc rt
  | (.park, rt) =>
    match a with
    | .task w t => s.switch w t rt p
    | .ext _ => s.ret a c role .state rt

end Sys

end Microthread
