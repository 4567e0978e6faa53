import Mathlib.Logic.Function.Basic
import Microthread.Foundation.Queue
import Microthread.Foundation.RingBuffer

/-!
# The runtime's records

The structures of `runtime_internal.h` and `fd_wait_internal.h`. A pointer to a
runtime object is a number, `NULL` is `none`, and the memory of each kind of
object is a table from these numbers to records. Freed records stay in their
table: `Rt.frees` counts how often an address has been freed, so a double free
or a dangling reference is a fact about the state rather than a stuck step.

Linked queues are `Foundation.Queue`s: the elements from head to tail with the
counter the C code keeps beside the two pointers. The queue functions of the
source take the addresses of such a triple inside a channel or a handle; here
the queues are tables of their own, under a reference that names the owner.
Stacks, contexts, mutexes and
the self-pipe carry no data the scheduler decides on and have no field here.
-/

namespace Microthread

open Foundation

abbrev TaskId := Nat
abbrev ChanId := Nat
abbrev HandleId := Nat
abbrev WaiterId := Nat
abbrev FdWaiterId := Nat
abbrev CallId := Nat
abbrev Addr := Nat
abbrev Byte := UInt8

/-- Result codes of the public API. -/
inductive Rc where
  | ok | err | invalid | nomem | state | closed | cancelled | wouldBlock | timeout | io
  | backend | addrinfo | unsupported
  deriving DecidableEq, Repr

/-- The integer the C API returns for a code. -/
def Rc.toInt : Rc → Int
  | .ok => 0 | .err => -1 | .invalid => -2 | .nomem => -3 | .state => -4 | .closed => -5
  | .cancelled => -6 | .wouldBlock => -7 | .timeout => -8 | .io => -9 | .backend => -10
  | .addrinfo => -11 | .unsupported => -12

/-- `mt_task_state_t` -/
inductive TaskState where
  | ready | running | sleeping | waitingChan | waitingSelect | waitingFd | waitingJoin | dead
  deriving DecidableEq, Repr

/-- `mt_task_status_t`, what a handle reports. -/
inductive TaskStatus where
  | ready | running | sleeping | waitingChan | waitingJoin | done | cancelled
  | waitingSelect | waitingFd
  deriving DecidableEq, Repr

/-- `mt_chan_wait_kind_t` -/
inductive ChanWaitKind where
  | none | send | recv
  deriving DecidableEq, Repr

/-- `mt_select_op_t`. Any other value of the C enumeration is `unknown`. -/
inductive SelectOp where
  | recv | send | default | timeout | unknown
  deriving DecidableEq, Repr

/-- `mt_select_case_t` -/
structure SelectCase where
  op : SelectOp
  ch : Option ChanId := none
  value : Option Addr := none
  timeoutMs : Nat := 0
  deriving DecidableEq, Repr

/-- `struct mt_task`. `call` identifies the API call the task is in; it is the
only field without a counterpart in the source and nothing decides on it. -/
structure Task where
  id : Int := 0
  state : TaskState := .ready
  wakeNs : Nat := 0
  timerSeq : Nat := 0
  handle : Option HandleId := none
  joinWaitingOn : Option HandleId := none
  chanWaitKind : ChanWaitKind := .none
  chanWaitCh : Option ChanId := none
  chanValue : Option Addr := none
  chanResult : Rc := .ok
  joinResult : Rc := .ok
  selectWaiters : List WaiterId := []
  selectWaiterCount : Nat := 0
  selectIndex : Nat := 0
  selectResult : Rc := .ok
  selectInTimer : Bool := false
  selectCountedWaiting : Bool := false
  fdWaiter : Option FdWaiterId := none
  fdResult : Rc := .ok
  fdReadyEvents : Nat := 0
  fdInTimer : Bool := false
  call : CallId := 0

/-- `struct mt_select_waiter`; the `task_next` and `chan_next` links are the
lists `Task.selectWaiters` and the select queues of the channel. -/
structure SelectWaiter where
  task : TaskId := 0
  ch : ChanId := 0
  op : SelectOp := .recv
  value : Addr := 0
  index : Nat := 0
  active : Bool := false

/-- `mt_fd_waiter_state_t` -/
inductive FdWaiterState where
  | removed | active | readyReserved
  deriving DecidableEq, Repr

/-- `struct mt_fd_waiter` without its unused `ready_events`. `inst` tells which
opening of the number was current when the waiter was filled; it has no
counterpart in the source and nothing decides on it. -/
structure FdWaiter where
  task : TaskId := 0
  fd : Nat := 0
  events : Nat := 0
  generation : Nat := 0
  state : FdWaiterState := .removed
  inst : Option Nat := none

/-- `struct mt_fd_generation` -/
structure FdGeneration where
  fd : Nat
  generation : Nat
  closing : Bool := false
  adopted : Bool := false
  originalFlags : Int := 0

/-- `struct mt_task_handle`; its joiners are the queue `WaitqRef.joiners`. -/
structure Handle where
  task : Option TaskId := none
  status : TaskStatus := .ready
  cancelRequested : Bool := false
  completed : Bool := false
  released : Bool := false
  joinResult : Rc := .ok

/-- `struct mt_chan`; the buffer and its indices are the inherited ring, its
four queues are found under `WaitqRef` and `SelectqRef`. -/
structure Chan extends RingBuffer Byte where
  closed : Bool := false

/-- A queue of tasks linked through `wait_next`. -/
inductive WaitqRef where
  | senders (ch : ChanId) | receivers (ch : ChanId) | joiners (h : HandleId)
  deriving DecidableEq, Repr

/-- A queue of select waiters linked through `chan_next`. -/
inductive SelectqRef where
  | senders (ch : ChanId) | receivers (ch : ChanId)
  deriving DecidableEq, Repr

/-- `mt_timer_heap_t`; the first `len` items, in heap order. -/
structure Timers where
  items : List TaskId := []
  cap : Nat := 0
  nextSeq : Nat := 0

/-- `mt_io_backend_kind_t` -/
inductive IoBackendKind where
  | none | poll | epoll | kqueue
  deriving DecidableEq, Repr

/-- A heap object that is allocated and freed. -/
inductive Obj where
  | task (t : TaskId) | handle (h : HandleId) | chan (ch : ChanId)
  | selectWaiter (w : WaiterId) | fdWaiter (w : FdWaiterId)
  deriving DecidableEq, Repr

/-- What a completed call was to a channel. -/
inductive Role where
  | send (ch : ChanId) | recv (ch : ChanId) | neither
  deriving DecidableEq, Repr

/-- How a sending call entered the runtime. -/
inductive SendKind where
  | plain | nonblocking | select
  deriving DecidableEq, Repr

/-- History of the transfers and of the calls' outcomes. Each entry is recorded
by the operation that performs the copy or fixes the result. -/
inductive Event where
  /-- the value of sending call `c`, read at `src`, entered the buffer of `ch` -/
  | push (ch : ChanId) (c : CallId) (kind : SendKind) (src : Addr) (v : List Byte)
  /-- receiving call `c` took `v` out of the buffer of `ch` and stored it at `out` -/
  | pop (ch : ChanId) (c : CallId) (out : Addr) (v : List Byte)
  /-- the value of `sender`, read at `src`, was stored at `out` for `receiver` -/
  | handoff (ch : ChanId) (sender : CallId) (kind : SendKind) (src : Addr) (receiver : CallId)
      (out : Addr) (v : List Byte)
  /-- call `c` was completed with result `rc` -/
  | done (c : CallId) (role : Role) (rc : Rc)
  /-- call `c` returned `rc` to the task or thread that made it -/
  | ret (c : CallId) (rc : Rc)
  deriving DecidableEq, Repr

/-- `mt_runtime_t` with the tables of the objects it points to. -/
structure Rt where
  initialized : Bool := false
  running : Bool := false
  stopping : Bool := false
  runResult : Rc := .ok
  nextId : Int := 0
  defaultStackSize : Nat := 0
  workerCount : Nat := 0
  activeWorkers : Nat := 0
  runningTasks : Nat := 0
  allTasks : List TaskId := []
  runq : Queue TaskId := {}
  channels : List ChanId := []
  handles : List HandleId := []
  timers : Timers := {}
  liveCount : Nat := 0
  completedCount : Nat := 0
  channelWaitingCount : Nat := 0
  joinWaitingCount : Nat := 0
  fdWaiters : List FdWaiterId := []
  fdWaitingCount : Nat := 0
  fdGenerations : List FdGeneration := []
  ioBackendKind : IoBackendKind := .none
  /-- the backend this build initialises -/
  ioBackendBuild : IoBackendKind := .poll
  ioPolling : Bool := false
  task : TaskId → Task := fun _ => {}
  chan : ChanId → Chan := fun _ => {}
  handle : HandleId → Handle := fun _ => {}
  selw : WaiterId → SelectWaiter := fun _ => {}
  fdw : FdWaiterId → FdWaiter := fun _ => {}
  waitq : WaitqRef → Queue TaskId := fun _ => {}
  selectq : SelectqRef → Queue WaiterId := fun _ => {}
  /-- the next address the allocator hands out, the objects made so far, and the
  frees of each -/
  nextAddr : Nat := 0
  made : Obj → Bool := fun _ => false
  frees : Obj → Nat := fun _ => 0
  /-- memory of the user program -/
  mem : Addr → Byte := fun _ => 0
  /-- the kernel's epoll interest set -/
  interest : Nat → Option Nat := fun _ => none
  /-- whether the kqueue holds the filter of `MT_FD_READ` or `MT_FD_WRITE` at a descriptor -/
  filters : Nat → Nat → Bool := fun _ _ => false
  /-- answers of the allocator and of fallible system calls still to come -/
  tape : List Bool := []
  log : List Event := []
  /-- a saturating counter guard has swallowed a decrement -/
  suppressed : Bool := false
  /-- a freed handle has been read or written -/
  stale : Bool := false

namespace Rt

variable (s : Rt)

def modTask (t : TaskId) (f : Task → Task) : Rt :=
  { s with task := Function.update s.task t (f (s.task t)) }

def modChan (ch : ChanId) (f : Chan → Chan) : Rt :=
  { s with chan := Function.update s.chan ch (f (s.chan ch)) }

def modHandle (h : HandleId) (f : Handle → Handle) : Rt :=
  { s with handle := Function.update s.handle h (f (s.handle h)) }

def modSelw (w : WaiterId) (f : SelectWaiter → SelectWaiter) : Rt :=
  { s with selw := Function.update s.selw w (f (s.selw w)) }

def setWaitq (r : WaitqRef) (q : Queue TaskId) : Rt :=
  { s with waitq := Function.update s.waitq r q }

def setSelectq (r : SelectqRef) (q : Queue WaiterId) : Rt :=
  { s with selectq := Function.update s.selectq r q }

def modFdw (w : FdWaiterId) (f : FdWaiter → FdWaiter) : Rt :=
  { s with fdw := Function.update s.fdw w (f (s.fdw w)) }

/-- Append to the history. -/
def record (e : Event) : Rt := { s with log := s.log ++ [e] }

/-- Note a decrement of a counter standing at `n`, guarded by `n > 0`. -/
def guarded (n : Nat) : Rt := { s with suppressed := s.suppressed || n == 0 }

/-- The next answer of the allocator or of a fallible system call; an exhausted
tape answers with success. -/
def ask : Bool × Rt :=
  match s.tape with
  | [] => (true, s)
  | b :: rest => (b, { s with tape := rest })

/-- A fresh object; what `calloc` returns when it does not fail. -/
def alloc (mk : Nat → Obj) : Nat × Rt :=
  (s.nextAddr, { s with
    nextAddr := s.nextAddr + 1, made := Function.update s.made (mk s.nextAddr) true })

def free (o : Obj) : Rt :=
  { s with frees := Function.update s.frees o (s.frees o + 1) }

/-- Follow a pointer to a handle. -/
def derefHandle (h : HandleId) : Rt := { s with stale := s.stale || s.frees (.handle h) != 0 }

/-- `n` bytes of user memory. -/
def readMem (a : Addr) (n : Nat) : List Byte := (List.range n).map fun i => s.mem (a + i)

def writeMem (a : Addr) (v : List Byte) : Rt :=
  { s with mem := fun x => if a ≤ x then (v[x - a]?).getD (s.mem x) else s.mem x }

end Rt

end Microthread
