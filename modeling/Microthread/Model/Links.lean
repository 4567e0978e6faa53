import Microthread.Foundation.LinkedQueue
import Microthread.Foundation.Registry
import Microthread.Model.Queues

/-!
# The cells of the queues

`run_queue.c` and `wait_queue.c` once more, down to the pointers they write. The
run queue links tasks through `next`, the queues of channels and handles link
them through `wait_next`, and the select queues link waiters through `chan_next`.
The rest of the model works with the lists of `Rt`; `LinkOp` names the operations
of both levels. The registries of `runtime.c` and the generation entries follow at the
end.
-/

namespace Microthread

open Foundation

/-- The links, heads, tails and counters of the three kinds of queues, and `active` of the select
waiters. -/
structure LinkMem where
  runq : Links Unit TaskId := {}
  waitq : Links WaitqRef TaskId := {}
  selectq : Links SelectqRef WaiterId := {}
  active : WaiterId → Bool := fun _ => false

/-- A sum of two `size_t`. -/
def sizeAdd (a b : Nat) : Nat := (a + b) % 2 ^ 64

/-- A product of two `size_t`. -/
def sizeMul (a b : Nat) : Nat := a * b % 2 ^ 64

/-- A decrement of a `size_t`. -/
def sizeDec (n : Nat) : Nat := if n = 0 then 2 ^ 64 - 1 else n - 1

/-- A decrement guarded by `*count > 0`. -/
def guardedDec (n : Nat) : Nat := if n > 0 then sizeDec n else n

namespace LinkMem

variable (m : LinkMem)

/-! ## `run_queue.c` -/

def runqPush (t : TaskId) : LinkMem := { m with runq := m.runq.push () t }

def runqPop : Option TaskId × LinkMem :=
  let (t, q) := m.runq.pop sizeDec ()
  (t, { m with runq := q })

def runqRemove (fuel : Nat) (t : TaskId) : Option (Bool × LinkMem) :=
  (m.runq.remove fuel () t).map fun (removed, q) => (removed, { m with runq := q })

/-! ## `wait_queue.c` -/

def chanWaitqPush (r : WaitqRef) (t : TaskId) : LinkMem := { m with waitq := m.waitq.push r t }

def chanWaitqPop (r : WaitqRef) : Option TaskId × LinkMem :=
  let (t, q) := m.waitq.pop guardedDec r
  (t, { m with waitq := q })

def waitqRemove (fuel : Nat) (r : WaitqRef) (t : TaskId) : Option (Bool × LinkMem) :=
  (m.waitq.remove fuel r t).map fun (removed, q) => (removed, { m with waitq := q })

def selectWaitqPush (r : SelectqRef) (w : WaiterId) : LinkMem :=
  { m with selectq := m.selectq.push r w, active := Function.update m.active w true }

def selectWaitqPop (r : SelectqRef) : Option WaiterId × LinkMem :=
  match m.selectq.pop guardedDec r with
  | (none, q) => (none, { m with selectq := q })
  | (some w, q) => (some w, { m with selectq := q, active := Function.update m.active w false })

def selectWaitqRemove (fuel : Nat) (r : SelectqRef) (w : WaiterId) : Option (Bool × LinkMem) :=
  (m.selectq.remove fuel r w).map fun (removed, q) => (removed, { m with
    selectq := q, active := if removed then Function.update m.active w false else m.active })

end LinkMem

/-- A call of one of the queue operations. -/
inductive LinkOp where
  | runqPush (t : TaskId) | runqPop | runqRemove (t : TaskId)
  | chanWaitqPush (r : WaitqRef) (t : TaskId) | chanWaitqPop (r : WaitqRef)
  | waitqRemove (r : WaitqRef) (t : TaskId)
  | selectWaitqPush (r : SelectqRef) (w : WaiterId) | selectWaitqPop (r : SelectqRef)
  | selectWaitqRemove (r : SelectqRef) (w : WaiterId)

/-- What an operation returns. -/
inductive LinkReply where
  | done | popped (x : Option Nat) | removed (b : Bool)
  deriving DecidableEq, Repr

/-- The operation on the cells. -/
def LinkMem.exec (fuel : Nat) (m : LinkMem) : LinkOp → Option (LinkReply × LinkMem)
  | .runqPush t => some (.done, m.runqPush t)
  | .runqPop => some (.popped m.runqPop.1, m.runqPop.2)
  | .runqRemove t => (m.runqRemove fuel t).map fun (b, m) => (.removed b, m)
  | .chanWaitqPush r t => some (.done, m.chanWaitqPush r t)
  | .chanWaitqPop r => some (.popped (m.chanWaitqPop r).1, (m.chanWaitqPop r).2)
  | .waitqRemove r t => (m.waitqRemove fuel r t).map fun (b, m) => (.removed b, m)
  | .selectWaitqPush r w => some (.done, m.selectWaitqPush r w)
  | .selectWaitqPop r => some (.popped (m.selectWaitqPop r).1, (m.selectWaitqPop r).2)
  | .selectWaitqRemove r w => (m.selectWaitqRemove fuel r w).map fun (b, m) => (.removed b, m)

/-- Operations one after another. -/
def LinkMem.run (fuel : Nat) (m : LinkMem) : List LinkOp → Option (List LinkReply × LinkMem)
  | [] => some ([], m)
  | op :: ops =>
    match m.exec fuel op with
    | none => none
    | some (reply, m) => (LinkMem.run fuel m ops).map fun (replies, m) => (reply :: replies, m)

namespace Rt

/-- A pop on lists, with what it returns. -/
def popReply (s : Rt) : Option (Nat × Rt) → LinkReply × Rt
  | none => (.popped none, s)
  | some (x, s') => (.popped (some x), s')

/-- The operation on the lists. -/
def perform (s : Rt) : LinkOp → LinkReply × Rt
  | .runqPush t => (.done, s.runqPush t)
  | .runqPop => s.popReply s.runqPop
  | .runqRemove t => (.removed (s.runqRemove t).1, (s.runqRemove t).2)
  | .chanWaitqPush r t => (.done, s.chanWaitqPush r t)
  | .chanWaitqPop r => s.popReply (s.chanWaitqPop r)
  | .waitqRemove r t => (.removed (s.waitqRemove r t).1, (s.waitqRemove r t).2)
  | .selectWaitqPush r w => (.done, s.selectWaitqPush r w)
  | .selectWaitqPop r => s.popReply (s.selectWaitqPop r)
  | .selectWaitqRemove r w => (.removed (s.selectWaitqRemove r w).1, (s.selectWaitqRemove r w).2)

def performs (s : Rt) : List LinkOp → List LinkReply × Rt
  | [] => ([], s)
  | op :: ops => ((s.perform op).1 :: ((s.perform op).2.performs ops).1,
      ((s.perform op).2.performs ops).2)

end Rt

/-! ## The registries -/

/-- The links of the registered channels and handles, and of the generation entries, whose
records lie at addresses of their own. -/
structure RegistryMem where
  channels : Registry ChanId := {}
  handles : Registry HandleId := {}
  fdGenerations : Registry Nat := {}
  generation : Nat → FdGeneration

namespace RegistryMem

variable (m : RegistryMem)

def chanRegister (ch : ChanId) : RegistryMem := { m with channels := m.channels.register ch }

/-- `mt_chan_unregister`; `alive` tells which channels may be dereferenced. -/
def chanUnregister (alive : ChanId → Bool) (fuel : Nat) (ch : ChanId) : Option RegistryMem :=
  (m.channels.unregister alive fuel ch).map fun channels => { m with channels := channels }

def handleRegister (h : HandleId) : RegistryMem := { m with handles := m.handles.register h }

/-- `mt_handle_unregister` -/
def handleUnregister (alive : HandleId → Bool) (fuel : Nat) (h : HandleId) : Option RegistryMem :=
  (m.handles.unregister alive fuel h).map fun handles => { m with handles := handles }

/-- The loop of `mt_io_backend_shutdown` over the generation entries; `frees` counts how often
an entry has been freed. -/
def ioBackendShutdown (fuel : Nat) (frees : Nat → Nat) : Option (Nat → Nat) :=
  Registry.freeLoop m.fdGenerations.next (fun _ => true) fuel m.fdGenerations.head frees

/-- The last loop of `mt_shutdown`: the released ones of the handles are freed. -/
def shutdownFreeHandles (released : HandleId → Bool) (fuel : Nat) (frees : HandleId → Nat) :
    Option (HandleId → Nat) :=
  Registry.freeLoop m.handles.next released fuel m.handles.head frees

/-- `memset` of the runtime record. The links of the objects remain. -/
def reset : RegistryMem :=
  { m with
    channels := { m.channels with head := none }, handles := { m.handles with head := none }
    fdGenerations := { m.fdGenerations with head := none } }

end RegistryMem

end Microthread
