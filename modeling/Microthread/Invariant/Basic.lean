import Microthread.Foundation.Placement
import Microthread.Model.Lifecycle

/-!
# The invariant of the runtime record

A task is linked in at most one of the run queue, the timer heap and the wait
queues, and its record names which: `Task.slot` reads the name off the state.
The invariant says that the lists hold exactly the registered tasks that name
them. Select waiters are placed in the same sense, each in the select queue of
its channel and direction, as long as its owner lists it.

The invariant holds at the points where no locked section is in progress and
also between the elementary changes a section is made of. In between a task may
be registered and already dead, and a running task may have registered some of
the waiters of its select; the clauses about handles and waiters allow for it.
`channel_waiting_count` and `join_waiting_count` are not constrained here.
-/

namespace Microthread

open Foundation

/-- A structure that links tasks. -/
inductive Slot where
  | runq | timers | waitq (r : WaitqRef)
  deriving DecidableEq, Repr

/-- The channel queue that `chan_wait_kind` and `chan_wait_ch` name. -/
def Task.chanRef (k : Task) : Option WaitqRef :=
  match k.chanWaitKind, k.chanWaitCh with
  | .send, some ch => some (.senders ch)
  | .recv, some ch => some (.receivers ch)
  | _, _ => none

/-- The structure that holds a task, as its record names it. -/
def Task.slot (k : Task) : Option Slot :=
  match k.state with
  | .ready => some .runq
  | .sleeping => some .timers
  | .waitingChan => k.chanRef.map .waitq
  | .waitingSelect => if k.selectInTimer then some .timers else none
  | .waitingFd => if k.fdInTimer then some .timers else none
  | .waitingJoin => k.joinWaitingOn.map fun h => .waitq (.joiners h)
  | .running | .dead => none

/-- The channel of a channel queue. -/
def WaitqRef.chan? : WaitqRef → Option ChanId
  | .senders ch | .receivers ch => some ch
  | .joiners _ => none

/-- The address of an object. -/
def Obj.addr : Obj → Nat
  | .task n | .handle n | .chan n | .selectWaiter n | .fdWaiter n => n

namespace Rt

def slotItems (s : Rt) : Slot → List TaskId
  | .runq => s.runq.items
  | .timers => s.timers.items
  | .waitq r => (s.waitq r).items

@[simp] theorem slotItems_runq (s : Rt) : s.slotItems .runq = s.runq.items := rfl
@[simp] theorem slotItems_timers (s : Rt) : s.slotItems .timers = s.timers.items := rfl
@[simp] theorem slotItems_waitq (s : Rt) (r : WaitqRef) :
    s.slotItems (.waitq r) = (s.waitq r).items := rfl

/-- The waiter belongs to a registered task that lists it. -/
def Listed (s : Rt) (w : WaiterId) : Prop :=
  (s.selw w).task ∈ s.allTasks ∧ w ∈ (s.task (s.selw w).task).selectWaiters

/-- Tasks and the structures that link them. -/
structure TaskInv (s : Rt) : Prop where
  nodup : s.allTasks.Nodup
  placed : Placed s.slotItems (· ∈ s.allTasks) fun t => (s.task t).slot
  chanRef : ∀ t ∈ s.allTasks, (s.task t).state = .waitingChan → (s.task t).chanRef ≠ none
  joinRef : ∀ t ∈ s.allTasks, (s.task t).state = .waitingJoin → (s.task t).joinWaitingOn ≠ none
  live : s.liveCount = s.allTasks.countP fun t => (s.task t).state ≠ .dead
  runqExact : s.runq.Exact
  waitqExact : ∀ r, (s.waitq r).Exact

/-- Select waiters and the queues that link them. -/
structure SelectInv (s : Rt) : Prop where
  placed : Placed (fun r => (s.selectq r).items) s.Listed fun w => some (s.selw w).ref
  owner : ∀ t ∈ s.allTasks, ∀ w ∈ (s.task t).selectWaiters, (s.selw w).task = t ∧
    (s.selw w).active ∧ ((s.selw w).op = .send ∨ (s.selw w).op = .recv)
  nodup : ∀ t ∈ s.allTasks, (s.task t).selectWaiters.Nodup
  idle : ∀ t ∈ s.allTasks, (s.task t).state ≠ .waitingSelect → (s.task t).state ≠ .running →
    (s.task t).selectWaiters = []
  counted : ∀ t ∈ s.allTasks, (s.task t).selectCountedWaiting = true ↔
    (s.task t).state = .waitingSelect
  exact : ∀ r, (s.selectq r).Exact

/-- Descriptor waiters and the list that links them. -/
structure FdInv (s : Rt) : Prop where
  nodup : s.fdWaiters.Nodup
  owner : ∀ w ∈ s.fdWaiters, (s.fdw w).task ∈ s.allTasks ∧
    (s.task (s.fdw w).task).fdWaiter = some w ∧ (s.fdw w).state ≠ .removed ∧
    ((s.fdw w).state = .active ↔ (s.task (s.fdw w).task).state = .waitingFd)
  linked : ∀ t ∈ s.allTasks, ∀ w, (s.task t).fdWaiter = some w →
    w ∈ s.fdWaiters ∧ (s.fdw w).task = t
  waiting : ∀ t ∈ s.allTasks, (s.task t).state = .waitingFd →
    (s.task t).fdInTimer = true ∧ (s.task t).fdWaiter ≠ none
  count : s.fdWaitingCount = s.fdWaiters.countP fun w => (s.fdw w).state = .active

/-- The object has been made and not been freed. -/
def Live (s : Rt) (o : Obj) : Prop := s.made o = true ∧ s.frees o = 0

instance (s : Rt) (o : Obj) : Decidable (s.Live o) := inferInstanceAs (Decidable (_ ∧ _))

/-- The registry of channels, and that waits are on registered channels. -/
structure ChanInv (s : Rt) : Prop where
  nodup : s.channels.Nodup
  live : ∀ ch ∈ s.channels, s.Live (.chan ch)
  registered : ∀ ch, s.Live (.chan ch) → (s.chan ch).closed = false → ch ∈ s.channels
  waitRegistered : ∀ t ∈ s.allTasks, ∀ ch, (s.task t).state = .waitingChan →
    (s.task t).chanWaitCh = some ch → ch ∈ s.channels
  selectRegistered : ∀ t ∈ s.allTasks, ∀ w ∈ (s.task t).selectWaiters, (s.selw w).ch ∈ s.channels

/-- Addresses are handed out once. -/
structure HeapInv (s : Rt) : Prop where
  fresh : ∀ o, s.made o = true → o.addr < s.nextAddr
  freed : ∀ o, s.frees o ≠ 0 → s.made o = true
  task : ∀ t ∈ s.allTasks, s.Live (.task t)
  selectWaiter : ∀ t ∈ s.allTasks, ∀ w ∈ (s.task t).selectWaiters, s.made (.selectWaiter w) = true
  fdWaiter : ∀ w ∈ s.fdWaiters, s.made (.fdWaiter w) = true

/-- A registered task that is dead still refers to the handle. -/
def Dying (s : Rt) (h : HandleId) : Prop :=
  ∃ t ∈ s.allTasks, (s.task t).state = .dead ∧ (s.task t).handle = some h

/-- Handles: who refers to them, and when they are freed. -/
structure HandleInv (s : Rt) : Prop where
  nodup : s.handles.Nodup
  live : ∀ h ∈ s.handles, s.Live (.handle h)
  linked : ∀ t ∈ s.allTasks, (s.task t).state ≠ .dead → ∀ h, (s.task t).handle = some h →
    h ∈ s.handles ∧ (s.handle h).task = some t
  back : ∀ h ∈ s.handles, ∀ t, (s.handle h).task = some t →
    t ∈ s.allTasks ∧ (s.task t).handle = some h
  completed : ∀ h ∈ s.handles, ((s.handle h).completed = true ↔ (s.handle h).task = none)
  settled : ∀ h ∈ s.handles, (s.handle h).completed = true → ¬s.Dying h →
    (s.waitq (.joiners h)).items = [] ∧ (s.handle h).released = false
  joinRegistered : ∀ t ∈ s.allTasks, ∀ h, (s.task t).state = .waitingJoin →
    (s.task t).joinWaitingOn = some h → h ∈ s.handles
  gone : ∀ h, s.made (.handle h) = true → h ∉ s.handles → (s.handle h).task = none ∧
    (s.frees (.handle h) = if (s.handle h).released then 1 else 0) ∧
    ((s.handle h).released = false → (s.handle h).completed = true)
  notStale : s.stale = false

/-- Everything the locked sections rely on and maintain. -/
structure Inv (s : Rt) : Prop where
  task : s.TaskInv
  select : s.SelectInv
  fd : s.FdInv
  chan : s.ChanInv
  heap : s.HeapInv
  handle : s.HandleInv

end Rt

end Microthread
