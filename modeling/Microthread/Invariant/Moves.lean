import Mathlib.Logic.Relation
import Microthread.Invariant.Basic

/-!
# Elementary changes of the runtime

Every locked section is a sequence of elementary changes. Each is given here by
the fields it writes, once, and `Move` lists them with the facts that hold where
the code makes them. A change that takes a task off the processor is a `Park`.

What follows from a section for the rest of the system is proved by cases on
these two relations, without looking at the sections again.
-/

namespace Microthread

open Foundation

namespace Rt

variable (s : Rt)

/-! ## Waking -/

/-- A task leaves a channel queue with a result. -/
def wakeChan (r : WaitqRef) (t : TaskId) (rc : Rc) : Rt :=
  { s with
    log := s.log ++ [.done (s.task t).call (s.task t).chanRole rc]
    waitq := Function.update s.waitq r ((s.waitq r).remove t).2
    task := Function.update s.task t { s.task t with
      chanResult := rc, chanWaitKind := .none, chanWaitCh := none, chanValue := none
      state := .ready }
    runq := s.runq.push t
    channelWaitingCount := s.channelWaitingCount - 1
    suppressed := s.suppressed || (s.waitq r).count == 0 || s.channelWaitingCount == 0 }

/-- A cancelled task leaves its channel queue; the counter is decremented by
`mt_chan_remove_waiter` and again by `mt_task_complete_channel_wait`. -/
def cancelChan (r : WaitqRef) (t : TaskId) : Rt :=
  { s with
    log := s.log ++ [.done (s.task t).call .neither .cancelled]
    waitq := Function.update s.waitq r ((s.waitq r).remove t).2
    task := Function.update s.task t { s.task t with
      chanResult := .cancelled, chanWaitKind := .none, chanWaitCh := none, chanValue := none
      state := .ready }
    runq := s.runq.push t
    channelWaitingCount := s.channelWaitingCount - 1 - 1
    suppressed := s.suppressed || (s.waitq r).count == 0 || s.channelWaitingCount == 0 ||
      s.channelWaitingCount - 1 == 0 }

/-- A joiner leaves the queue of a handle with a result. -/
def wakeJoin (h : HandleId) (t : TaskId) (rc : Rc) : Rt :=
  { s with
    log := s.log ++ [.done (s.task t).call .neither rc]
    waitq := Function.update s.waitq (.joiners h) ((s.waitq (.joiners h)).remove t).2
    task := Function.update s.task t { s.task t with
      joinResult := rc, joinWaitingOn := none, state := .ready }
    runq := s.runq.push t
    joinWaitingCount := s.joinWaitingCount - 1
    suppressed := s.suppressed || (s.waitq (.joiners h)).count == 0 || s.joinWaitingCount == 0 }

/-- A cancelled joiner; `mt_handle_remove_joiner` and
`mt_task_complete_join_wait` both decrement. -/
def cancelJoin (h : HandleId) (t : TaskId) : Rt :=
  { s with
    log := s.log ++ [.done (s.task t).call .neither .cancelled]
    waitq := Function.update s.waitq (.joiners h) ((s.waitq (.joiners h)).remove t).2
    task := Function.update s.task t { s.task t with
      joinResult := .cancelled, joinWaitingOn := none, state := .ready }
    runq := s.runq.push t
    joinWaitingCount := s.joinWaitingCount - 1 - 1
    suppressed := s.suppressed || (s.waitq (.joiners h)).count == 0 || s.joinWaitingCount == 0 ||
      s.joinWaitingCount - 1 == 0 }

/-- A sleeper leaves the timer heap, which keeps `items`. -/
def wakeSleep (t : TaskId) (items : List TaskId) : Rt :=
  { s with
    timers := { s.timers with items := items }
    task := Function.update s.task t { s.task t with wakeNs := 0, state := .ready }
    runq := s.runq.push t }

/-- Unlink and free select waiters. -/
def dropWaiters (ws : List WaiterId) : Rt :=
  { s with
    selectq := fun r => (s.selectq r).without ws
    selw := fun w => if w ∈ ws then { s.selw w with active := false } else s.selw w
    frees := fun o => s.frees o + ws.countP fun w => o = .selectWaiter w }

/-- A select is completed: its waiters and its timer go. -/
def wakeSelect (t : TaskId) (items : List TaskId) (role : Role) (rc : Rc) (index : Nat) : Rt :=
  { s.dropWaiters (s.task t).selectWaiters with
    log := s.log ++ [.done (s.task t).call role rc]
    timers := { s.timers with items := items }
    task := Function.update s.task t { s.task t with
      wakeNs := if (s.task t).selectInTimer then 0 else (s.task t).wakeNs
      selectInTimer := false, selectWaiters := [], selectWaiterCount := 0
      selectCountedWaiting := false, selectResult := rc, selectIndex := index, state := .ready }
    runq := s.runq.push t
    channelWaitingCount := s.channelWaitingCount - 1
    suppressed := s.suppressed || s.channelWaitingCount == 0 }

/-- The interest set once the kernel has been told that `remaining` is left to watch
for at `fd`. -/
def interestAfter (fd remaining : Nat) : Nat → Option Nat :=
  if s.ioBackendKind = .epoll ∧ (s.interest fd).isSome then
    Function.update s.interest fd
      (if remaining ≠ 0 then some (epollEventsFromFdEvents remaining) else none)
  else s.interest

/-- The interest set once the waiter is no longer active. -/
def interestWithout (w : FdWaiterId) : Nat → Option Nat :=
  s.interestAfter (s.fdw w).fd
    ((s.modFdw w fun x => { x with state := .readyReserved }).fdActiveEventsForFd (s.fdw w).fd 0)

/-- The filters once the waiter is no longer active. -/
def filtersWithout (w : FdWaiterId) : Nat → Nat → Bool :=
  if s.ioBackendKind = .kqueue then
    keventDelete (s.fdw w).fd s.filters (kqueueChanges (s.fdw w).events)
  else s.filters

/-- The kernel no longer watches for the waiter. -/
abbrev unwatch (w : FdWaiterId) : Rt :=
  { s with interest := s.interestWithout w, filters := s.filtersWithout w }

/-- A descriptor waiter is deactivated, its conflict reserved, and its task woken. -/
def wakeFd (w : FdWaiterId) (items : List TaskId) (rc : Rc) (ready : Nat) : Rt :=
  { s with
    fdw := Function.update s.fdw w { s.fdw w with state := .readyReserved }
    fdWaitingCount := s.fdWaitingCount - 1
    suppressed := s.suppressed || s.fdWaitingCount == 0
    timers := { s.timers with items := items }
    task := Function.update s.task (s.fdw w).task { s.task (s.fdw w).task with
      wakeNs := 0, fdInTimer := false, fdResult := rc, fdReadyEvents := ready, state := .ready }
    runq := s.runq.push (s.fdw w).task }

/-! ## Creation and destruction -/

/-- A ready task is taken out of the run queue for good. -/
def killReady (t : TaskId) : Rt :=
  { s with
    runq := (s.runq.remove t).2
    task := Function.update s.task t { s.task t with state := .dead }
    liveCount := s.liveCount - 1
    completedCount := s.completedCount + 1
    suppressed := s.suppressed || s.runq.count == 0 || s.liveCount == 0 }

/-- The handle of a dead task is completed; its joiners are still queued. -/
def completeHandle (h : HandleId) (cancelled : Bool) : Rt :=
  s.modHandle h fun k => { k with
    completed := true, task := none, joinResult := if cancelled then .cancelled else .ok
    status := if cancelled then .cancelled else .done }

/-- Unregister and free a handle. -/
def dropHandle (h : HandleId) : Rt :=
  { s with
    handles := s.handles.erase h
    frees := Function.update s.frees (.handle h) (s.frees (.handle h) + 1) }

/-- A dead task is unregistered and freed, with the waiter it may still have. -/
def reap (t : TaskId) : Rt :=
  match (s.task t).fdWaiter with
  | none =>
    { s with
      allTasks := s.allTasks.erase t
      task := Function.update s.task t { s.task t with selectWaiters := [], selectWaiterCount := 0 }
      frees := Function.update s.frees (.task t) (s.frees (.task t) + 1) }
  | some w =>
    { s with
      allTasks := s.allTasks.erase t
      fdWaiters := s.fdWaiters.erase w
      fdw := Function.update s.fdw w { s.fdw w with state := .removed }
      task := Function.update s.task t { s.task t with
        selectWaiters := [], selectWaiterCount := 0, fdWaiter := none, fdInTimer := false }
      frees := Function.update (Function.update s.frees (.fdWaiter w) (s.frees (.fdWaiter w) + 1))
        (.task t) (s.frees (.task t) + 1) }

/-- An object is made and freed again at once. -/
def waste (mk : Nat → Obj) : Rt :=
  { s with
    nextAddr := s.nextAddr + 1
    made := Function.update s.made (mk s.nextAddr) true
    frees := Function.update s.frees (mk s.nextAddr) (s.frees (mk s.nextAddr) + 1) }

/-- A task that could not be given its context; its record `k` and its identifier
are lost. -/
def wasteTask (k : Task) (nextId : Int) : Rt :=
  { s.waste .task with
    task := Function.update s.task s.nextAddr k
    nextId := nextId }

/-- A handle whose task could not be made. -/
def wasteHandle : Rt :=
  { s.waste .handle with
    handle := Function.update s.handle s.nextAddr { released := true } }

/-- A task without a handle is made and appended to the run queue. -/
def spawn : Rt :=
  { s with
    nextAddr := s.nextAddr + 1
    made := Function.update s.made (.task s.nextAddr) true
    nextId := bumpId s.nextId
    task := Function.update s.task s.nextAddr { id := s.nextId }
    runq := s.runq.push s.nextAddr
    allTasks := s.nextAddr :: s.allTasks
    liveCount := s.liveCount + 1 }

/-- A handle and its task are made together. -/
def spawnHandle : Rt :=
  { s with
    nextAddr := s.nextAddr + 2
    made := Function.update (Function.update s.made (.handle s.nextAddr) true)
      (.task (s.nextAddr + 1)) true
    nextId := bumpId s.nextId
    handles := s.nextAddr :: s.handles
    handle := Function.update s.handle s.nextAddr { task := some (s.nextAddr + 1) }
    task := Function.update s.task (s.nextAddr + 1) { id := s.nextId, handle := some s.nextAddr }
    runq := s.runq.push (s.nextAddr + 1)
    allTasks := (s.nextAddr + 1) :: s.allTasks
    liveCount := s.liveCount + 1 }

/-- A channel is made and registered. -/
def newChan (elemSize capacity : Nat) : Rt :=
  { s with
    nextAddr := s.nextAddr + 1
    made := Function.update s.made (.chan s.nextAddr) true
    chan := Function.update s.chan s.nextAddr
      { elemSize := elemSize, capacity := capacity
        buffer := List.replicate (elemSize * capacity) 0 }
    channels := s.nextAddr :: s.channels }

/-- A channel nobody waits on is unregistered and freed. -/
def dropChan (ch : ChanId) : Rt :=
  { s with
    channels := s.channels.erase ch
    chan := Function.update s.chan ch {}
    frees := Function.update s.frees (.chan ch) (s.frees (.chan ch) + 1) }

/-! ## Waiters -/

/-- The waiter of one channel case is made and linked. -/
def addWaiter (t : TaskId) (i : Nat) (k : SelectCase) : Rt :=
  let x : SelectWaiter :=
    { task := t, ch := k.ch.getD 0, op := k.op, value := k.value.getD 0, index := i, active := true }
  { s with
    nextAddr := s.nextAddr + 1
    made := Function.update s.made (.selectWaiter s.nextAddr) true
    selw := Function.update s.selw s.nextAddr x
    selectq := Function.update s.selectq x.ref ((s.selectq x.ref).push s.nextAddr)
    task := Function.update s.task t { s.task t with
      selectWaiters := s.nextAddr :: (s.task t).selectWaiters
      selectWaiterCount := (s.task t).selectWaiterCount + 1 } }

/-- The waiters registered so far are unlinked again. -/
def abandonSelect (t : TaskId) : Rt :=
  { s.dropWaiters (s.task t).selectWaiters with
    task := Function.update s.task t { s.task t with
      selectWaiters := [], selectWaiterCount := 0 } }

/-- The resumed task frees its reserved waiter. -/
def finishFd (t : TaskId) (w : FdWaiterId) : Rt :=
  { s with
    fdWaiters := s.fdWaiters.erase w
    fdw := Function.update s.fdw w { s.fdw w with state := .removed }
    task := Function.update s.task t { s.task t with fdWaiter := none }
    frees := Function.update s.frees (.fdWaiter w) (s.frees (.fdWaiter w) + 1) }

/-- A waiter that could not be registered is freed. -/
def wasteFd (x : FdWaiter) : Rt :=
  { s.waste .fdWaiter with
    fdw := Function.update s.fdw s.nextAddr { x with state := .removed } }

/-! ## Parking -/

/-- The queue of a wait of the given kind. -/
def chanQueue (kind : ChanWaitKind) (ch : ChanId) : WaitqRef :=
  if kind = .send then .senders ch else .receivers ch

def parkChan (t : TaskId) (ch : ChanId) (kind : ChanWaitKind) (value : Addr) : Rt :=
  { s with
    task := Function.update s.task t { s.task t with
      chanWaitKind := kind, chanWaitCh := some ch, chanValue := some value, chanResult := .ok
      state := .waitingChan }
    waitq := Function.update s.waitq (chanQueue kind ch) ((s.waitq (chanQueue kind ch)).push t)
    channelWaitingCount := s.channelWaitingCount + 1 }

def parkJoin (t : TaskId) (h : HandleId) : Rt :=
  { s with
    task := Function.update s.task t { s.task t with
      joinWaitingOn := some h, joinResult := .ok, state := .waitingJoin }
    waitq := Function.update s.waitq (.joiners h) ((s.waitq (.joiners h)).push t)
    joinWaitingCount := s.joinWaitingCount + 1 }

def parkSleep (t : TaskId) (timers : Timers) (wakeNs : Nat) : Rt :=
  { s with
    task := Function.update s.task t { s.task t with
      wakeNs := wakeNs, timerSeq := s.timers.nextSeq, state := .sleeping }
    timers := timers }

def parkYield (t : TaskId) : Rt :=
  { s with
    task := Function.update s.task t { s.task t with state := .ready }
    runq := s.runq.push t }

/-- Enter `WAITING_SELECT` without a timer. -/
def parkSelect (t : TaskId) : Rt :=
  { s with
    task := Function.update s.task t { s.task t with
      state := .waitingSelect, selectCountedWaiting := true }
    channelWaitingCount := s.channelWaitingCount + 1 }

/-- Enter `WAITING_SELECT` with the timer of the case at `index`. -/
def parkSelectTimed (t : TaskId) (timers : Timers) (wakeNs index : Nat) : Rt :=
  { s with
    task := Function.update s.task t { s.task t with
      wakeNs := wakeNs, timerSeq := s.timers.nextSeq, selectIndex := index, selectInTimer := true
      state := .waitingSelect, selectCountedWaiting := true }
    timers := timers
    channelWaitingCount := s.channelWaitingCount + 1 }

/-- A descriptor waiter is made, linked and parked on. -/
def parkFd (t : TaskId) (timers : Timers) (wakeNs : Nat) (x : FdWaiter) : Rt :=
  { s with
    nextAddr := s.nextAddr + 1
    made := Function.update s.made (.fdWaiter s.nextAddr) true
    fdw := Function.update s.fdw s.nextAddr { x with task := t, state := .active }
    fdWaiters := s.nextAddr :: s.fdWaiters
    fdWaitingCount := s.fdWaitingCount + 1
    task := Function.update s.task t { s.task t with
      wakeNs := wakeNs, timerSeq := s.timers.nextSeq, fdWaiter := some s.nextAddr
      fdResult := .ok, fdReadyEvents := 0, fdInTimer := true, state := .waitingFd }
    timers := timers }

/-- The function of a running task has returned. -/
def die (t : TaskId) : Rt :=
  { s with
    task := Function.update s.task t { s.task t with state := .dead }
    liveCount := s.liveCount - 1
    completedCount := s.completedCount + 1
    suppressed := s.suppressed || s.liveCount == 0 }

/-- The head of the run queue gets a processor. -/
def dispatch (t : TaskId) (q : Queue TaskId) : Rt :=
  { s with
    runq := q
    task := Function.update s.task t { s.task t with state := .running }
    runningTasks := s.runningTasks + 1 }

/-- The processor is given back. -/
def leave : Rt :=
  { s with
    runningTasks := s.runningTasks - 1
    suppressed := s.suppressed || s.runningTasks == 0 }

end Rt

open Rt

/-- A copy of a value, as opposed to the end of a call. -/
def Event.IsTransfer : Event → Prop
  | .push .. | .pop .. | .handoff .. => True
  | .done .. | .ret .. => False

/-- The channel of a select queue. -/
def SelectqRef.chan : SelectqRef → ChanId
  | .senders ch | .receivers ch => ch

/-- A record that keeps its deadline and its number keeps its key. -/
theorem Rt.timerKey_of_update {s s' : Rt} {t : TaskId} {k : Task}
    (hs : s'.task = Function.update s.task t k) (hw : k.wakeNs = (s.task t).wakeNs)
    (hn : k.timerSeq = (s.task t).timerSeq) : s'.timerKey = s.timerKey := by
  funext u
  rw [timerKey, timerKey, hs]
  by_cases hu : u = t
  · subst hu
    rw [Function.update_self, hw, hn]
  · rw [Function.update_of_ne hu]

/-- The timers are in the order of a heap. -/
def Rt.Heaped (s : Rt) : Prop := Heap.Ordered s.timerKey s.timers.items

/-- `items` are the timers without that of `t`. -/
structure Rt.Disarms (s : Rt) (t : TaskId) (items : List TaskId) : Prop where
  perm : s.timers.items.Perm (t :: items)
  ordered : s.Heaped → Heap.Ordered s.timerKey items

theorem Rt.Disarms.congr {s s' : Rt} {t : TaskId} {items : List TaskId} (h : s.Disarms t items)
    (hk : s'.timerKey = s.timerKey) (ht : s'.timers = s.timers) : s'.Disarms t items where
  perm := ht ▸ h.perm
  ordered ho := by
    rw [hk]
    refine h.ordered ?_
    rwa [Heaped, hk, ht] at ho

/-- `timers` are the timers with one of `t` at `wakeNs`. -/
structure Rt.Arms (s : Rt) (t : TaskId) (timers : Timers) (wakeNs : Nat) : Prop where
  perm : timers.items.Perm (t :: s.timers.items)
  ordered : t ∉ s.timers.items → s.Heaped →
    Heap.Ordered (Function.update s.timerKey t (toLex (wakeNs, s.timers.nextSeq))) timers.items

theorem Rt.Arms.congr {s s' : Rt} {t : TaskId} {timers : Timers} {wakeNs : Nat}
    (h : s.Arms t timers wakeNs) (hk : s'.timerKey = s.timerKey) (ht : s'.timers = s.timers) :
    s'.Arms t timers wakeNs where
  perm := ht ▸ h.perm
  ordered hmem ho := by
    rw [hk, ht]
    refine h.ordered (ht ▸ hmem) ?_
    rwa [Heaped, hk, ht] at ho

/-- The timers that may remain once `t` is no longer parked in its select. -/
def Rt.TimersAfter (s : Rt) (t : TaskId) (items : List TaskId) : Prop :=
  if (s.task t).selectInTimer then s.Disarms t items else items = s.timers.items

theorem Rt.TimersAfter.congr {s s' : Rt} {t : TaskId} {items : List TaskId}
    (h : s.TimersAfter t items) (hk : s'.task = s.task) (ht : s'.timers = s.timers) :
    s'.TimersAfter t items := by
  have hkey : s'.timerKey = s.timerKey := by
    funext u
    rw [timerKey, timerKey, hk]
  unfold TimersAfter at h ⊢
  rw [hk]
  split
  · next hin =>
      rw [if_pos hin] at h
      exact h.congr hkey ht
  · next hin =>
      rw [if_neg hin] at h
      rw [h, ht]

theorem Rt.TimersAfter.perm {s : Rt} {t : TaskId} {items : List TaskId} (h : s.TimersAfter t items) :
    if (s.task t).selectInTimer then s.timers.items.Perm (t :: items)
    else items = s.timers.items := by
  unfold TimersAfter at h
  split at h
  · next hin => rw [if_pos hin]; exact h.perm
  · next hin => rw [if_neg hin]; exact h

/-- The first waiter of a queue of the closed channel `ch` is woken. -/
inductive Drain (ch : ChanId) (s : Rt) : Rt → Prop where
  | task (r t) : r.chan? = some ch → (s.chan ch).closed = true →
      (s.waitq r).items.head? = some t → Drain ch s (s.wakeChan r t .closed)
  | select (r w items) : r.chan = ch → (s.chan ch).closed = true →
      (s.selectq r).items.head? = some w → (s.task (s.selw w).task).state = .waitingSelect →
      s.TimersAfter (s.selw w).task items → Drain ch s
        (s.wakeSelect (s.selw w).task items (s.selw w).role .closed (s.selw w).index)

/-- The elementary changes that touch no channel record and register nothing; they
start and stop no task and let none die. -/
inductive Shift (s : Rt) : Rt → Prop where
  | quiet (fdGenerations ioPolling interest filters tape) :
      Shift s { s with
        fdGenerations := fdGenerations, ioPolling := ioPolling, interest := interest
        filters := filters, tape := tape }
  | drain {ch s'} : Drain ch s s' → Shift s s'
  | timeout (t items) : t ∈ s.allTasks → (s.task t).state = .waitingSelect →
      (s.task t).selectInTimer = true → s.Disarms t items →
      Shift s (s.wakeSelect t items .neither .ok (s.task t).selectIndex)
  | wakeJoin (h t) : h ∈ s.handles → (s.handle h).completed = true →
      (s.waitq (.joiners h)).items.head? = some t →
      Shift s (s.wakeJoin h t (s.handle h).joinResult)
  | wakeSleep (t items) : t ∈ s.allTasks → (s.task t).state = .sleeping →
      s.Disarms t items → Shift s (s.wakeSleep t items)
  | wakeFd (w items rc ready) : w ∈ s.fdWaiters → (s.fdw w).state = .active →
      s.Disarms (s.fdw w).task items → Shift s (s.wakeFd w items rc ready)
  | completeHandle (h t) : h ∈ s.handles → t ∈ s.allTasks → (s.task t).state = .dead →
      (s.handle h).task = some t → Shift s (s.completeHandle h (s.handle h).cancelRequested)
  | dropHandle (h) : h ∈ s.handles → (s.handle h).completed = true →
      (s.handle h).released = true → (s.waitq (.joiners h)).items = [] → Shift s (s.dropHandle h)
  | status (h status) : (s.handle h).completed = false →
      Shift s (s.modHandle h fun k => { k with status := status })
  | request (h) : Shift s (s.modHandle h fun k => { k with cancelRequested := true })
  | release (h) : h ∈ s.handles → (s.handle h).completed = false →
      Shift s (s.modHandle h fun k => { k with released := true })
  | releaseDrop (h) : s.Live (.handle h) → (s.handle h).released = false →
      (s.handle h).completed = true → (s.handle h).task = none →
      (s.waitq (.joiners h)).items = [] →
      Shift s ((s.modHandle h fun k => { k with released := true }).dropHandle h)
  | waste (mk) : (∀ n, (mk n).addr = n) → (∀ h n, mk n ≠ .handle h) → Shift s (s.waste mk)
  | wasteTask (k nextId) : Shift s (s.wasteTask k nextId)
  | wasteHandle : Shift s s.wasteHandle
  | wasteFd (x) : Shift s (s.wasteFd x)

/-- The elementary changes of the sections, with the traffic of the channels. -/
inductive Move (s : Rt) : Rt → Prop where
  | shift {s'} : Shift s s' → Move s s'
  | write (a v) : Move s (s.writeMem a v)
  | note (e) : e.IsTransfer → Move s (s.record e)
  | ring (ch ring) : Move s (s.modChan ch fun k => { k with toRingBuffer := ring })
  | deliver (r t) : r.chan? ≠ none → t ∈ (s.waitq r).items → Move s (s.wakeChan r t .ok)
  | deliverSelect (r w items) : w ∈ (s.selectq r).items →
      (s.task (s.selw w).task).state = .waitingSelect → s.TimersAfter (s.selw w).task items →
      Move s (s.wakeSelect (s.selw w).task items (s.selw w).role .ok (s.selw w).index)
  | close (ch) : Move s (s.modChan ch fun k => { k with closed := true })
  | dropChan (ch) : (s.waitq (.senders ch)).items = [] → (s.waitq (.receivers ch)).items = [] →
      (s.selectq (.senders ch)).items = [] → (s.selectq (.receivers ch)).items = [] →
      s.made (.chan ch) = true → Move s (s.dropChan ch)

/-- A task or a channel is made and registered. -/
inductive Create (s : Rt) : Rt → Prop where
  | task : Create s s.spawn
  | handle : Create s s.spawnHandle
  | chan (elemSize capacity) : Create s (s.newChan elemSize capacity)

/-- Nothing the dead task's handle still waits for. -/
def Settled (s : Rt) (t : TaskId) : Prop :=
  ∀ h, (s.task t).handle = some h → h ∈ s.handles → (s.handle h).completed = true ∧
    (s.waitq (.joiners h)).items = [] ∧ (s.handle h).released = false

/-- The changes by which the handle of a dead task is completed. -/
inductive HandleShift (s : Rt) : Rt → Prop where
  | complete (h t) : h ∈ s.handles → t ∈ s.allTasks → (s.task t).state = .dead →
      (s.handle h).task = some t → HandleShift s (s.completeHandle h (s.handle h).cancelRequested)
  | wakeJoin (h t) : h ∈ s.handles → (s.handle h).completed = true →
      (s.waitq (.joiners h)).items.head? = some t →
      HandleShift s (s.wakeJoin h t (s.handle h).joinResult)
  | drop (h) : h ∈ s.handles → (s.handle h).completed = true → (s.handle h).released = true →
      (s.waitq (.joiners h)).items = [] → HandleShift s (s.dropHandle h)

/-- An object is made and freed again. -/
inductive Waste (s : Rt) : Rt → Prop where
  | tape (tape) : Waste s { s with tape := tape }
  | object (mk) : (∀ n, (mk n).addr = n) → (∀ h n, mk n ≠ .handle h) → Waste s (s.waste mk)
  | task (k nextId) : Waste s (s.wasteTask k nextId)
  | handle : Waste s s.wasteHandle

/-- A dead task: its handle is completed, its joiners are woken, and it goes. -/
inductive Buries (t : TaskId) (s : Rt) : Rt → Prop where
  | mk {s'} : Relation.ReflTransGen HandleShift s s' → t ∈ s'.allTasks →
      (s'.task t).state = .dead → Settled s' t → Buries t s (s'.reap t)

/-- What a cancellation request does to the task it finds. -/
inductive Cancels (t : TaskId) (s : Rt) : Rt → Prop where
  | nothing : (s.task t).state = .running → Cancels t s s
  | sleep (items) : t ∈ s.allTasks → (s.task t).state = .sleeping →
      s.Disarms t items → Cancels t s (s.wakeSleep t items)
  | chan (r) : t ∈ (s.waitq r).items → r.chan? ≠ none → Cancels t s (s.cancelChan r t)
  | select (items) : t ∈ s.allTasks → (s.task t).state = .waitingSelect →
      s.TimersAfter t items →
      Cancels t s (s.wakeSelect t items .neither .cancelled (s.task t).selectIndex)
  | fd (w items) : w ∈ s.fdWaiters → (s.fdw w).state = .active → (s.fdw w).task = t →
      s.Disarms t items →
      Cancels t s ((s.unwatch w).wakeFd w items .cancelled 0)
  | join (h) : t ∈ (s.waitq (.joiners h)).items → Cancels t s (s.cancelJoin h t)
  | destroy {s'} : t ∈ s.allTasks → (s.task t).state = .ready → Buries t (s.killReady t) s' →
      Cancels t s s'

/-- The changes by which a running task enters the waiters of its select. -/
inductive Register (t : TaskId) (s : Rt) : Rt → Prop where
  | quiet (tape) : Register t s { s with tape := tape }
  | prepare (index) : (s.task t).selectWaiters = [] → Register t s (s.modTask t fun k => { k with
      selectWaiters := [], selectWaiterCount := 0, selectResult := .ok, selectIndex := index
      selectInTimer := false, selectCountedWaiting := false })
  | setIndex (index) : Register t s (s.modTask t fun k => { k with selectIndex := index })
  | add (i k) : (k.op = .send ∨ k.op = .recv) → k.ch.getD 0 ∈ s.channels →
      Register t s (s.addWaiter t i k)
  | abandon : Register t s (s.abandonSelect t)

/-- A running task leaves the processor for the structure its new state names. -/
inductive Park (t : TaskId) (s : Rt) : Rt → Prop where
  | chan (ch kind value) : (s.task t).selectWaiters = [] → kind ≠ .none → ch ∈ s.channels →
      Park t s (s.parkChan t ch kind value)
  | join (h) : (s.task t).selectWaiters = [] → h ∈ s.handles → (s.handle h).completed = false →
      Park t s (s.parkJoin t h)
  | sleep (timers wakeNs) : (s.task t).selectWaiters = [] →
      s.Arms t timers wakeNs → Park t s (s.parkSleep t timers wakeNs)
  | yield : (s.task t).selectWaiters = [] → Park t s (s.parkYield t)
  | select : (s.task t).selectInTimer = false → Park t s (s.parkSelect t)
  | selectTimed (timers wakeNs index) : s.Arms t timers wakeNs →
      Park t s (s.parkSelectTimed t timers wakeNs index)
  | fd (timers wakeNs x) : (s.task t).selectWaiters = [] → (s.task t).fdWaiter = none →
      s.Arms t timers wakeNs → Park t s (s.parkFd t timers wakeNs x)

/-- What ends waits for descriptors, besides a cancellation. -/
inductive FdCause where
  | ready (batch : List ReadyEvent) | expiry (nowNs : Nat) | close (fd : Nat) | halt

/-- The waiter is of the current generation of its descriptor. -/
def Rt.UpToDateAt (s : Rt) (x : FdWaiter) : Prop :=
  ∃ g ∈ s.fdGenerationFind x.fd, g.generation = x.generation

/-- The result and the events that a wait ends with. -/
def FdCause.Gives (s : Rt) (x : FdWaiter) (rc : Rc) (ready : Nat) : FdCause → Prop
  | .ready batch => ∃ e ∈ batch, e.fd = x.fd ∧
      ((rc = .ok ∧ ready ≠ 0 ∧ ready &&& x.events = ready) ∨
        (rc = .invalid ∧ ready = 0 ∧ e.bits &&& pollNval ≠ 0) ∨
        (rc = .closed ∧ ready = 0 ∧ ¬s.UpToDateAt x))
  | .expiry nowNs => rc = .timeout ∧ ready = 0 ∧ (s.task x.task).wakeNs ≤ nowNs
  | .close fd => x.fd = fd ∧ rc = .closed ∧ ready = 0
  | .halt => rc = .cancelled ∧ ready = 0

/-- The changes by which readiness, timeouts and closing end the waits for descriptors. A
missing generation is entered by whoever asks for it. -/
inductive FdShift (k : FdCause) (s : Rt) : Rt → Prop where
  | tape (tape) : FdShift k s { s with tape := tape }
  | insert (g) : s.fdGenerationFind g.fd = none → g.closing = false → g.adopted = false →
      FdShift k s { s with fdGenerations := g :: s.fdGenerations }
  | wake (w items rc ready) : w ∈ s.fdWaiters → (s.fdw w).state = .active →
      s.Disarms (s.fdw w).task items → k.Gives s (s.fdw w) rc ready →
      FdShift k s ((s.unwatch w).wakeFd w items rc ready)

/-- The changes that a worker makes in its loop. -/
inductive Tick (k : FdCause) (s : Rt) : Rt → Prop where
  | fd {s'} : FdShift k s s' → Tick k s s'
  | polling (ioPolling) : Tick k s { s with ioPolling := ioPolling }
  | timeout (t items) : t ∈ s.allTasks → (s.task t).state = .waitingSelect →
      (s.task t).selectInTimer = true → s.Disarms t items →
      (∃ nowNs, k = .expiry nowNs ∧ (s.task t).wakeNs ≤ nowNs) →
      Tick k s (s.wakeSelect t items .neither .ok (s.task t).selectIndex)
  | wakeSleep (t items) : t ∈ s.allTasks → (s.task t).state = .sleeping →
      s.Disarms t items →
      (∃ nowNs, k = .expiry nowNs ∧ (s.task t).wakeNs ≤ nowNs) →
      Tick k s (s.wakeSleep t items)

/-- The owner of a handle gives it up; a completed one is freed at once. -/
inductive Releases (x : HandleId) (s : Rt) : Rt → Prop where
  | kept : x ∈ s.handles → (s.handle x).completed = false →
      Releases x s (s.modHandle x fun k => { k with released := true })
  | freed : s.Live (.handle x) → (s.handle x).released = false → (s.handle x).completed = true →
      (s.handle x).task = none → (s.waitq (.joiners x)).items = [] →
      Releases x s ((s.modHandle x fun k => { k with released := true }).dropHandle x)

abbrev Shifts : Rt → Rt → Prop := Relation.ReflTransGen Shift

abbrev HandleShifts : Rt → Rt → Prop := Relation.ReflTransGen HandleShift

abbrev Wastes : Rt → Rt → Prop := Relation.ReflTransGen Waste

abbrev FdShifts (k : FdCause) : Rt → Rt → Prop := Relation.ReflTransGen (FdShift k)

abbrev Ticks (k : FdCause) : Rt → Rt → Prop := Relation.ReflTransGen (Tick k)

/-- Finitely many elementary changes. -/
abbrev Moves : Rt → Rt → Prop := Relation.ReflTransGen Move

abbrev Registers (t : TaskId) : Rt → Rt → Prop := Relation.ReflTransGen (Register t)

variable {s s' : Rt} {x : HandleId} {k : FdCause}

theorem HandleShift.shift (hm : HandleShift s s') : Shift s s' := by
  cases hm with
  | complete h t hh ht hd hht => exact .completeHandle h t hh ht hd hht
  | wakeJoin h t hh hc ht => exact .wakeJoin h t hh hc ht
  | drop h hh hc hr hj => exact .dropHandle h hh hc hr hj

theorem HandleShifts.shifts (hm : HandleShifts s s') : Shifts s s' :=
  Relation.ReflTransGen.mono (fun _ _ h => h.shift) s s' hm

theorem Waste.shift (hm : Waste s s') : Shift s s' := by
  cases hm with
  | tape tape => exact .quiet _ _ _ _ tape
  | object mk h1 h2 => exact .waste mk h1 h2
  | task k nextId => exact .wasteTask k nextId
  | handle => exact .wasteHandle

theorem Wastes.shifts (hm : Wastes s s') : Shifts s s' :=
  Relation.ReflTransGen.mono (fun _ _ h => h.shift) s s' hm

theorem Releases.shift (hr : Releases x s s') : Shift s s' := by
  cases hr with
  | kept hx hc => exact .release x hx hc
  | freed hl hr hc ht hj => exact .releaseDrop x hl hr hc ht hj

theorem FdShift.shifts (hm : FdShift k s s') : Shifts s s' := by
  cases hm with
  | tape tape => exact .single (.quiet _ _ _ _ tape)
  | insert g => exact .single (.quiet (g :: s.fdGenerations) _ _ _ _)
  | wake w items rc ready hw ha hp =>
      exact .tail (.single (.quiet s.fdGenerations s.ioPolling (s.interestWithout w)
        (s.filtersWithout w) s.tape)) (.wakeFd w items rc ready hw ha (hp.congr rfl rfl))

theorem FdShifts.shifts (hm : FdShifts k s s') : Shifts s s' := by
  induction hm with
  | refl => exact .refl
  | tail _ hm ih => exact ih.trans hm.shifts

theorem Tick.shifts (hm : Tick k s s') : Shifts s s' := by
  cases hm with
  | fd hm => exact hm.shifts
  | polling b => exact .single (.quiet _ b _ _ _)
  | timeout t items ht hs hin hp => exact .single (.timeout t items ht hs hin hp)
  | wakeSleep t items ht hs hp => exact .single (.wakeSleep t items ht hs hp)

theorem Ticks.shifts (hm : Ticks k s s') : Shifts s s' := by
  induction hm with
  | refl => exact .refl
  | tail _ hm ih => exact ih.trans hm.shifts

theorem FdShifts.ticks (hm : FdShifts k s s') : Ticks k s s' :=
  Relation.ReflTransGen.mono (fun _ _ h => Tick.fd h) s s' hm

end Microthread
