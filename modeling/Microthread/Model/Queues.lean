import Mathlib.Data.Prod.Lex
import Microthread.Model.Types
import Microthread.Foundation.Heap

/-!
# Run queue, wait queues and timers

`run_queue.c`, `wait_queue.c` and `timer.c`. Waking a sleeping OS thread
(`mt_notify_one`, `mt_notify_all`) changes none of this state.
-/

namespace Microthread

open Foundation

def nsPerMs : Nat := 1000000
def uint64Max : Nat := 2 ^ 64 - 1

namespace Rt

variable (s : Rt)

/-! ## `run_queue.c` -/

def runqPush (t : TaskId) : Rt := { s with runq := s.runq.push t }

def runqPop : Option (TaskId × Rt) :=
  s.runq.pop.map fun (t, q) => (t, { s with runq := q })

def runqRemove (t : TaskId) : Bool × Rt :=
  let (removed, q) := s.runq.remove t
  if removed then (true, { s with runq := q }.guarded s.runq.count) else (false, s)

/-! ## `wait_queue.c` -/

def chanWaitqPush (r : WaitqRef) (t : TaskId) : Rt := s.setWaitq r ((s.waitq r).push t)

def chanWaitqPop (r : WaitqRef) : Option (TaskId × Rt) :=
  (s.waitq r).pop.map fun (t, q) => (t, (s.setWaitq r q).guarded (s.waitq r).count)

def waitqRemove (r : WaitqRef) (t : TaskId) : Bool × Rt :=
  let (removed, q) := (s.waitq r).remove t
  if removed then (true, (s.setWaitq r q).guarded (s.waitq r).count) else (false, s)

def selectWaitqPush (r : SelectqRef) (w : WaiterId) : Rt :=
  (s.modSelw w fun x => { x with active := true }).setSelectq r ((s.selectq r).push w)

def selectWaitqPop (r : SelectqRef) : Option (WaiterId × Rt) :=
  (s.selectq r).pop.map fun (w, q) =>
    (w, ((s.modSelw w fun x => { x with active := false }).setSelectq r q).guarded
      (s.selectq r).count)

def selectWaitqRemove (r : SelectqRef) (w : WaiterId) : Bool × Rt :=
  let (removed, q) := (s.selectq r).remove w
  if removed then
    (true, ((s.modSelw w fun x => { x with active := false }).setSelectq r q).guarded
      (s.selectq r).count)
  else (false, s)

/-! ## `timer.c` -/

def timerLess (a b : TaskId) : Bool :=
  if (s.task a).wakeNs ≠ (s.task b).wakeNs then (s.task a).wakeNs < (s.task b).wakeNs
  else (s.task a).timerSeq < (s.task b).timerSeq

/-- The key by which `mt_timer_less` compares. -/
def timerKey (t : TaskId) : Nat ×ₗ Nat := toLex ((s.task t).wakeNs, (s.task t).timerSeq)

/-- Doubling until the request fits. A 64-bit capacity doubles at most 64 times. -/
def growCap (needed : Nat) : Nat → Nat → Nat
  | 0, cap => cap
  | fuel + 1, cap => if cap < needed then growCap needed fuel (cap * 2) else cap

def timerReserve (needed : Nat) : Rc × Rt :=
  if s.timers.cap ≥ needed then (.ok, s)
  else
    let newCap := growCap needed 64 (if s.timers.cap ≠ 0 then s.timers.cap * 2 else 16)
    match s.ask with
    | (true, s) => (.ok, { s with timers := { s.timers with cap := newCap } })
    | (false, s) => (.nomem, s)

def timerPushState (t : TaskId) (deadlineNs : Nat) (state : TaskState) : Rc × Rt :=
  match s.timerReserve (s.timers.items.length + 1) with
  | (.ok, s) =>
    let s := s.modTask t fun k =>
      { k with wakeNs := deadlineNs, timerSeq := s.timers.nextSeq, state := state }
    (.ok, { s with
      timers := { s.timers with
        items := Heap.push s.timerLess s.timers.items t
        nextSeq := (s.timers.nextSeq + 1) % 2 ^ 64 } })
  | (_, s) => (.nomem, s)

def timerPush (t : TaskId) (deadlineNs : Nat) : Rc × Rt :=
  s.timerPushState t deadlineNs .sleeping

def timerPop : Option (TaskId × Rt) :=
  (Heap.pop s.timerLess s.timers.items).map fun (t, items) =>
    (t, { s with timers := { s.timers with items := items } }.modTask t fun k =>
      { k with wakeNs := 0 })

def timerRemove (t : TaskId) : Bool × Rt :=
  match s.timers.items.idxOf? t with
  | none => (false, s)
  | some i =>
    (true, { s with
      timers := { s.timers with items := Heap.removeAt s.timerLess s.timers.items i } }.modTask t
        fun k => { k with wakeNs := 0 })

def timerPeek : Option TaskId := s.timers.items.head?

/-- Saturating deadline of `mt_deadline_from_timeout`, `mt_sleep_ms` and `mt_select`. -/
def deadlineFromTimeout (nowNs timeoutMs : Nat) : Nat :=
  let timeoutNs := if timeoutMs > uint64Max / nsPerMs then uint64Max else timeoutMs * nsPerMs
  if uint64Max - nowNs < timeoutNs then uint64Max else nowNs + timeoutNs

end Rt

end Microthread
