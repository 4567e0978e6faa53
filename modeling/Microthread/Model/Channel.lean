import Microthread.Model.Task

/-!
# Channels and select

`channel.c`. The blocking and the nonblocking operation of each direction are two
functions in the source and here. What they share is stated in `Invariant.Channel`.

`mt_select` runs in several locked sections. `selectScan` is its validation,
each trial is one nonblocking operation, and `selectRegister` is the section
that enters a waiter for every channel case and parks.
-/

namespace Microthread

/-- `SIZE_MAX` -/
def sizeMax : Nat := 2 ^ 64 - 1

/-- What the validation loop of `mt_select` collects. -/
structure SelectPlan where
  defaultIndex : Option Nat := none
  timeoutIndex : Option Nat := none
  timeoutMs : Nat := 0
  channelCases : Nat := 0
  deriving DecidableEq, Repr

def SelectCase.isChannel (k : SelectCase) : Bool := k.op == .recv || k.op == .send

namespace Rt

variable (s : Rt)

/-! ## Buffer -/

/-- The address a parked sender or receiver passed; set whenever it is parked. -/
def chanValueOf (t : TaskId) : Addr := ((s.task t).chanValue).getD 0

def chanBufferPush (ch : ChanId) (v : List Byte) : Rt :=
  s.modChan ch fun k => { k with toRingBuffer := k.toRingBuffer.push v }

def chanBufferPop (ch : ChanId) (out : Addr) : List Byte × Rt :=
  let (v, ring) := (s.chan ch).toRingBuffer.pop
  (v, (s.writeMem out v).modChan ch fun k => { k with toRingBuffer := ring })

def chanReadyWaiter (t : TaskId) (result : Rc) : Rt := s.taskCompleteChannelWait t result

def chanFillBufferFromWaitingSender (ch : ChanId) : Rt :=
  let k := s.chan ch
  if k.closed || k.capacity == 0 || k.len ≥ k.capacity then s
  else
    match s.chanWaitqPop (.senders ch) with
    | some (t, s) =>
      let v := s.readMem (s.chanValueOf t) k.elemSize
      ((s.chanBufferPush ch v).record
        (.push ch (s.task t).call .plain (s.chanValueOf t) v)).chanReadyWaiter t .ok
    | none =>
      match s.selectWaitqPop (.senders ch) with
      | some (w, s) =>
        let v := s.readMem (s.selw w).value k.elemSize
        let c := (s.task (s.selw w).task).call
        ((s.chanBufferPush ch v).record
          (.push ch c .select (s.selw w).value v)).selectCompleteWaiter w .ok
      | none => s

/-- One drain loop of `mt_chan_wake_closed_waiters` over plain waiters. -/
def chanWakeClosedTasks (r : WaitqRef) : Nat → Rt → Rt
  | 0, s => s
  | fuel + 1, s =>
    match s.chanWaitqPop r with
    | none => s
    | some (t, s) => chanWakeClosedTasks r fuel (s.chanReadyWaiter t .closed)

/-- One drain loop over select waiters. Completing one unlinks its siblings, so
an iteration may shorten the queue by more than one. -/
def chanWakeClosedSelects (r : SelectqRef) : Nat → Rt → Rt
  | 0, s => s
  | fuel + 1, s =>
    match s.selectWaitqPop r with
    | none => s
    | some (w, s) => chanWakeClosedSelects r fuel (s.selectCompleteWaiter w .closed)

def chanWakeClosedWaiters (ch : ChanId) : Rt :=
  let s := chanWakeClosedTasks (.senders ch) (s.waitq (.senders ch)).items.length s
  let s := chanWakeClosedTasks (.receivers ch) (s.waitq (.receivers ch)).items.length s
  let s := chanWakeClosedSelects (.senders ch) (s.selectq (.senders ch)).items.length s
  chanWakeClosedSelects (.receivers ch) (s.selectq (.receivers ch)).items.length s

def chanRegister (ch : ChanId) : Rt := { s with channels := ch :: s.channels }

def chanUnregister (ch : ChanId) : Rt := { s with channels := s.channels.erase ch }

def chanCreate (elemSize capacity : Nat) : Option ChanId × Rt :=
  if elemSize = 0 || (decide (capacity > 0) && decide (elemSize > sizeMax / capacity)) then (none, s)
  else
    match s.ask with
    | (false, s) => (none, s)
    | (true, s) =>
      let (ch, s) := s.alloc .chan
      let (bufferOk, s) := if capacity > 0 then s.ask else (true, s)
      if !bufferOk then (none, s.free (.chan ch))
      else
        let s := s.modChan ch fun _ =>
          { elemSize := elemSize, capacity := capacity
            buffer := List.replicate (elemSize * capacity) 0 }
        (some ch, s.chanRegister ch)

/-! ## Send and receive -/

def chanSend (cur : Option TaskId) (c : CallId) (ch : ChanId) (value : Addr) : Outcome × Rt :=
  let k := s.chan ch
  if k.closed then (.ret .closed, s)
  else
    match s.chanWaitqPop (.receivers ch) with
    | some (t, s) =>
      let v := s.readMem value k.elemSize
      let s := (s.writeMem (s.chanValueOf t) v).record
        (.handoff ch c .plain value (s.task t).call (s.chanValueOf t) v)
      (.ret .ok, s.chanReadyWaiter t .ok)
    | none =>
      match s.selectWaitqPop (.receivers ch) with
      | some (w, s) =>
        let v := s.readMem value k.elemSize
        let s := (s.writeMem (s.selw w).value v).record
          (.handoff ch c .plain value (s.task (s.selw w).task).call (s.selw w).value v)
        (.ret .ok, s.selectCompleteWaiter w .ok)
      | none =>
        if k.capacity > 0 && k.len < k.capacity then
          let v := s.readMem value k.elemSize
          (.ret .ok, (s.chanBufferPush ch v).record (.push ch c .plain value v))
        else
          match cur with
          | none => (.ret .state, s)
          | some t =>
            (.park, (s.taskBlockOnChannel t ch .send value).chanWaitqPush (.senders ch) t)

def chanRecv (cur : Option TaskId) (c : CallId) (ch : ChanId) (out : Addr) : Outcome × Rt :=
  let k := s.chan ch
  if k.len > 0 then
    let (v, s) := s.chanBufferPop ch out
    (.ret .ok, (s.record (.pop ch c out v)).chanFillBufferFromWaitingSender ch)
  else
    match s.chanWaitqPop (.senders ch) with
    | some (t, s) =>
      if k.closed then (.ret .closed, s.chanReadyWaiter t .closed)
      else
        let v := s.readMem (s.chanValueOf t) k.elemSize
        let s := (s.writeMem out v).record
          (.handoff ch (s.task t).call .plain (s.chanValueOf t) c out v)
        (.ret .ok, s.chanReadyWaiter t .ok)
    | none =>
      match s.selectWaitqPop (.senders ch) with
      | some (w, s) =>
        if k.closed then (.ret .closed, s.selectCompleteWaiter w .closed)
        else
          let v := s.readMem (s.selw w).value k.elemSize
          let s := (s.writeMem out v).record
            (.handoff ch (s.task (s.selw w).task).call .select (s.selw w).value c out v)
          (.ret .ok, s.selectCompleteWaiter w .ok)
      | none =>
        if k.closed then (.ret .closed, s)
        else
          match cur with
          | none => (.ret .state, s)
          | some t =>
            (.park, (s.taskBlockOnChannel t ch .recv out).chanWaitqPush (.receivers ch) t)

/-- `kind` names the caller in the history: the API function or a case of `mt_select`. -/
def chanTrySend (c : CallId) (kind : SendKind) (ch : ChanId) (value : Addr) : Rc × Rt :=
  let k := s.chan ch
  if k.closed then (.closed, s)
  else
    match s.chanWaitqPop (.receivers ch) with
    | some (t, s) =>
      let v := s.readMem value k.elemSize
      let s := (s.writeMem (s.chanValueOf t) v).record
        (.handoff ch c kind value (s.task t).call (s.chanValueOf t) v)
      (.ok, s.chanReadyWaiter t .ok)
    | none =>
      match s.selectWaitqPop (.receivers ch) with
      | some (w, s) =>
        let v := s.readMem value k.elemSize
        let s := (s.writeMem (s.selw w).value v).record
          (.handoff ch c kind value (s.task (s.selw w).task).call (s.selw w).value v)
        (.ok, s.selectCompleteWaiter w .ok)
      | none =>
        if k.capacity > 0 && k.len < k.capacity then
          let v := s.readMem value k.elemSize
          (.ok, (s.chanBufferPush ch v).record (.push ch c kind value v))
        else (.wouldBlock, s)

def chanTryRecv (c : CallId) (ch : ChanId) (out : Addr) : Rc × Rt :=
  let k := s.chan ch
  if k.len > 0 then
    let (v, s) := s.chanBufferPop ch out
    (.ok, (s.record (.pop ch c out v)).chanFillBufferFromWaitingSender ch)
  else
    match s.chanWaitqPop (.senders ch) with
    | some (t, s) =>
      if k.closed then (.closed, s.chanReadyWaiter t .closed)
      else
        let v := s.readMem (s.chanValueOf t) k.elemSize
        let s := (s.writeMem out v).record
          (.handoff ch (s.task t).call .plain (s.chanValueOf t) c out v)
        (.ok, s.chanReadyWaiter t .ok)
    | none =>
      match s.selectWaitqPop (.senders ch) with
      | some (w, s) =>
        if k.closed then (.closed, s.selectCompleteWaiter w .closed)
        else
          let v := s.readMem (s.selw w).value k.elemSize
          let s := (s.writeMem out v).record
            (.handoff ch (s.task (s.selw w).task).call .select (s.selw w).value c out v)
          (.ok, s.selectCompleteWaiter w .ok)
      | none => (if k.closed then .closed else .wouldBlock, s)

/-! ## Select -/

/-- The validation loop; `none` is `MT_ERR_INVALID`. -/
def selectScan : List SelectCase → Nat → SelectPlan → Option SelectPlan
  | [], _, p => some p
  | k :: ks, i, p =>
    match k.op with
    | .recv | .send =>
      if k.ch.isNone || k.value.isNone then none
      else selectScan ks (i + 1) { p with channelCases := p.channelCases + 1 }
    | .default =>
      if p.defaultIndex.isSome then none
      else selectScan ks (i + 1) { p with defaultIndex := some i }
    | .timeout =>
      if p.timeoutIndex.isSome then none
      else selectScan ks (i + 1) { p with timeoutIndex := some i, timeoutMs := k.timeoutMs }
    | .unknown => none

def selectTryCase (c : CallId) (k : SelectCase) : Rc × Rt :=
  match k.op, k.ch, k.value with
  | .recv, some ch, some value => s.chanTryRecv c ch value
  | .send, some ch, some value => s.chanTrySend c .select ch value
  | _, _, _ => (.invalid, s)

/-- Allocate and link the waiter of one channel case. -/
def selectAddWaiter (t : TaskId) (i : Nat) (k : SelectCase) : Rt :=
  let (w, s) := s.alloc .selectWaiter
  let s := s.modSelw w fun _ =>
    { task := t, ch := k.ch.getD 0, op := k.op, value := k.value.getD 0, index := i }
  let s := s.modTask t fun x =>
    { x with selectWaiters := w :: x.selectWaiters, selectWaiterCount := x.selectWaiterCount + 1 }
  if k.op = .send then s.selectWaitqPush (.senders (k.ch.getD 0)) w
  else s.selectWaitqPush (.receivers (k.ch.getD 0)) w

/-- The registration loop. On a failed allocation everything linked so far is
unlinked again and the answer is `false`. -/
def selectAddWaiters (t : TaskId) : Nat → List SelectCase → Rt → Bool × Rt
  | _, [], s => (true, s)
  | i, k :: ks, s =>
    if k.isChannel then
      match s.ask with
      | (false, s) => (false, s.selectFreeTaskWaiters t)
      | (true, s) => selectAddWaiters t (i + 1) ks (s.selectAddWaiter t i k)
    else selectAddWaiters t (i + 1) ks s

/-- Arm the timeout of the select, if it has one, and enter `WAITING_SELECT`. -/
def selectPark (t : TaskId) (p : SelectPlan) (nowNs : Nat) : Outcome × Rt :=
  match p.timeoutIndex with
  | none => (.park, s.taskBlockOnSelect t)
  | some i =>
    let s := s.modTask t fun k => { k with selectIndex := i }
    match s.timerPushState t (deadlineFromTimeout nowNs p.timeoutMs) .waitingSelect with
    | (.ok, s) => (.park, (s.modTask t fun k => { k with selectInTimer := true }).taskBlockOnSelect t)
    | (_, s) => (.ret .nomem, s.selectFreeTaskWaiters t)

/-- The locked section of `mt_select` that follows the trials. -/
def selectRegister (cur : Option TaskId) (cases : List SelectCase) (p : SelectPlan) (nowNs : Nat) :
    Outcome × Rt :=
  match cur with
  | none => (.ret .state, s)
  | some t =>
    if p.channelCases = 0 && p.timeoutIndex.isNone then (.ret .invalid, s)
    else
      let s := s.modTask t fun k =>
        { k with selectWaiters := [], selectWaiterCount := 0, selectResult := .ok
                 selectIndex := p.timeoutIndex.getD 0, selectInTimer := false
                 selectCountedWaiting := false }
      match selectAddWaiters t 0 cases s with
      | (false, s) => (.ret .nomem, s)
      | (true, s) => s.selectPark t p nowNs

/-! ## Close and destroy -/

def chanClose (ch : ChanId) : Rc × Rt :=
  if (s.chan ch).closed then (.closed, s)
  else (.ok, (s.modChan ch fun k => { k with closed := true }).chanWakeClosedWaiters ch)

/-- `memset` of the channel record. -/
def chanClear (ch : ChanId) : Rt :=
  ((((s.modChan ch fun _ => {}).setWaitq (.senders ch) {}).setWaitq (.receivers ch) {}).setSelectq
    (.senders ch) {}).setSelectq (.receivers ch) {}

def chanDestroy (ch : ChanId) : Rc × Rt :=
  if (s.waitq (.senders ch)).count ≠ 0 || (s.waitq (.receivers ch)).count ≠ 0 then (.state, s)
  else
    let s := if (s.selectq (.senders ch)).count ≠ 0 || (s.selectq (.receivers ch)).count ≠ 0 then
        (s.modChan ch fun k => { k with closed := true }).chanWakeClosedWaiters ch
      else s
    (.ok, ((s.chanUnregister ch).chanClear ch).free (.chan ch))

end Rt

end Microthread
