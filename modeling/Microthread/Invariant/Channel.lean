import Microthread.Invariant.Running

/-!
# The channel sections

`SendNow`, `RecvNow` and `Filled` list what the nonblocking part of a send, the
nonblocking part of a receive and the refill of the buffer can do, with the
conditions under which they do it. Everything later about channels is proved by
cases on them.
-/

namespace Microthread

open Foundation

namespace Rt

variable {s s' : Rt} {t : TaskId}

/-- A linked waiter belongs to a task that is parked in a select. -/
theorem Inv.waitingSelect_of_mem (h : s.Inv) (hn : s.NoWaiters) {r : SelectqRef} {w : WaiterId}
    (hw : w ∈ (s.selectq r).items) : (s.task (s.selw w).task).state = .waitingSelect := by
  obtain ⟨ht, hmem, -⟩ := h.mem_selectq hw
  by_contra hs
  by_cases hr : (s.task (s.selw w).task).state = .running
  · rw [hn _ ⟨ht, hr⟩] at hmem
    cases hmem
  · rw [h.select.idle _ ht hs hr] at hmem
    cases hmem

/-! ## What the blocking and the nonblocking operations share -/

/-- The part `mt_chan_send` and `mt_chan_try_send` have in common; `none` where they part. -/
def chanSendNow (s : Rt) (c : CallId) (kind : SendKind) (ch : ChanId) (value : Addr) :
    Option (Rc × Rt) :=
  let k := s.chan ch
  if k.closed then some (.closed, s)
  else
    match s.chanWaitqPop (.receivers ch) with
    | some (t, s) =>
      let v := s.readMem value k.elemSize
      let s := (s.writeMem (s.chanValueOf t) v).record
        (.handoff ch c kind value (s.task t).call (s.chanValueOf t) v)
      some (.ok, s.chanReadyWaiter t .ok)
    | none =>
      match s.selectWaitqPop (.receivers ch) with
      | some (w, s) =>
        let v := s.readMem value k.elemSize
        let s := (s.writeMem (s.selw w).value v).record
          (.handoff ch c kind value (s.task (s.selw w).task).call (s.selw w).value v)
        some (.ok, s.selectCompleteWaiter w .ok)
      | none =>
        if k.capacity > 0 && k.len < k.capacity then
          let v := s.readMem value k.elemSize
          some (.ok, (s.chanBufferPush ch v).record (.push ch c kind value v))
        else none

/-- The part `mt_chan_recv` and `mt_chan_try_recv` have in common; `none` where they part. -/
def chanRecvNow (s : Rt) (c : CallId) (ch : ChanId) (out : Addr) : Option (Rc × Rt) :=
  let k := s.chan ch
  if k.len > 0 then
    let (v, s) := s.chanBufferPop ch out
    some (.ok, (s.record (.pop ch c out v)).chanFillBufferFromWaitingSender ch)
  else
    match s.chanWaitqPop (.senders ch) with
    | some (t, s) =>
      if k.closed then some (.closed, s.chanReadyWaiter t .closed)
      else
        let v := s.readMem (s.chanValueOf t) k.elemSize
        let s := (s.writeMem out v).record
          (.handoff ch (s.task t).call .plain (s.chanValueOf t) c out v)
        some (.ok, s.chanReadyWaiter t .ok)
    | none =>
      match s.selectWaitqPop (.senders ch) with
      | some (w, s) =>
        if k.closed then some (.closed, s.selectCompleteWaiter w .closed)
        else
          let v := s.readMem (s.selw w).value k.elemSize
          let s := (s.writeMem out v).record
            (.handoff ch (s.task (s.selw w).task).call .select (s.selw w).value c out v)
          some (.ok, s.selectCompleteWaiter w .ok)
      | none => if k.closed then some (.closed, s) else none

theorem chanSend_eq (s : Rt) (cur : Option TaskId) (c : CallId) (ch : ChanId) (value : Addr) :
    s.chanSend cur c ch value =
      match s.chanSendNow c .plain ch value with
      | some (rc, s) => (.ret rc, s)
      | none =>
        match cur with
        | none => (.ret .state, s)
        | some t => (.park, s.parkChan t ch .send value) := by
  unfold chanSend chanSendNow
  simp only
  by_cases hc : (s.chan ch).closed = true
  · simp only [if_pos hc]
  simp only [if_neg hc]
  cases s.chanWaitqPop (.receivers ch) with
  | some p => rfl
  | none =>
      cases s.selectWaitqPop (.receivers ch) with
      | some p => rfl
      | none =>
          by_cases hb : (decide ((s.chan ch).capacity > 0) &&
              decide ((s.chan ch).len < (s.chan ch).capacity)) = true
          · simp only [if_pos hb]
          · simp only [if_neg hb]
            cases cur with
            | none => rfl
            | some t => rfl

theorem chanTrySend_eq (s : Rt) (c : CallId) (kind : SendKind) (ch : ChanId) (value : Addr) :
    s.chanTrySend c kind ch value = (s.chanSendNow c kind ch value).getD (.wouldBlock, s) := by
  unfold chanTrySend chanSendNow
  simp only
  by_cases hc : (s.chan ch).closed = true
  · simp only [if_pos hc, Option.getD_some]
  simp only [if_neg hc]
  cases s.chanWaitqPop (.receivers ch) with
  | some p => rfl
  | none =>
      cases s.selectWaitqPop (.receivers ch) with
      | some p => rfl
      | none =>
          by_cases hb : (decide ((s.chan ch).capacity > 0) &&
              decide ((s.chan ch).len < (s.chan ch).capacity)) = true
          · simp only [if_pos hb, Option.getD_some]
          · simp only [if_neg hb, Option.getD_none]

theorem chanRecv_eq (s : Rt) (cur : Option TaskId) (c : CallId) (ch : ChanId) (out : Addr) :
    s.chanRecv cur c ch out =
      match s.chanRecvNow c ch out with
      | some (rc, s) => (.ret rc, s)
      | none =>
        match cur with
        | none => (.ret .state, s)
        | some t => (.park, s.parkChan t ch .recv out) := by
  unfold chanRecv chanRecvNow
  simp only
  by_cases hlen : (s.chan ch).len > 0
  · simp only [if_pos hlen]
  simp only [if_neg hlen]
  by_cases hc : (s.chan ch).closed = true
  · simp only [if_pos hc]
    cases s.chanWaitqPop (.senders ch) with
    | some p => rfl
    | none =>
        cases s.selectWaitqPop (.senders ch) with
        | some p => rfl
        | none => rfl
  · simp only [if_neg hc]
    cases s.chanWaitqPop (.senders ch) with
    | some p => rfl
    | none =>
        cases s.selectWaitqPop (.senders ch) with
        | some p => rfl
        | none =>
            cases cur with
            | none => rfl
            | some t => rfl

theorem chanTryRecv_eq (s : Rt) (c : CallId) (ch : ChanId) (out : Addr) :
    s.chanTryRecv c ch out = (s.chanRecvNow c ch out).getD (.wouldBlock, s) := by
  unfold chanTryRecv chanRecvNow
  simp only
  by_cases hlen : (s.chan ch).len > 0
  · simp only [if_pos hlen, Option.getD_some]
  simp only [if_neg hlen]
  by_cases hc : (s.chan ch).closed = true
  · simp only [if_pos hc]
    cases s.chanWaitqPop (.senders ch) with
    | some p => rfl
    | none =>
        cases s.selectWaitqPop (.senders ch) with
        | some p => rfl
        | none => rfl
  · simp only [if_neg hc]
    cases s.chanWaitqPop (.senders ch) with
    | some p => rfl
    | none =>
        cases s.selectWaitqPop (.senders ch) with
        | some p => rfl
        | none => rfl

/-- No operation can send on the channel now. -/
def SendBlocks (s : Rt) (ch : ChanId) : Prop :=
  (s.chan ch).closed = false ∧ (s.waitq (.receivers ch)).items = [] ∧
    (s.selectq (.receivers ch)).items = [] ∧
    ((s.chan ch).capacity = 0 ∨ (s.chan ch).capacity ≤ (s.chan ch).len)

/-- No operation can receive from the channel now. -/
def RecvBlocks (s : Rt) (ch : ChanId) : Prop :=
  (s.chan ch).closed = false ∧ (s.chan ch).len = 0 ∧ (s.waitq (.senders ch)).items = [] ∧
    (s.selectq (.senders ch)).items = []

instance (s : Rt) (ch : ChanId) : Decidable (s.SendBlocks ch) := inferInstanceAs (Decidable (_ ∧ _))
instance (s : Rt) (ch : ChanId) : Decidable (s.RecvBlocks ch) := inferInstanceAs (Decidable (_ ∧ _))

/-- The value a call passes at `a` to a channel. -/
def valueAt (s : Rt) (ch : ChanId) (a : Addr) : List Byte := s.readMem a (s.chan ch).elemSize

theorem length_valueAt (s : Rt) (ch : ChanId) (a : Addr) :
    (s.valueAt ch a).length = (s.chan ch).elemSize := by
  simp [valueAt, readMem]

/-- The value of `sender` at `src` is copied to `out` for `receiver`. -/
def transfer (s : Rt) (ch : ChanId) (sender : CallId) (kind : SendKind) (src : Addr)
    (receiver : CallId) (out : Addr) : Rt :=
  (s.writeMem out (s.valueAt ch src)).record
    (.handoff ch sender kind src receiver out (s.valueAt ch src))

/-- The value of call `c` at `src` enters the buffer. -/
def enqueue (s : Rt) (ch : ChanId) (c : CallId) (kind : SendKind) (src : Addr) : Rt :=
  (s.chanBufferPush ch (s.valueAt ch src)).record (.push ch c kind src (s.valueAt ch src))

/-- The oldest value leaves the buffer for `out`. -/
def dequeue (s : Rt) (ch : ChanId) (c : CallId) (out : Addr) : Rt :=
  (s.chanBufferPop ch out).2.record (.pop ch c out (s.chanBufferPop ch out).1)

theorem transfer_moves (s : Rt) (ch : ChanId) (sender : CallId) (kind : SendKind) (src : Addr)
    (receiver : CallId) (out : Addr) : Moves s (s.transfer ch sender kind src receiver out) :=
  .tail (.single (.write _ _)) (.note _ trivial)

theorem enqueue_moves (s : Rt) (ch : ChanId) (c : CallId) (kind : SendKind) (src : Addr) :
    Moves s (s.enqueue ch c kind src) :=
  .tail (.single (.ring ch _)) (.note _ trivial)

theorem dequeue_moves (s : Rt) (ch : ChanId) (c : CallId) (out : Addr) :
    Moves s (s.dequeue ch c out) :=
  .tail (.tail (.single (.write _ _)) (.ring ch _)) (.note _ trivial)

/-! ## Refill -/

/-- What `mt_chan_fill_buffer_from_waiting_sender` does. -/
inductive Filled (s : Rt) (ch : ChanId) : Rt → Prop where
  | nothing : ((s.chan ch).closed = true ∨ (s.chan ch).capacity ≤ (s.chan ch).len ∨
      ((s.waitq (.senders ch)).items = [] ∧ (s.selectq (.senders ch)).items = [])) → Filled s ch s
  | plain (t : TaskId) : (s.chan ch).closed = false → (s.chan ch).len < (s.chan ch).capacity →
      (s.waitq (.senders ch)).items.head? = some t →
      Filled s ch ((s.enqueue ch (s.task t).call .plain (s.chanValueOf t)).wakeChan (.senders ch) t .ok)
  | select (w items) : (s.chan ch).closed = false → (s.chan ch).len < (s.chan ch).capacity →
      (s.waitq (.senders ch)).items = [] → (s.selectq (.senders ch)).items.head? = some w →
      (s.task (s.selw w).task).state = .waitingSelect → s.TimersAfter (s.selw w).task items →
      Filled s ch ((s.enqueue ch (s.task (s.selw w).task).call .select (s.selw w).value).wakeSelect
        (s.selw w).task items (s.selw w).role .ok (s.selw w).index)

theorem Inv.filled (h : s.Inv) (hn : s.NoWaiters) (ch : ChanId) :
    Filled s ch (s.chanFillBufferFromWaitingSender ch) := by
  unfold chanFillBufferFromWaitingSender
  simp only
  split
  · next hc =>
      refine .nothing ?_
      simp only [Bool.or_eq_true, beq_iff_eq, decide_eq_true_eq, ge_iff_le] at hc
      rcases hc with (hc | hc) | hc
      · exact .inl hc
      · exact .inr (.inl (by omega))
      · exact .inr (.inl hc)
  · next hc =>
      simp only [Bool.or_eq_true, beq_iff_eq, decide_eq_true_eq, ge_iff_le, not_or, not_le] at hc
      obtain ⟨⟨hopen, -⟩, hlt⟩ := hc
      have hopen : (s.chan ch).closed = false := by simpa using hopen
      split
      · next t a hp =>
          obtain ⟨hhead, rfl⟩ := chanWaitqPop_eq_some hp
          have hfill : Filled s ch _ := .plain t hopen hlt hhead
          rwa [← taskCompleteChannelWait_unlinkTask] at hfill
      · next hp =>
          have hempty := chanWaitqPop_eq_none.mp hp
          split
          · next w a hp' =>
              obtain ⟨hhead, rfl⟩ := selectWaitqPop_eq_some hp'
              have hw := List.mem_of_head? hhead
              have hs := h.waitingSelect_of_mem hn hw
              have hq : (s.enqueue ch (s.task (s.selw w).task).call .select (s.selw w).value).Inv :=
                Moves.inv (enqueue_moves ..) h
              obtain ⟨items, hitems, heq⟩ := hq.selectCompleteWaiter hw hs .ok
              have hfill : Filled s ch _ :=
                .select w items hopen hlt hempty hhead hs (hitems.congr rfl rfl)
              rw [unlinkWaiter_selw_value, unlinkWaiter_selw_task]
              exact Eq.subst (motive := Filled s ch) heq.symm hfill
          · next hp' =>
              exact .nothing (.inr (.inr ⟨hempty, selectWaitqPop_eq_none.mp hp'⟩))

theorem Filled.moves {ch : ChanId} (hf : Filled s ch s') : Moves s s' := by
  cases hf with
  | nothing => exact .refl
  | plain t _ _ hhead =>
      exact (enqueue_moves ..).tail (.deliver _ _ (by simp [WaitqRef.chan?]) (List.mem_of_head? hhead))
  | select w items _ _ _ hhead hs hitems =>
      exact (enqueue_moves ..).tail
        (.deliverSelect _ _ _ (List.mem_of_head? hhead) hs (hitems.congr rfl rfl))

/-! ## Send -/

/-- What the nonblocking part of a send does when it does not block. -/
inductive SendNow (s : Rt) (c : CallId) (kind : SendKind) (ch : ChanId) (value : Addr) :
    Rc → Rt → Prop where
  | closed : (s.chan ch).closed = true → SendNow s c kind ch value .closed s
  | plain (t : TaskId) : (s.chan ch).closed = false →
      (s.waitq (.receivers ch)).items.head? = some t →
      SendNow s c kind ch value .ok
        ((s.transfer ch c kind value (s.task t).call (s.chanValueOf t)).wakeChan (.receivers ch) t .ok)
  | select (w items) : (s.chan ch).closed = false → (s.waitq (.receivers ch)).items = [] →
      (s.selectq (.receivers ch)).items.head? = some w →
      (s.task (s.selw w).task).state = .waitingSelect → s.TimersAfter (s.selw w).task items →
      SendNow s c kind ch value .ok
        ((s.transfer ch c kind value (s.task (s.selw w).task).call (s.selw w).value).wakeSelect
          (s.selw w).task items (s.selw w).role .ok (s.selw w).index)
  | buffer : (s.chan ch).closed = false → (s.waitq (.receivers ch)).items = [] →
      (s.selectq (.receivers ch)).items = [] → (s.chan ch).len < (s.chan ch).capacity →
      SendNow s c kind ch value .ok (s.enqueue ch c kind value)

theorem Inv.sendNow (h : s.Inv) (hn : s.NoWaiters) (c : CallId) (kind : SendKind) (ch : ChanId)
    (value : Addr) :
    match s.chanSendNow c kind ch value with
    | some (rc, s') => SendNow s c kind ch value rc s'
    | none => s.SendBlocks ch := by
  unfold chanSendNow
  simp only
  by_cases hc : (s.chan ch).closed = true
  · rw [if_pos hc]
    exact .closed hc
  rw [if_neg hc]
  have hopen : (s.chan ch).closed = false := by simpa using hc
  cases hp : s.chanWaitqPop (.receivers ch) with
  | some p =>
      obtain ⟨t, a⟩ := p
      obtain ⟨hhead, rfl⟩ := chanWaitqPop_eq_some hp
      have hsend : SendNow s c kind ch value _ _ := .plain t hopen hhead
      rwa [← taskCompleteChannelWait_unlinkTask] at hsend
  | none =>
      have hempty := chanWaitqPop_eq_none.mp hp
      cases hp' : s.selectWaitqPop (.receivers ch) with
      | some p =>
          obtain ⟨w, a⟩ := p
          obtain ⟨hhead, rfl⟩ := selectWaitqPop_eq_some hp'
          have hw := List.mem_of_head? hhead
          have hs := h.waitingSelect_of_mem hn hw
          have hq : (s.transfer ch c kind value (s.task (s.selw w).task).call (s.selw w).value).Inv :=
            Moves.inv (transfer_moves ..) h
          obtain ⟨items, hitems, heq⟩ := hq.selectCompleteWaiter hw hs .ok
          have hsend : SendNow s c kind ch value _ _ :=
            .select w items hopen hempty hhead hs (hitems.congr rfl rfl)
          simp only [unlinkWaiter_selw_value, unlinkWaiter_selw_task]
          exact Eq.subst (motive := SendNow s c kind ch value .ok) heq.symm hsend
      | none =>
          have hempty' := selectWaitqPop_eq_none.mp hp'
          by_cases hlt : (s.chan ch).len < (s.chan ch).capacity
          · rw [if_pos (by simp only [Bool.and_eq_true, decide_eq_true_eq]; omega)]
            exact .buffer hopen hempty hempty' hlt
          · rw [if_neg (by simp only [Bool.and_eq_true, decide_eq_true_eq]; omega)]
            exact ⟨hopen, hempty, hempty', by omega⟩

theorem SendNow.moves {c : CallId} {kind : SendKind} {ch : ChanId} {value : Addr} {rc : Rc}
    (hsend : SendNow s c kind ch value rc s') : Moves s s' := by
  cases hsend with
  | closed => exact .refl
  | plain t _ hhead =>
      exact (transfer_moves ..).tail
        (.deliver _ _ (by simp [WaitqRef.chan?]) (List.mem_of_head? hhead))
  | select w items _ _ hhead hs hitems =>
      exact (transfer_moves ..).tail
        (.deliverSelect _ _ _ (List.mem_of_head? hhead) hs (hitems.congr rfl rfl))
  | buffer => exact enqueue_moves ..

/-! ## Receive -/

/-- What the nonblocking part of a receive does when it does not block. -/
inductive RecvNow (s : Rt) (c : CallId) (ch : ChanId) (out : Addr) : Rc → Rt → Prop where
  | buffer (a) : 0 < (s.chan ch).len → Filled (s.dequeue ch c out) ch a →
      RecvNow s c ch out .ok a
  | plain (t : TaskId) : (s.chan ch).len = 0 → (s.chan ch).closed = false →
      (s.waitq (.senders ch)).items.head? = some t →
      RecvNow s c ch out .ok
        ((s.transfer ch (s.task t).call .plain (s.chanValueOf t) c out).wakeChan (.senders ch) t .ok)
  | select (w items) : (s.chan ch).len = 0 → (s.chan ch).closed = false →
      (s.waitq (.senders ch)).items = [] → (s.selectq (.senders ch)).items.head? = some w →
      (s.task (s.selw w).task).state = .waitingSelect → s.TimersAfter (s.selw w).task items →
      RecvNow s c ch out .ok
        ((s.transfer ch (s.task (s.selw w).task).call .select (s.selw w).value c out).wakeSelect
          (s.selw w).task items (s.selw w).role .ok (s.selw w).index)
  | closedPlain (t : TaskId) : (s.chan ch).len = 0 → (s.chan ch).closed = true →
      (s.waitq (.senders ch)).items.head? = some t →
      RecvNow s c ch out .closed (s.wakeChan (.senders ch) t .closed)
  | closedSelect (w items) : (s.chan ch).len = 0 → (s.chan ch).closed = true →
      (s.waitq (.senders ch)).items = [] → (s.selectq (.senders ch)).items.head? = some w →
      (s.task (s.selw w).task).state = .waitingSelect → s.TimersAfter (s.selw w).task items →
      RecvNow s c ch out .closed
        (s.wakeSelect (s.selw w).task items (s.selw w).role .closed (s.selw w).index)
  | closed : (s.chan ch).len = 0 → (s.chan ch).closed = true →
      (s.waitq (.senders ch)).items = [] → (s.selectq (.senders ch)).items = [] →
      RecvNow s c ch out .closed s

theorem Inv.recvNow (h : s.Inv) (hn : s.NoWaiters) (c : CallId) (ch : ChanId) (out : Addr) :
    match s.chanRecvNow c ch out with
    | some (rc, s') => RecvNow s c ch out rc s'
    | none => s.RecvBlocks ch := by
  unfold chanRecvNow
  simp only
  by_cases hlen : (s.chan ch).len > 0
  · rw [if_pos hlen]
    have hmoves := s.dequeue_moves ch c out
    exact .buffer _ hlen ((Moves.inv hmoves h).filled (hmoves.noWaiters h hn) ch)
  rw [if_neg hlen]
  have hzero : (s.chan ch).len = 0 := by omega
  cases hp : s.chanWaitqPop (.senders ch) with
  | some p =>
      obtain ⟨t, a⟩ := p
      obtain ⟨hhead, rfl⟩ := chanWaitqPop_eq_some hp
      by_cases hc : (s.chan ch).closed = true
      · simp only [hc, if_true]
        have hrecv : RecvNow s c ch out _ _ := .closedPlain t hzero hc hhead
        rwa [← taskCompleteChannelWait_unlinkTask] at hrecv
      · simp only [hc, Bool.false_eq_true, if_false]
        have hrecv : RecvNow s c ch out _ _ := .plain t hzero (by simpa using hc) hhead
        rwa [← taskCompleteChannelWait_unlinkTask] at hrecv
  | none =>
      have hempty := chanWaitqPop_eq_none.mp hp
      cases hp' : s.selectWaitqPop (.senders ch) with
      | some p =>
          obtain ⟨w, a⟩ := p
          obtain ⟨hhead, rfl⟩ := selectWaitqPop_eq_some hp'
          have hw := List.mem_of_head? hhead
          have hs := h.waitingSelect_of_mem hn hw
          by_cases hc : (s.chan ch).closed = true
          · simp only [hc, if_true]
            obtain ⟨items, hitems, heq⟩ := h.selectCompleteWaiter hw hs .closed
            have hrecv : RecvNow s c ch out _ _ :=
              .closedSelect w items hzero hc hempty hhead hs hitems
            exact Eq.subst (motive := RecvNow s c ch out .closed) heq.symm hrecv
          · simp only [hc, Bool.false_eq_true, if_false]
            have hq : (s.transfer ch (s.task (s.selw w).task).call .select (s.selw w).value c out).Inv :=
              Moves.inv (transfer_moves ..) h
            obtain ⟨items, hitems, heq⟩ := hq.selectCompleteWaiter hw hs .ok
            have hrecv : RecvNow s c ch out _ _ :=
              .select w items hzero (by simpa using hc) hempty hhead hs (hitems.congr rfl rfl)
            simp only [unlinkWaiter_selw_value, unlinkWaiter_selw_task]
            exact Eq.subst (motive := RecvNow s c ch out .ok) heq.symm hrecv
      | none =>
          have hempty' := selectWaitqPop_eq_none.mp hp'
          by_cases hc : (s.chan ch).closed = true
          · simp only [hc, if_true]
            exact .closed hzero hc hempty hempty'
          · simp only [hc, Bool.false_eq_true, if_false]
            exact ⟨by simpa using hc, hzero, hempty, hempty'⟩

theorem RecvNow.moves {c : CallId} {ch : ChanId} {out : Addr} {rc : Rc}
    (hrecv : RecvNow s c ch out rc s') : Moves s s' := by
  cases hrecv with
  | buffer _ _ hf =>
      have hd := s.dequeue_moves ch c out
      exact hd.trans hf.moves
  | plain t _ _ hhead =>
      exact (transfer_moves ..).tail
        (.deliver _ _ (by simp [WaitqRef.chan?]) (List.mem_of_head? hhead))
  | select w items _ _ _ hhead hs hitems =>
      exact (transfer_moves ..).tail
        (.deliverSelect _ _ _ (List.mem_of_head? hhead) hs (hitems.congr rfl rfl))
  | closedPlain t _ hc hhead => exact .single (.shift (.drain (.task (.senders ch) t rfl hc hhead)))
  | closedSelect w items _ hc _ hhead hs hitems =>
      exact .single (.shift (.drain (.select (.senders ch) w items rfl hc hhead hs hitems)))
  | closed => exact .refl

/-! ## Close -/

/-- Waiters of the closed channel `ch` are woken one after the other. -/
abbrev Drains (ch : ChanId) : Rt → Rt → Prop := Relation.ReflTransGen (Drain ch)

theorem Drains.shifts {ch : ChanId} (hd : Drains ch s s') : Shifts s s' :=
  Relation.ReflTransGen.mono (fun _ _ h => Shift.drain h) s s' hd

theorem Drains.shrinks {ch : ChanId} (hd : Drains ch s s') : Shrinks s s' :=
  Moves.shrinks (Shifts.moves (Drains.shifts hd))

/-- The drain of plain waiters, and that it reaches the end of the queue. -/
theorem Inv.chanWakeClosedTasks (h : s.Inv) {r : WaitqRef} {ch : ChanId} (hr : r.chan? = some ch)
    (hc : (s.chan ch).closed = true) (fuel : Nat) (hfuel : (s.waitq r).items.length ≤ fuel) :
    Drains ch s (chanWakeClosedTasks r fuel s) ∧
      ((chanWakeClosedTasks r fuel s).waitq r).items = [] := by
  induction fuel generalizing s with
  | zero => exact ⟨.refl, List.length_eq_zero_iff.mp (Nat.le_zero.mp hfuel)⟩
  | succ fuel ih =>
      cases hp : s.chanWaitqPop r with
      | none =>
          simp only [Rt.chanWakeClosedTasks, hp]
          exact ⟨.refl, chanWaitqPop_eq_none.mp hp⟩
      | some p =>
          obtain ⟨t, a⟩ := p
          obtain ⟨hhead, rfl⟩ := chanWaitqPop_eq_some hp
          have ht := List.mem_of_head? hhead
          have hd : Drain ch s (s.wakeChan r t .closed) := .task r t hr hc hhead
          have hlen : ((s.wakeChan r t .closed).waitq r).items.length ≤ fuel := by
            simp only [Rt.wakeChan, Function.update_self, Queue.remove_of_mem ht,
              List.length_erase_of_mem ht]
            omega
          obtain ⟨h1, h2⟩ := ih (hd.inv h) hc hlen
          simp only [Rt.chanWakeClosedTasks, hp, chanReadyWaiter,
            taskCompleteChannelWait_unlinkTask]
          exact ⟨.head hd h1, h2⟩

/-- The drain of select waiters. Completing one may unlink others of the queue. -/
theorem Inv.chanWakeClosedSelects (h : s.Inv) (hn : s.NoWaiters) {r : SelectqRef} {ch : ChanId}
    (hr : r.chan = ch) (hc : (s.chan ch).closed = true) (fuel : Nat)
    (hfuel : (s.selectq r).items.length ≤ fuel) :
    Drains ch s (chanWakeClosedSelects r fuel s) ∧
      ((chanWakeClosedSelects r fuel s).selectq r).items = [] := by
  induction fuel generalizing s with
  | zero => exact ⟨.refl, List.length_eq_zero_iff.mp (Nat.le_zero.mp hfuel)⟩
  | succ fuel ih =>
      cases hp : s.selectWaitqPop r with
      | none =>
          simp only [Rt.chanWakeClosedSelects, hp]
          exact ⟨.refl, selectWaitqPop_eq_none.mp hp⟩
      | some p =>
          obtain ⟨w, a⟩ := p
          obtain ⟨hhead, rfl⟩ := selectWaitqPop_eq_some hp
          have hw := List.mem_of_head? hhead
          obtain ⟨ht, hmem, -⟩ := h.mem_selectq hw
          have hs := h.waitingSelect_of_mem hn hw
          obtain ⟨items, hitems, heq⟩ := h.selectCompleteWaiter hw hs .closed
          have hd : Drain ch s (s.wakeSelect (s.selw w).task items (s.selw w).role .closed
            (s.selw w).index) := .select r w items hr hc hhead hs hitems
          have hlen : ((s.wakeSelect (s.selw w).task items (s.selw w).role .closed
              (s.selw w).index).selectq r).items.length ≤ fuel := by
            have hlt : ((s.selectq r).items.filter
                (· ∉ (s.task (s.selw w).task).selectWaiters)).length < (s.selectq r).items.length :=
              List.length_filter_lt_length_iff_exists.mpr ⟨w, hw, by simpa using hmem⟩
            exact Nat.le_of_lt_succ (hlt.trans_le hfuel)
          obtain ⟨h1, h2⟩ := ih (hd.inv h)
            (Moves.noWaiters (.single (.shift (.drain hd))) h hn) hc hlen
          simp only [Rt.chanWakeClosedSelects, hp, heq]
          exact ⟨.head hd h1, h2⟩

/-- Nobody waits on the channel. -/
def Unattended (s : Rt) (ch : ChanId) : Prop :=
  (s.waitq (.senders ch)).items = [] ∧ (s.waitq (.receivers ch)).items = [] ∧
    (s.selectq (.senders ch)).items = [] ∧ (s.selectq (.receivers ch)).items = []

instance (s : Rt) (ch : ChanId) : Decidable (s.Unattended ch) := inferInstanceAs (Decidable (_ ∧ _))

/-- All waiters of a closed channel are woken. -/
theorem Inv.chanWakeClosedWaiters (h : s.Inv) (hn : s.NoWaiters) {ch : ChanId}
    (hc : (s.chan ch).closed = true) :
    Drains ch s (s.chanWakeClosedWaiters ch) ∧ (s.chanWakeClosedWaiters ch).Unattended ch := by
  obtain ⟨d1, e1⟩ := h.chanWakeClosedTasks (r := .senders ch) rfl hc _ (le_refl _)
  set s1 := Rt.chanWakeClosedTasks (.senders ch) _ s with hs1
  have h1 : Shifts s s1 := Drains.shifts d1
  have c1 : (s1.chan ch).closed = true := by rwa [Shifts.chan_eq h1]
  obtain ⟨d2, e2⟩ := (Shifts.inv h1 h).chanWakeClosedTasks (r := .receivers ch) rfl c1 _ (le_refl _)
  set s2 := Rt.chanWakeClosedTasks (.receivers ch) _ s1 with hs2
  have h2 : Shifts s s2 := h1.trans (Drains.shifts d2)
  have c2 : (s2.chan ch).closed = true := by rwa [Shifts.chan_eq h2]
  obtain ⟨d3, e3⟩ := (Shifts.inv h2 h).chanWakeClosedSelects (Moves.noWaiters (Shifts.moves h2) h hn)
    (r := .senders ch) rfl c2 _ (le_refl _)
  set s3 := Rt.chanWakeClosedSelects (.senders ch) _ s2 with hs3
  have h3 : Shifts s s3 := h2.trans (Drains.shifts d3)
  have c3 : (s3.chan ch).closed = true := by rwa [Shifts.chan_eq h3]
  obtain ⟨d4, e4⟩ := (Shifts.inv h3 h).chanWakeClosedSelects (Moves.noWaiters (Shifts.moves h3) h hn)
    (r := .receivers ch) rfl c3 _ (le_refl _)
  -- a later drain does not refill a queue that an earlier one has emptied
  refine ⟨((d1.trans d2).trans d3).trans d4, ?_, ?_, ?_, e4⟩
  · exact (Drains.shrinks ((d2.trans d3).trans d4)).waitq_nil e1
  · exact (Drains.shrinks (d3.trans d4)).waitq_nil e2
  · exact (Drains.shrinks d4).selectq_nil e3

/-- What `mt_chan_close` does. -/
inductive Closes (s : Rt) (ch : ChanId) : Rc → Rt → Prop where
  | again : (s.chan ch).closed = true → Closes s ch .closed s
  | drained (a) : (s.chan ch).closed = false →
      Drains ch (s.modChan ch fun k => { k with closed := true }) a → a.Unattended ch →
      Closes s ch .ok a

theorem NoWaiters.modChan (hn : s.NoWaiters) (ch : ChanId) (f : Chan → Chan) :
    (s.modChan ch f).NoWaiters := hn

theorem closed_modChan (s : Rt) (ch : ChanId) :
    ((s.modChan ch fun k => { k with closed := true }).chan ch).closed = true := by
  simp [Rt.modChan]

theorem Inv.chanClose (h : s.Inv) (hn : s.NoWaiters) (ch : ChanId) :
    Closes s ch (s.chanClose ch).1 (s.chanClose ch).2 := by
  unfold Rt.chanClose
  by_cases hc : (s.chan ch).closed = true
  · rw [if_pos hc]
    exact .again hc
  · rw [if_neg hc]
    have hclose : (s.modChan ch fun k => { k with closed := true }).Inv := h.modChan fun _ => rfl
    obtain ⟨hd, hu⟩ := hclose.chanWakeClosedWaiters (hn.modChan ch _) (closed_modChan s ch)
    exact .drained _ (by simpa using hc) hd hu

theorem Closes.moves {ch : ChanId} {rc : Rc} (hc : Closes s ch rc s') : Moves s s' := by
  cases hc with
  | again => exact .refl
  | drained _ _ hd _ => exact .head (.close ch) (Shifts.moves (Drains.shifts hd))

/-- What `mt_chan_destroy` does. -/
inductive Destroys (s : Rt) (ch : ChanId) : Rc → Rt → Prop where
  | refused : Destroys s ch .state s
  | dropped : s.Unattended ch → Destroys s ch .ok (s.dropChan ch)
  | drained (a) : Drains ch (s.modChan ch fun k => { k with closed := true }) a →
      a.Unattended ch → Destroys s ch .ok (a.dropChan ch)

theorem Inv.free_chanClear (h : s.Inv) {ch : ChanId} (hu : s.Unattended ch) :
    ((s.chanUnregister ch).chanClear ch).free (.chan ch) = s.dropChan ch := by
  obtain ⟨h1, h2, h3, h4⟩ := hu
  have q1 := Queue.Exact.ext (h.task.waitqExact (.senders ch)) (Queue.exact_empty) h1
  have q2 := Queue.Exact.ext (h.task.waitqExact (.receivers ch)) (Queue.exact_empty) h2
  have q3 := Queue.Exact.ext (h.select.exact (.senders ch)) (Queue.exact_empty) h3
  have q4 := Queue.Exact.ext (h.select.exact (.receivers ch)) (Queue.exact_empty) h4
  simp only [chanClear, chanUnregister, setWaitq, setSelectq, Rt.modChan, free, Rt.dropChan]
  congr 1
  · rw [← q1, Function.update_eq_self, q1, ← q2, Function.update_eq_self]
  · rw [← q3, Function.update_eq_self, q3, ← q4, Function.update_eq_self]

theorem Inv.chanDestroy (h : s.Inv) (hn : s.NoWaiters) (ch : ChanId) :
    Destroys s ch (s.chanDestroy ch).1 (s.chanDestroy ch).2 := by
  unfold Rt.chanDestroy
  have hq := fun r => h.task.waitqExact r
  have hs := fun r => h.select.exact r
  simp only [Queue.Exact] at hq hs
  simp only [hq, hs]
  split
  · exact .refused
  next hplain =>
    simp only [Bool.or_eq_true, decide_eq_true_eq, not_or, not_not, ne_eq,
      List.length_eq_zero_iff] at hplain
    split
    · next hsel =>
        have hclose : (s.modChan ch fun k => { k with closed := true }).Inv := h.modChan fun _ => rfl
        obtain ⟨hd, hu⟩ := hclose.chanWakeClosedWaiters (hn.modChan ch _) (closed_modChan s ch)
        rw [(Shifts.inv (Drains.shifts hd) hclose).free_chanClear hu]
        exact .drained _ hd hu
    · next hsel =>
        simp only [Bool.or_eq_true, decide_eq_true_eq, not_or, not_not, ne_eq,
          List.length_eq_zero_iff] at hsel
        have hu : s.Unattended ch := ⟨hplain.1, hplain.2, hsel.1, hsel.2⟩
        rw [h.free_chanClear hu]
        exact .dropped hu

theorem Destroys.moves {ch : ChanId} {rc : Rc} (hd : Destroys s ch rc s')
    (hm : s.made (.chan ch) = true) : Moves s s' := by
  cases hd with
  | refused => exact .refl
  | dropped hu => exact .single (.dropChan ch hu.1 hu.2.1 hu.2.2.1 hu.2.2.2 hm)
  | drained a hd hu =>
      have hmoves : Moves s a := .head (.close ch) (Shifts.moves (Drains.shifts hd))
      exact hmoves.tail (.dropChan ch hu.1 hu.2.1 hu.2.2.1 hu.2.2.2 ((Moves.grows hmoves).made _ hm))

/-! ## The operations -/

/-- A blocking send returns, or parks the calling task. -/
theorem Inv.chanSend (h : s.Inv) (hn : s.NoWaiters) (cur : Option TaskId) (c : CallId) (ch : ChanId)
    (value : Addr) :
    match s.chanSend cur c ch value with
    | (.ret rc, s') => SendNow s c .plain ch value rc s' ∨ (rc = .state ∧ s' = s)
    | (.park, s') => ∃ t, cur = some t ∧ s.SendBlocks ch ∧ s' = s.parkChan t ch .send value := by
  have hnow := h.sendNow hn c .plain ch value
  rw [chanSend_eq]
  cases hr : s.chanSendNow c .plain ch value with
  | some p =>
      rw [hr] at hnow
      exact .inl hnow
  | none =>
      rw [hr] at hnow
      cases cur with
      | none => exact .inr ⟨rfl, rfl⟩
      | some t => exact ⟨t, rfl, hnow, rfl⟩

theorem Inv.chanRecv (h : s.Inv) (hn : s.NoWaiters) (cur : Option TaskId) (c : CallId) (ch : ChanId)
    (out : Addr) :
    match s.chanRecv cur c ch out with
    | (.ret rc, s') => RecvNow s c ch out rc s' ∨ (rc = .state ∧ s' = s)
    | (.park, s') => ∃ t, cur = some t ∧ s.RecvBlocks ch ∧ s' = s.parkChan t ch .recv out := by
  have hnow := h.recvNow hn c ch out
  rw [chanRecv_eq]
  cases hr : s.chanRecvNow c ch out with
  | some p =>
      rw [hr] at hnow
      exact .inl hnow
  | none =>
      rw [hr] at hnow
      cases cur with
      | none => exact .inr ⟨rfl, rfl⟩
      | some t => exact ⟨t, rfl, hnow, rfl⟩

theorem Inv.chanTrySend (h : s.Inv) (hn : s.NoWaiters) (c : CallId) (kind : SendKind) (ch : ChanId)
    (value : Addr) :
    SendNow s c kind ch value (s.chanTrySend c kind ch value).1 (s.chanTrySend c kind ch value).2 ∨
      ((s.chanTrySend c kind ch value).1 = .wouldBlock ∧ s.SendBlocks ch ∧
        (s.chanTrySend c kind ch value).2 = s) := by
  have hnow := h.sendNow hn c kind ch value
  rw [chanTrySend_eq]
  cases hr : s.chanSendNow c kind ch value with
  | some p =>
      rw [hr] at hnow
      exact .inl hnow
  | none =>
      rw [hr] at hnow
      exact .inr ⟨rfl, hnow, rfl⟩

theorem Inv.chanTryRecv (h : s.Inv) (hn : s.NoWaiters) (c : CallId) (ch : ChanId) (out : Addr) :
    RecvNow s c ch out (s.chanTryRecv c ch out).1 (s.chanTryRecv c ch out).2 ∨
      ((s.chanTryRecv c ch out).1 = .wouldBlock ∧ s.RecvBlocks ch ∧
        (s.chanTryRecv c ch out).2 = s) := by
  have hnow := h.recvNow hn c ch out
  rw [chanTryRecv_eq]
  cases hr : s.chanRecvNow c ch out with
  | some p =>
      rw [hr] at hnow
      exact .inl hnow
  | none =>
      rw [hr] at hnow
      exact .inr ⟨rfl, hnow, rfl⟩

end Rt

end Microthread
