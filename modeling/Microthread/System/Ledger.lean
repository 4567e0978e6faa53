import Microthread.System.Traffic

/-!
# The ledger of a channel

The history records every copy of a value. `Chan.Step` says how one step of the system
changes the record of a channel and which entries about it the history gains; no step
does anything else to a channel that is not destroyed.
-/

namespace Microthread

open Foundation Rt

/-- The channel whose value was copied. -/
def Event.chan? : Event → Option ChanId
  | .push ch .. | .pop ch .. | .handoff ch .. => some ch
  | .done .. | .ret .. => none

theorem Event.chan?_eq_none {e : Event} : e.chan? = none ↔ ¬e.IsTransfer := by
  cases e <;> simp [Event.chan?, Event.IsTransfer]

/-- The entries about a channel. -/
def Rt.history (s : Rt) (ch : ChanId) : List Event := s.log.filter fun e => e.chan? = some ch

/-- What one step may do to a channel; `met` says that a receiver was parked on it. -/
inductive Chan.Step (ch : ChanId) (met : Prop) (k : Chan) : List Event → Chan → Prop where
  | same : Step ch met k [] k
  | close : Step ch met k [] { k with closed := true }
  | push (c kind src v) : k.closed = false → k.len < k.capacity → v.length = k.elemSize →
      Step ch met k [.push ch c kind src v] { k with toRingBuffer := k.toRingBuffer.push v }
  | pop (c out) : 0 < k.len → Step ch met k [.pop ch c out k.toRingBuffer.pop.1]
      { k with toRingBuffer := k.toRingBuffer.pop.2 }
  | refill (c out d kind src v) : 0 < k.len → k.closed = false →
      k.toRingBuffer.pop.2.len < k.capacity → v.length = k.elemSize →
      Step ch met k [.pop ch c out k.toRingBuffer.pop.1, .push ch d kind src v]
        { k with toRingBuffer := k.toRingBuffer.pop.2.push v }
  | handoff (c kind src d out v) : k.closed = false → (k.len = 0 ∨ met) →
      v.length = k.elemSize → Step ch met k [.handoff ch c kind src d out v] k

theorem Chan.Step.mono {ch : ChanId} {met met' : Prop} {k k' : Chan} {es : List Event}
    (h : k.Step ch met es k') (hmet : met → met') : k.Step ch met' es k' := by
  cases h with
  | same => exact .same
  | close => exact .close
  | push c kind src v h1 h2 h3 => exact .push c kind src v h1 h2 h3
  | pop c out h1 => exact .pop c out h1
  | refill c out d kind src v h1 h2 h3 h4 => exact .refill c out d kind src v h1 h2 h3 h4
  | handoff c kind src d out v h1 h2 h3 =>
      exact .handoff c kind src d out v h1 (h2.imp_right hmet) h3

namespace Rt

variable {s s' a : Rt} {ch x : ChanId}

/-- A receiver is parked on the channel. -/
def Met (s : Rt) (ch : ChanId) : Prop :=
  (s.waitq (.receivers ch)).items ≠ [] ∨ (s.selectq (.receivers ch)).items ≠ []

/-- The channel is left alone. -/
structure LeftAlone (ch : ChanId) (s s' : Rt) : Prop where
  chan : s'.chan ch = s.chan ch
  history : s'.history ch = s.history ch

/-- The channel has been freed, or its record and its entries have changed by one step. -/
def Accounts (met : Prop) (ch : ChanId) (s s' : Rt) : Prop :=
  s'.frees (.chan ch) ≠ 0 ∨
    ∃ es, s'.history ch = s.history ch ++ es ∧ Chan.Step ch met (s.chan ch) es (s'.chan ch)

theorem history_append {es : List Event} (h : s'.log = s.log ++ es) :
    s'.history ch = s.history ch ++ es.filter fun e => e.chan? = some ch := by
  rw [history, h, List.filter_append, history]

theorem Thins.history_eq (h : Thins s s') : s'.history ch = s.history ch := by
  obtain ⟨es, hlog, hes⟩ := h.log
  rw [history_append hlog, List.filter_eq_nil_iff.mpr fun e he => ?_, List.append_nil]
  simp [Event.chan?_eq_none.mpr (hes e he)]

theorem LeftAlone.thins (h : LeftAlone ch s a) (ht : Thins a s') : LeftAlone ch s s' :=
  ⟨by rw [ht.chan, h.chan], by rw [ht.history_eq, h.history]⟩

theorem LeftAlone.accounts {met : Prop} (h : LeftAlone ch s s') : Accounts met ch s s' :=
  .inr ⟨[], by rw [h.history, List.append_nil], by rw [h.chan]; exact .same⟩

theorem Accounts.thins {met : Prop} (h : Accounts met ch s a) (ht : Thins a s') :
    Accounts met ch s s' := by
  rcases h with h | ⟨es, hes, hstep⟩
  · exact .inl fun h0 => h (Nat.le_zero.mp (h0 ▸ ht.freed ch))
  · exact .inr ⟨es, by rw [ht.history_eq, hes], by rw [ht.chan]; exact hstep⟩

/-- Nothing happens to the channel. -/
theorem Accounts.refl (met : Prop) (ch : ChanId) (s : Rt) : Accounts met ch s s :=
  .inr ⟨[], (List.append_nil _).symm, .same⟩

theorem history_record_self (s : Rt) {e : Event} (he : e.chan? = some ch) :
    (s.record e).history ch = s.history ch ++ [e] := by
  have hlog : (s.record e).log = s.log ++ [e] := rfl
  rw [history_append hlog]
  simp [he]

theorem history_record_of_ne (s : Rt) {e : Event} (he : e.chan? ≠ some ch) :
    (s.record e).history ch = s.history ch := by
  have hlog : (s.record e).log = s.log ++ [e] := rfl
  rw [history_append hlog]
  simp [he]

theorem some_ne (hch : ch ≠ x) : some x ≠ some ch := fun he => hch (Option.some.inj he).symm

theorem history_congr (h : s'.log = s.log) : s'.history ch = s.history ch := by
  rw [history, h, history]

/-! ## Records of channels -/

theorem enqueue_chan_of_ne (s : Rt) (c : CallId) (kind : SendKind) (src : Addr) (hx : x ≠ ch) :
    (s.enqueue ch c kind src).chan x = s.chan x := Function.update_of_ne hx _ _

theorem enqueue_chan_self (s : Rt) (ch : ChanId) (c : CallId) (kind : SendKind) (src : Addr) :
    (s.enqueue ch c kind src).chan ch =
      { s.chan ch with toRingBuffer := (s.chan ch).toRingBuffer.push (s.valueAt ch src) } :=
  Function.update_self ..

theorem dequeue_chan_of_ne (s : Rt) (c : CallId) (out : Addr) (hx : x ≠ ch) :
    (s.dequeue ch c out).chan x = s.chan x := Function.update_of_ne hx _ _

theorem dequeue_chan_self (s : Rt) (ch : ChanId) (c : CallId) (out : Addr) :
    (s.dequeue ch c out).chan ch =
      { s.chan ch with toRingBuffer := (s.chan ch).toRingBuffer.pop.2 } :=
  Function.update_self ..

theorem modChan_self (s : Rt) (ch : ChanId) (f : Chan → Chan) :
    (s.modChan ch f).chan ch = f (s.chan ch) := Function.update_self ..

theorem dropChan_self (s : Rt) (ch : ChanId) : (s.dropChan ch).chan ch = {} :=
  Function.update_self ..

theorem newChan_self (s : Rt) (elemSize capacity : Nat) :
    (s.newChan elemSize capacity).chan s.nextAddr = {
      elemSize := elemSize, capacity := capacity
      buffer := List.replicate (elemSize * capacity) 0 } :=
  Function.update_self ..

/-! ## The operations -/

theorem transfer_untouched (hch : ch ≠ x) (c : CallId) (kind : SendKind) (src : Addr) (d : CallId)
    (out : Addr) : LeftAlone ch s (s.transfer x c kind src d out) := by
  exact ⟨rfl, history_record_of_ne (s.writeMem out (s.valueAt x src)) (some_ne hch)⟩

theorem transfer_accounts {met : Prop} (hopen : (s.chan ch).closed = false)
    (hmet : (s.chan ch).len = 0 ∨ met) (c : CallId) (kind : SendKind) (src : Addr) (d : CallId)
    (out : Addr) : Accounts met ch s (s.transfer ch c kind src d out) := by
  exact .inr ⟨_, history_record_self (s.writeMem out (s.valueAt ch src)) rfl,
    .handoff c kind src d out _ hopen hmet (s.length_valueAt ch src)⟩

theorem enqueue_untouched (hch : ch ≠ x) (c : CallId) (kind : SendKind) (src : Addr) :
    LeftAlone ch s (s.enqueue x c kind src) := by
  exact ⟨s.enqueue_chan_of_ne c kind src hch,
    history_record_of_ne (s.chanBufferPush x (s.valueAt x src)) (some_ne hch)⟩

theorem history_enqueue (s : Rt) (ch : ChanId) (c : CallId) (kind : SendKind) (src : Addr) :
    (s.enqueue ch c kind src).history ch =
      s.history ch ++ [.push ch c kind src (s.valueAt ch src)] :=
  history_record_self (s.chanBufferPush ch (s.valueAt ch src)) rfl

theorem dequeue_untouched (hch : ch ≠ x) (c : CallId) (out : Addr) :
    LeftAlone ch s (s.dequeue x c out) := by
  exact ⟨s.dequeue_chan_of_ne c out hch,
    history_record_of_ne (s.chanBufferPop x out).2 (some_ne hch)⟩

theorem history_dequeue (s : Rt) (ch : ChanId) (c : CallId) (out : Addr) :
    (s.dequeue ch c out).history ch =
      s.history ch ++ [.pop ch c out (s.chan ch).toRingBuffer.pop.1] :=
  history_record_self (s.chanBufferPop ch out).2 rfl

theorem SendNow.untouched {c : CallId} {kind : SendKind} {value : Addr} {rc : Rc}
    (hs : SendNow s c kind x value rc s') (hch : ch ≠ x) : LeftAlone ch s s' := by
  cases hs with
  | closed => exact ⟨rfl, rfl⟩
  | plain t => exact (transfer_untouched hch ..).thins (thins_wakeChan ..)
  | select w items => exact (transfer_untouched hch ..).thins (thins_wakeSelect ..)
  | buffer => exact enqueue_untouched hch ..

theorem SendNow.accounts {c : CallId} {kind : SendKind} {value : Addr} {rc : Rc}
    (hs : SendNow s c kind ch value rc s') : Accounts (s.Met ch) ch s s' := by
  cases hs with
  | closed => exact .refl _ ch s
  | plain t hopen hhead =>
      have hmet : s.Met ch := .inl (List.ne_nil_of_mem (List.mem_of_head? hhead))
      exact (transfer_accounts hopen (.inr hmet) ..).thins (thins_wakeChan ..)
  | select w items hopen _ hhead =>
      have hmet : s.Met ch := .inr (List.ne_nil_of_mem (List.mem_of_head? hhead))
      exact (transfer_accounts hopen (.inr hmet) ..).thins (thins_wakeSelect ..)
  | buffer hopen _ _ hroom =>
      refine .inr ⟨_, s.history_enqueue ch c kind value, ?_⟩
      rw [enqueue_chan_self]
      exact .push c kind value _ hopen hroom (s.length_valueAt ch value)

theorem Filled.untouched (hf : Filled s x s') (hch : ch ≠ x) : LeftAlone ch s s' := by
  cases hf with
  | nothing => exact ⟨rfl, rfl⟩
  | plain t => exact (enqueue_untouched hch ..).thins (thins_wakeChan ..)
  | select w items => exact (enqueue_untouched hch ..).thins (thins_wakeSelect ..)

/-- A receive takes a value out of the buffer, and a parked sender may fill the gap. -/
theorem Filled.accounts {met : Prop} {c : CallId} {out : Addr} (hpos : 0 < (s.chan ch).len)
    (hf : Filled (s.dequeue ch c out) ch s') : Accounts met ch s s' := by
  have hlog := s.history_dequeue ch c out
  have hself := s.dequeue_chan_self ch c out
  have refilled : ∀ (d : CallId) (kind : SendKind) (src : Addr),
      ((s.dequeue ch c out).chan ch).closed = false →
      ((s.dequeue ch c out).chan ch).len < ((s.dequeue ch c out).chan ch).capacity →
      Accounts met ch s ((s.dequeue ch c out).enqueue ch d kind src) := by
    intro d kind src hopen hroom
    have hpush := (s.dequeue ch c out).history_enqueue ch d kind src
    have hlen := (s.dequeue ch c out).length_valueAt ch src
    rw [hlog, List.append_assoc] at hpush
    refine .inr ⟨_, hpush, ?_⟩
    rw [enqueue_chan_self]
    rw [hself] at hopen hroom hlen ⊢
    exact .refill c out d kind src _ hpos hopen hroom hlen
  cases hf with
  | nothing =>
      refine .inr ⟨_, hlog, ?_⟩
      rw [hself]
      exact .pop c out hpos
  | plain t hopen hroom => exact (refilled _ _ _ hopen hroom).thins (thins_wakeChan ..)
  | select w items hopen hroom => exact (refilled _ _ _ hopen hroom).thins (thins_wakeSelect ..)

theorem RecvNow.untouched {c : CallId} {out : Addr} {rc : Rc} (hr : RecvNow s c x out rc s')
    (hch : ch ≠ x) : LeftAlone ch s s' := by
  cases hr with
  | buffer _ _ hf =>
      have hd := dequeue_untouched (s := s) hch c out
      have hfill := hf.untouched hch
      exact ⟨hfill.chan.trans hd.chan, hfill.history.trans hd.history⟩
  | plain t => exact (transfer_untouched hch ..).thins (thins_wakeChan ..)
  | select w items => exact (transfer_untouched hch ..).thins (thins_wakeSelect ..)
  | closedPlain t => exact LeftAlone.thins ⟨rfl, rfl⟩ (s.thins_wakeChan ..)
  | closedSelect w items => exact LeftAlone.thins ⟨rfl, rfl⟩ (s.thins_wakeSelect ..)
  | closed => exact ⟨rfl, rfl⟩

theorem RecvNow.accounts {met : Prop} {c : CallId} {out : Addr} {rc : Rc}
    (hr : RecvNow s c ch out rc s') : Accounts met ch s s' := by
  cases hr with
  | buffer _ hpos hf => exact hf.accounts hpos
  | plain t hlen hopen =>
      exact (transfer_accounts hopen (.inl hlen) ..).thins (thins_wakeChan ..)
  | select w items hlen hopen =>
      exact (transfer_accounts hopen (.inl hlen) ..).thins (thins_wakeSelect ..)
  | closedPlain t => exact (Accounts.refl met ch s).thins (thins_wakeChan ..)
  | closedSelect w items => exact (Accounts.refl met ch s).thins (thins_wakeSelect ..)
  | closed => exact .refl met ch s

theorem close_untouched (hch : ch ≠ x) :
    LeftAlone ch s (s.modChan x fun k => { k with closed := true }) :=
  ⟨Function.update_of_ne hch _ _, rfl⟩

theorem Closes.untouched {rc : Rc} (hc : Closes s x rc s') (hch : ch ≠ x) :
    LeftAlone ch s s' := by
  cases hc with
  | again => exact ⟨rfl, rfl⟩
  | drained a _ hd =>
      exact (close_untouched hch).thins (Shifts.thins (Drains.shifts hd))

theorem Closes.accounts {met : Prop} {rc : Rc} (hc : Closes s ch rc s') : Accounts met ch s s' := by
  cases hc with
  | again => exact .refl met ch s
  | drained a _ hd =>
      have hclose : Accounts met ch s (s.modChan ch fun k => { k with closed := true }) := by
        refine .inr ⟨[], (List.append_nil _).symm, ?_⟩
        rw [modChan_self]
        exact .close
      exact hclose.thins (Shifts.thins (Drains.shifts hd))

theorem Destroys.untouched {rc : Rc} (hd : Destroys s x rc s') (hch : ch ≠ x) :
    LeftAlone ch s s' := by
  have drop : ∀ r : Rt, LeftAlone ch r (r.dropChan x) :=
    fun r => ⟨Function.update_of_ne hch _ _, rfl⟩
  cases hd with
  | refused => exact ⟨rfl, rfl⟩
  | dropped => exact drop s
  | drained a hd =>
      have hdrain : LeftAlone ch s a :=
        (close_untouched hch).thins (Shifts.thins (Drains.shifts hd))
      exact ⟨(drop a).chan.trans hdrain.chan, (drop a).history.trans hdrain.history⟩

theorem Destroys.accounts {met : Prop} {rc : Rc} (hd : Destroys s ch rc s') :
    Accounts met ch s s' := by
  cases hd with
  | refused => exact .refl met ch s
  | dropped => exact .inl (by simp [dropChan])
  | drained a => exact .inl (by simp [dropChan])

theorem ShutDown.accounts {met : Prop} (hd : ShutDown s s') : Accounts met ch s s' := by
  refine .inr ⟨[], by rw [history_congr hd.log, List.append_nil], ?_⟩
  rw [hd.chan ch]
  split
  · exact .close
  · exact .same

theorem addWaiters_frame (t : TaskId) (i : Nat) (cases : List SelectCase) (s : Rt) :
    (addWaiters t i cases s).chan = s.chan ∧ (addWaiters t i cases s).waitq = s.waitq ∧
      (addWaiters t i cases s).log = s.log ∧ (addWaiters t i cases s).frees = s.frees := by
  induction cases generalizing i s with
  | nil => exact ⟨rfl, rfl, rfl, rfl⟩
  | cons k ks ih =>
      rw [addWaiters]
      by_cases hk : k.isChannel = true
      · rw [if_pos hk]
        exact ih (i + 1) (s.addWaiter t i k)
      · rw [if_neg hk]
        exact ih (i + 1) s

theorem SelectParks.untouched {t : TaskId} {cases : List SelectCase} {plan : SelectPlan}
    (hp : SelectParks t cases plan s s') : LeftAlone ch s s' := by
  obtain ⟨hchan, -, hlog, -⟩ :=
    addWaiters_frame t 0 cases (s.prepareSelect t (plan.timeoutIndex.getD 0))
  cases hp with
  | untimed tape => exact ⟨congrFun hchan ch, history_congr hlog⟩
  | timed tape timers wakeNs i => exact ⟨congrFun hchan ch, history_congr hlog⟩

/-! ## Freed channels -/

theorem enqueue_frees (s : Rt) (x : ChanId) (c : CallId) (kind : SendKind) (src : Addr) :
    (s.enqueue x c kind src).frees = s.frees := rfl

theorem dequeue_frees (s : Rt) (x : ChanId) (c : CallId) (out : Addr) :
    (s.dequeue x c out).frees = s.frees := rfl

theorem wakeChan_frees (s : Rt) (q : WaitqRef) (t : TaskId) (rc : Rc) :
    (s.wakeChan q t rc).frees = s.frees := rfl

theorem SendNow.freed {c : CallId} {kind : SendKind} {value : Addr} {rc : Rc}
    (hs : SendNow s c kind x value rc s') (ch : ChanId) :
    s.frees (.chan ch) ≤ s'.frees (.chan ch) := by
  cases hs with
  | closed => exact le_rfl
  | plain => exact le_rfl
  | buffer => rw [enqueue_frees]
  | select w items => exact (thins_wakeSelect (s.transfer ..) ..).freed ch

theorem Filled.freed (hf : Filled s x s') (ch : ChanId) :
    s.frees (.chan ch) ≤ s'.frees (.chan ch) := by
  cases hf with
  | nothing => exact le_rfl
  | plain => rw [wakeChan_frees, enqueue_frees]
  | select w items =>
      refine le_trans ?_ ((thins_wakeSelect (s.enqueue ..) ..).freed ch)
      rw [enqueue_frees]

theorem RecvNow.freed {c : CallId} {out : Addr} {rc : Rc} (hr : RecvNow s c x out rc s')
    (ch : ChanId) : s.frees (.chan ch) ≤ s'.frees (.chan ch) := by
  cases hr with
  | buffer _ _ hf =>
      have := hf.freed ch
      rwa [dequeue_frees] at this
  | plain => exact le_rfl
  | select w items => exact (thins_wakeSelect (s.transfer ..) ..).freed ch
  | closedPlain => exact le_rfl
  | closedSelect w items => exact (s.thins_wakeSelect ..).freed ch
  | closed => exact le_rfl

theorem closed_freed (hd : Drains x (s.modChan x fun k => { k with closed := true }) s')
    (ch : ChanId) : s.frees (.chan ch) ≤ s'.frees (.chan ch) :=
  (Shifts.thins (Drains.shifts hd)).freed ch

theorem dropChan_freed (s : Rt) (x ch : ChanId) :
    s.frees (.chan ch) ≤ (s.dropChan x).frees (.chan ch) := by
  by_cases hch : ch = x
  · simp [dropChan, hch]
  · simp [dropChan, hch]

theorem Closes.freed {rc : Rc} (hc : Closes s x rc s') (ch : ChanId) :
    s.frees (.chan ch) ≤ s'.frees (.chan ch) := by
  cases hc with
  | again => exact le_rfl
  | drained _ _ hd => exact closed_freed hd ch

theorem Destroys.freed {rc : Rc} (hd : Destroys s x rc s') (ch : ChanId) :
    s.frees (.chan ch) ≤ s'.frees (.chan ch) := by
  cases hd with
  | refused => exact le_rfl
  | dropped => exact s.dropChan_freed x ch
  | drained a hd => exact (closed_freed hd ch).trans (a.dropChan_freed x ch)

theorem SelectParks.freed {t : TaskId} {cases : List SelectCase} {plan : SelectPlan}
    (hp : SelectParks t cases plan s s') (ch : ChanId) :
    s.frees (.chan ch) ≤ s'.frees (.chan ch) := by
  obtain ⟨-, -, -, hfrees⟩ :=
    addWaiters_frame t 0 cases (s.prepareSelect t (plan.timeoutIndex.getD 0))
  have hle := (congrFun hfrees (.chan ch)).symm.le
  cases hp with
  | untimed => exact hle
  | timed => exact hle

end Rt

namespace Sys

variable {s s' : Sys} {act : Act} {r : Rt} {ch : ChanId}

/-! ## Objects are made once -/

theorem Prepared.made_eq {s₀ : Sys} (hp : s.Prepared s₀) (h : s.Ok) : s₀.rt.made = s.rt.made := by
  rcases hp.cases h with ⟨tape, rfl⟩ | ⟨-, -, rt, hb, rfl⟩
  · rfl
  · exact hb.made

theorem Case.made_mono {act : Act} (hc : Case s act s') (h : s.Ok) (o : Obj)
    (ho : s.rt.made o = true) : s'.rt.made o = true := by
  cases hc with
  | calls a call hen hpc => cases a <;> exact ho
  | acts a env c o p es os sel hen hcall hp hr _ hs hon => exact (hs.passes h.rest).made _ ho
  | parks w t env c p hw hl hcall hnp hp hm =>
      have hr : s.rt.Runs t := (h.runs t).mpr ⟨w, hw⟩
      exact (Moves.grows (Shifts.moves hm.shifts)).made _ ((hp.frame (h.rest.noWaiters t hr)).1 _ ho)
  | finishes w t hw hl hpc hb => exact hb.made _ ho
  | halts n env c hpc hr hm => exact (Moves.grows (Shifts.moves (FdShifts.shifts hm))).made _ ho
  | shutsDown n env c hpc hinit hr halone hd => exact (congrFun hd.made o).trans ho
  | loops w q lock _ hl hm => exact (Moves.grows (Shifts.moves (Ticks.shifts hm))).made _ ho
  | dispatches w env t q hw hl hq hm => exact (Moves.grows (Shifts.moves hm.shifts)).made _ ho
  | _ => exact ho

/-! ## Steps -/

/-- A channel is freed for good. -/
theorem Traffic.freed (ht : s.Traffic act r) (ch : ChanId) :
    s.rt.frees (.chan ch) ≤ r.frees (.chan ch) := by
  cases ht with
  | still hthin => exact hthin.freed ch
  | send c kind x value rc _ hs hthin => exact (hs.freed ch).trans (hthin.freed ch)
  | recv c x out rc _ hr hthin => exact (hr.freed ch).trans (hthin.freed ch)
  | close x rc _ hc hthin => exact (hc.freed ch).trans (hthin.freed ch)
  | destroy x rc _ hd hthin => exact (hd.freed ch).trans (hthin.freed ch)
  | create elemSize capacity hthin => exact hthin.freed ch
  | parkSend t x value _ _ hthin => exact hthin.freed ch
  | parkRecv t x out _ _ hthin => exact hthin.freed ch
  | parkSelect w t env c cases plan _ _ _ _ hp hthin => exact (hp.freed ch).trans (hthin.freed ch)
  | shutdown hd hthin => exact (hd.freesChan ch).symm.le.trans (hthin.freed ch)

/-- Every step accounts for every channel that exists. -/
theorem Traffic.accounts (ht : s.Traffic act r) (hi : s.rt.Inv) (hlive : s.rt.Live (.chan ch)) :
    Accounts (s.rt.Met ch) ch s.rt r := by
  cases ht with
  | still hthin => exact (Accounts.refl _ ch s.rt).thins hthin
  | send c kind x value rc _ hs hthin =>
      by_cases hch : ch = x
      · subst hch
        exact hs.accounts.thins hthin
      · exact ((hs.untouched hch).thins hthin).accounts
  | recv c x out rc _ hr hthin =>
      by_cases hch : ch = x
      · subst hch
        exact hr.accounts.thins hthin
      · exact ((hr.untouched hch).thins hthin).accounts
  | close x rc _ hc hthin =>
      by_cases hch : ch = x
      · subst hch
        exact hc.accounts.thins hthin
      · exact ((hc.untouched hch).thins hthin).accounts
  | destroy x rc _ hd hthin =>
      by_cases hch : ch = x
      · subst hch
        exact hd.accounts.thins hthin
      · exact ((hd.untouched hch).thins hthin).accounts
  | create elemSize capacity hthin =>
      have hlt : ch < s.rt.nextAddr := hi.heap.fresh _ hlive.1
      have hnew : LeftAlone ch s.rt (s.rt.newChan elemSize capacity) :=
        ⟨Function.update_of_ne hlt.ne _ _, rfl⟩
      exact (hnew.thins hthin).accounts
  | parkSend t x value _ _ hthin =>
      have hpark : LeftAlone ch s.rt (s.rt.parkChan t x .send value) := ⟨rfl, rfl⟩
      exact (hpark.thins hthin).accounts
  | parkRecv t x out _ _ hthin =>
      have hpark : LeftAlone ch s.rt (s.rt.parkChan t x .recv out) := ⟨rfl, rfl⟩
      exact (hpark.thins hthin).accounts
  | parkSelect w t env c cases plan _ _ _ _ hp hthin => exact (hp.untouched.thins hthin).accounts
  | shutdown hd hthin => exact hd.accounts.thins hthin

/-- A channel that does not exist is left alone, or it is the one that the step makes. -/
theorem Traffic.unmade (ht : s.Traffic act r) (hi : s.rt.Inv)
    (hmade : s.rt.made (.chan ch) = false) : LeftAlone ch s.rt r ∨
      ∃ elemSize capacity, r.history ch = s.rt.history ch ∧ r.chan ch = {
        elemSize := elemSize, capacity := capacity
        buffer := List.replicate (elemSize * capacity) 0 } := by
  have hne : ∀ {x}, s.rt.Live (.chan x) → ch ≠ x := fun hx he => by
    subst he
    simp [hx.1] at hmade
  cases ht with
  | still hthin => exact .inl (LeftAlone.thins ⟨rfl, rfl⟩ hthin)
  | send c kind x value rc hl hs hthin => exact .inl ((hs.untouched (hne hl)).thins hthin)
  | recv c x out rc hl hr hthin => exact .inl ((hr.untouched (hne hl)).thins hthin)
  | close x rc hl hc hthin => exact .inl ((hc.untouched (hne hl)).thins hthin)
  | destroy x rc hl hd hthin => exact .inl ((hd.untouched (hne hl)).thins hthin)
  | create elemSize capacity hthin =>
      by_cases hch : ch = s.rt.nextAddr
      · subst hch
        refine .inr ⟨elemSize, capacity, hthin.history_eq, ?_⟩
        rw [hthin.chan]
        exact newChan_self ..
      · have hnew : LeftAlone ch s.rt (s.rt.newChan elemSize capacity) :=
          ⟨Function.update_of_ne hch _ _, rfl⟩
        exact .inl (hnew.thins hthin)
  | parkSend t x value _ _ hthin =>
      have hpark : LeftAlone ch s.rt (s.rt.parkChan t x .send value) := ⟨rfl, rfl⟩
      exact .inl (hpark.thins hthin)
  | parkRecv t x out _ _ hthin =>
      have hpark : LeftAlone ch s.rt (s.rt.parkChan t x .recv out) := ⟨rfl, rfl⟩
      exact .inl (hpark.thins hthin)
  | parkSelect w t env c cases plan _ _ _ _ hp hthin => exact .inl (hp.untouched.thins hthin)
  | shutdown hd hthin =>
      refine .inl (LeftAlone.thins ⟨?_, history_congr hd.log⟩ hthin)
      rw [hd.chan ch, if_neg fun hm => hne (hi.chan.live ch hm) rfl]

theorem Prepared.ledger {s₀ : Sys} (hp : s.Prepared s₀) (h : s.Ok) (ch : ChanId) :
    s₀.rt.chan = s.rt.chan ∧
    s₀.rt.log = s.rt.log ∧ s₀.rt.frees = s.rt.frees ∧ (s₀.rt.Met ch → s.rt.Met ch) := by
  rcases hp.cases h with ⟨tape, rfl⟩ | ⟨-, -, rt, hb, rfl⟩
  · exact ⟨rfl, rfl, rfl, id⟩
  · refine ⟨hb.chan, hb.log, hb.frees, fun hm => ?_⟩
    simp [Rt.Met, hb.off.waitq, hb.off.selectq] at hm

theorem Ok.accounts (h : s.Ok) (hact : s.Contract act) (hstep : machine.step s act = some s')
    (hlive : s.rt.Live (.chan ch)) : Accounts (s.rt.Met ch) ch s.rt s'.rt := by
  obtain ⟨s₀, hp, hc⟩ := h.step_cases hact hstep
  have hok := hp.ok h
  obtain ⟨hchan, hlog, hfrees, hmet⟩ := hp.ledger h ch
  have hlive₀ : s₀.rt.Live (.chan ch) := ⟨(hp.made_eq h).symm ▸ hlive.1, hfrees.symm ▸ hlive.2⟩
  rcases (hc.traffic hok).accounts hok.rest.inv hlive₀ with hf | ⟨es, hes, hk⟩
  · exact .inl hf
  · rw [history_congr hlog] at hes
    rw [hchan] at hk
    exact .inr ⟨es, hes, hk.mono hmet⟩

theorem Ok.unmade (h : s.Ok) (hact : s.Contract act) (hstep : machine.step s act = some s')
    (hmade : s.rt.made (.chan ch) = false) : LeftAlone ch s.rt s'.rt ∨
      ∃ elemSize capacity, s'.rt.history ch = s.rt.history ch ∧ s'.rt.chan ch = {
        elemSize := elemSize, capacity := capacity
        buffer := List.replicate (elemSize * capacity) 0 } := by
  obtain ⟨s₀, hp, hc⟩ := h.step_cases hact hstep
  have hok := hp.ok h
  obtain ⟨hchan, hlog, -, -⟩ := hp.ledger h ch
  have hmade₀ : s₀.rt.made (.chan ch) = false := (congrFun (hp.made_eq h) _).trans hmade
  rcases (hc.traffic hok).unmade hok.rest.inv hmade₀ with hl | ⟨e, c, hh, hk⟩
  · exact .inl ⟨by rw [hl.chan, hchan], by rw [hl.history, history_congr hlog]⟩
  · exact .inr ⟨e, c, by rw [hh, history_congr hlog], hk⟩

theorem Ok.freed (h : s.Ok) (hact : s.Contract act) (hstep : machine.step s act = some s')
    (ch : ChanId) : s.rt.frees (.chan ch) ≤ s'.rt.frees (.chan ch) := by
  obtain ⟨s₀, hp, hc⟩ := h.step_cases hact hstep
  rw [← (hp.ledger h ch).2.2.1]
  exact (hc.traffic (hp.ok h)).freed ch

theorem Ok.made_mono (h : s.Ok) (hact : s.Contract act) (hstep : machine.step s act = some s')
    (o : Obj) (ho : s.rt.made o = true) : s'.rt.made o = true := by
  obtain ⟨s₀, hp, hc⟩ := h.step_cases hact hstep
  exact hc.made_mono (hp.ok h) o ((congrFun (hp.made_eq h) o).trans ho)

/-- What holds of a new channel, and is kept by every step of a channel, holds of every
channel that has not been destroyed. -/
theorem ledger_invariant {C : Sys → Act → Prop} {I : Chan → List Event → Prop}
    (hnew : ∀ elemSize capacity, I {
      elemSize := elemSize, capacity := capacity
      buffer := List.replicate (elemSize * capacity) 0 } [])
    (hstep : ∀ s es k, machine.Reach (Under C) s → I (s.rt.chan ch) (s.rt.history ch) →
      Chan.Step ch (s.rt.Met ch) (s.rt.chan ch) es k → I k (s.rt.history ch ++ es))
    (h : machine.Reach (Under C) s) (hlive : s.rt.Live (.chan ch)) :
    I (s.rt.chan ch) (s.rt.history ch) := by
  refine (h.invariant (I := fun s => (s.rt.made (.chan ch) = false → s.rt.history ch = []) ∧
    (s.rt.frees (.chan ch) = 0 → I (s.rt.chan ch) (s.rt.history ch))) (fun s hs => ?_)
    fun s act s' hr ih hact hs => ?_).2 hlive.2
  · obtain ⟨kind, rfl⟩ := hs
    exact ⟨fun _ => rfl, fun _ => hnew 0 0⟩
  · have hok := ok_of_under hr
    have hfree : s'.rt.frees (.chan ch) = 0 → s.rt.frees (.chan ch) = 0 :=
      fun hf => Nat.le_zero.mp (hf ▸ hok.freed hact.1 hs ch)
    cases hm : s.rt.made (.chan ch) with
    | true =>
        refine ⟨fun hm' => ?_, fun hf => ?_⟩
        · simp [hok.made_mono hact.1 hs _ hm] at hm'
        · rcases hok.accounts hact.1 hs ⟨hm, hfree hf⟩ with hf' | ⟨es, hes, hk⟩
          · exact absurd hf hf'
          · rw [hes]
            exact hstep s es _ hr (ih.2 (hfree hf)) hk
    | false =>
        have hnil := ih.1 hm
        rcases hok.unmade hact.1 hs hm with hl | ⟨e, c, hh, hk⟩
        · rw [hl.chan, hl.history]
          exact ⟨fun _ => hnil, fun hf => ih.2 (hfree hf)⟩
        · rw [hh, hnil, hk]
          exact ⟨fun _ => rfl, fun _ => hnew e c⟩

end Sys

end Microthread
