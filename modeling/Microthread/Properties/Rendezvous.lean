import Microthread.Properties.Solitude
import Microthread.System.Ledger

/-!
# Senders and receivers do not wait side by side

A channel on which senders are parked is open and full, one on which receivers are parked
is open and empty, and the two kinds of waiters meet on a channel only as cases of one
select. Every channel operation keeps this, and so does the registration of a select that
finds all its cases blocked. In a run with one worker it always does; with several workers
an operation of another worker may fall between the trials and the registration.
-/

namespace Microthread

open Foundation Rt

namespace Rt

variable {s s' a : Rt} {ch x : ChanId} {t : TaskId}

/-- The rendezvous invariant of a channel. -/
structure Meets (s : Rt) (ch : ChanId) : Prop where
  valid : (s.chan ch).toRingBuffer.Valid
  sending : (s.waitq (.senders ch)).items ≠ [] ∨ (s.selectq (.senders ch)).items ≠ [] →
    (s.chan ch).closed = false ∧ (s.chan ch).capacity ≤ (s.chan ch).len
  receiving : (s.waitq (.receivers ch)).items ≠ [] ∨ (s.selectq (.receivers ch)).items ≠ [] →
    (s.chan ch).closed = false ∧ (s.chan ch).len = 0
  plainSenders : (s.waitq (.senders ch)).items ≠ [] →
    (s.waitq (.receivers ch)).items = [] ∧ (s.selectq (.receivers ch)).items = []
  plainReceivers : (s.waitq (.receivers ch)).items ≠ [] →
    (s.waitq (.senders ch)).items = [] ∧ (s.selectq (.senders ch)).items = []
  selects : ∀ v ∈ (s.selectq (.senders ch)).items, ∀ w ∈ (s.selectq (.receivers ch)).items,
    (s.selw v).task = (s.selw w).task

/-- Waiters leave the queues of the channel. -/
theorem Meets.thin (h : s.Meets ch) (hchan : s'.chan ch = s.chan ch)
    (hwaitq : ∀ r, r.chan? = some ch → (s'.waitq r).items.Sublist (s.waitq r).items)
    (hselectq : ∀ r, r.chan = ch → (s'.selectq r).items.Sublist (s.selectq r).items)
    (hselw : ∀ r, r.chan = ch → ∀ w ∈ (s'.selectq r).items, (s'.selw w).task = (s.selw w).task) :
    s'.Meets ch := by
  have hne : ∀ {l l' : List Nat}, l'.Sublist l → l' ≠ [] → l ≠ [] :=
    fun hs hn he => hn (List.sublist_nil.mp (he ▸ hs))
  have hnil : ∀ {l l' : List Nat}, l'.Sublist l → l = [] → l' = [] :=
    fun hs he => List.sublist_nil.mp (he ▸ hs)
  refine ⟨hchan ▸ h.valid, fun hq => ?_, fun hq => ?_, fun hq => ?_, fun hq => ?_,
    fun v hv w hw => ?_⟩
  · rw [hchan]
    exact h.sending (hq.imp (hne (hwaitq _ rfl)) (hne (hselectq _ rfl)))
  · rw [hchan]
    exact h.receiving (hq.imp (hne (hwaitq _ rfl)) (hne (hselectq _ rfl)))
  · obtain ⟨h1, h2⟩ := h.plainSenders (hne (hwaitq _ rfl) hq)
    exact ⟨hnil (hwaitq _ rfl) h1, hnil (hselectq _ rfl) h2⟩
  · obtain ⟨h1, h2⟩ := h.plainReceivers (hne (hwaitq _ rfl) hq)
    exact ⟨hnil (hwaitq _ rfl) h1, hnil (hselectq _ rfl) h2⟩
  · rw [hselw _ rfl v hv, hselw _ rfl w hw]
    exact h.selects v ((hselectq _ rfl).subset hv) w ((hselectq _ rfl).subset hw)

theorem Meets.thins (h : s.Meets ch) (ht : Thins s s') : s'.Meets ch :=
  h.thin (by rw [ht.chan]) (fun r hr => ht.waitq r (by simp [hr])) (fun r _ => ht.selectq r)
    fun r _ w hw => by rw [ht.selw r w hw]

/-- Nobody waits on the channel. -/
theorem Meets.unattended (hvalid : (s.chan ch).toRingBuffer.Valid) (hu : s.Unattended ch) :
    s.Meets ch := by
  obtain ⟨h1, h2, h3, h4⟩ := hu
  refine ⟨hvalid, fun hq => ?_, fun hq => ?_, fun hq => absurd h1 hq, fun hq => absurd h2 hq, ?_⟩
  · exact absurd hq (by simp [h1, h3])
  · exact absurd hq (by simp [h2, h4])
  · simp [h3]

theorem Meets.closed (h : s.Meets ch) (hc : (s.chan ch).closed = true) : s.Unattended ch := by
  have hs : ¬((s.waitq (.senders ch)).items ≠ [] ∨ (s.selectq (.senders ch)).items ≠ []) :=
    fun hq => by simp [(h.sending hq).1] at hc
  have hr : ¬((s.waitq (.receivers ch)).items ≠ [] ∨ (s.selectq (.receivers ch)).items ≠ []) :=
    fun hq => by simp [(h.receiving hq).1] at hc
  rw [not_or, not_not, not_not] at hs hr
  exact ⟨hs.1, hr.1, hs.2, hr.2⟩

/-- Values are copied and a task leaves a queue; the records of the channels stay. -/
theorem Meets.wakeChan (h : s.Meets ch) (hchan : a.chan = s.chan) (hwaitq : a.waitq = s.waitq)
    (hselectq : a.selectq = s.selectq) (hselw : a.selw = s.selw) (r : WaitqRef) (t : TaskId)
    (rc : Rc) : (a.wakeChan r t rc).Meets ch := by
  have ha : a.Meets ch := h.thin (by rw [hchan]) (fun _ _ => by rw [hwaitq])
    (fun _ _ => by rw [hselectq]) fun _ _ _ _ => by rw [hselw]
  exact ha.thins (.unlink rfl rfl rfl rfl rfl (a.log_done _ _ _))

theorem Meets.wakeSelect (h : s.Meets ch) (hchan : a.chan = s.chan) (hwaitq : a.waitq = s.waitq)
    (hselectq : a.selectq = s.selectq) (hselw : a.selw = s.selw) (t : TaskId)
    (items : List TaskId) (role : Role) (rc : Rc) (index : Nat) :
    (a.wakeSelect t items role rc index).Meets ch := by
  have ha : a.Meets ch := h.thin (by rw [hchan]) (fun _ _ => by rw [hwaitq])
    (fun _ _ => by rw [hselectq]) fun _ _ _ _ => by rw [hselw]
  exact ha.thins (a.thins_wakeSelect t items role rc index)

/-- The queues of channel `ch` and its record are those of before. -/
theorem Meets.other (h : s.Meets ch) (hchan : s'.chan ch = s.chan ch) (hwaitq : s'.waitq = s.waitq)
    (hselectq : s'.selectq = s.selectq) (hselw : s'.selw = s.selw) : s'.Meets ch :=
  h.thin hchan (fun _ _ => by rw [hwaitq]) (fun _ _ => by rw [hselectq]) fun _ _ _ _ => by rw [hselw]

/-! ## Sending -/

/-- A value enters a buffer with room, on which therefore no sender waits. -/
theorem Meets.enqueue (h : s.Meets ch) (hroom : (s.chan ch).len < (s.chan ch).capacity)
    (hw : (s.waitq (.receivers ch)).items = []) (hs : (s.selectq (.receivers ch)).items = [])
    (c : CallId) (kind : SendKind) (src : Addr) : (s.enqueue ch c kind src).Meets ch := by
  have hno : ¬((s.waitq (.senders ch)).items ≠ [] ∨ (s.selectq (.senders ch)).items ≠ []) :=
    fun hq => absurd (h.sending hq).2 (Nat.not_le_of_lt hroom)
  rw [not_or, not_not, not_not] at hno
  refine .unattended ?_ ⟨hno.1, hw, hno.2, hs⟩
  rw [enqueue_chan_self]
  exact h.valid.push hroom (by simp [valueAt, readMem])

theorem SendNow.meets {c : CallId} {kind : SendKind} {value : Addr} {rc : Rc}
    (hs : SendNow s c kind ch value rc s') (h : ∀ x, s.Meets x) (x : ChanId) : s'.Meets x := by
  cases hs with
  | closed => exact h x
  | plain t => exact (h x).wakeChan (by rfl) (by rfl) (by rfl) (by rfl) _ _ _
  | select w items => exact (h x).wakeSelect (by rfl) (by rfl) (by rfl) (by rfl) _ _ _ _ _
  | buffer _ hw hq hroom =>
      by_cases hx : x = ch
      · subst hx
        exact (h x).enqueue hroom hw hq c kind value
      · exact (h x).other (s.enqueue_chan_of_ne c kind value hx) rfl rfl rfl

/-! ## Receiving -/

/-- The refill after a receive makes the buffer full again where senders wait. -/
theorem Meets.refilled {c : CallId} {out : Addr} (h : s.Meets ch) (hpos : 0 < (s.chan ch).len)
    (hf : Filled (s.dequeue ch c out) ch s') : s'.Meets ch := by
  have hvalid : ((s.dequeue ch c out).chan ch).toRingBuffer.Valid := by
    rw [dequeue_chan_self]
    exact h.valid.pop hpos
  have hlen : ((s.dequeue ch c out).chan ch).len = (s.chan ch).len - 1 := by
    rw [dequeue_chan_self]
    rfl
  have hcap : ((s.dequeue ch c out).chan ch).capacity = (s.chan ch).capacity := by
    rw [dequeue_chan_self]
    rfl
  have hle := h.valid.len_le
  have hrecv : ¬((s.waitq (.receivers ch)).items ≠ [] ∨ (s.selectq (.receivers ch)).items ≠ []) :=
    fun hq => absurd (h.receiving hq).2 hpos.ne'
  rw [not_or, not_not, not_not] at hrecv
  -- the state between the two sections of the receive, with the refilled buffer
  have key : ∀ (d : CallId) (kind : SendKind) (src : Addr),
      ((s.waitq (.senders ch)).items ≠ [] ∨ (s.selectq (.senders ch)).items ≠ []) →
      ((s.dequeue ch c out).enqueue ch d kind src).Meets ch := by
    intro d kind src hq
    obtain ⟨hopen, hfull⟩ := h.sending hq
    have hroom : ((s.dequeue ch c out).chan ch).len < ((s.dequeue ch c out).chan ch).capacity := by
      omega
    refine ⟨?_, fun _ => ⟨?_, ?_⟩, fun hr => ?_, fun _ => hrecv, fun hr => absurd hrecv.1 hr,
      fun v _ w hw => ?_⟩
    · rw [enqueue_chan_self]
      exact hvalid.push hroom (by simp [valueAt, readMem])
    · rw [enqueue_chan_self, dequeue_chan_self]
      exact hopen
    · rw [enqueue_chan_self]
      change ((s.dequeue ch c out).chan ch).capacity ≤ ((s.dequeue ch c out).chan ch).len + 1
      omega
    · have hr : (s.waitq (.receivers ch)).items ≠ [] ∨ (s.selectq (.receivers ch)).items ≠ [] := hr
      exact absurd hr (by simp [hrecv.1, hrecv.2])
    · have hw : w ∈ (s.selectq (.receivers ch)).items := hw
      rw [hrecv.2] at hw
      cases hw
  cases hf with
  | nothing hno =>
      refine .unattended hvalid ?_
      by_cases hq : (s.waitq (.senders ch)).items ≠ [] ∨ (s.selectq (.senders ch)).items ≠ []
      · obtain ⟨hopen, hfull⟩ := h.sending hq
        rcases hno with hc | hc | ⟨h1, h2⟩
        · rw [dequeue_chan_self] at hc
          exact absurd hc (by simp [hopen])
        · omega
        · exact ⟨h1, hrecv.1, h2, hrecv.2⟩
      · rw [not_or, not_not, not_not] at hq
        exact ⟨hq.1, hrecv.1, hq.2, hrecv.2⟩
  | plain t _ _ hhead =>
      have hq := key ((s.dequeue ch c out).task t).call .plain ((s.dequeue ch c out).chanValueOf t)
        (.inl fun he => by simp [show ((s.dequeue ch c out).waitq (.senders ch)).items = [] from he]
          at hhead)
      exact hq.wakeChan rfl rfl rfl rfl _ _ _
  | select w items _ _ _ hhead =>
      have hq := key ((s.dequeue ch c out).task ((s.dequeue ch c out).selw w).task).call .select
        ((s.dequeue ch c out).selw w).value
        (.inr fun he => by
          simp [show ((s.dequeue ch c out).selectq (.senders ch)).items = [] from he] at hhead)
      exact hq.wakeSelect rfl rfl rfl rfl _ _ _ _ _

theorem Filled.meets_of_ne (hf : Filled s ch s') (hx : x ≠ ch) (h : s.Meets x) : s'.Meets x := by
  have henq : ∀ (c : CallId) (kind : SendKind) (src : Addr), (s.enqueue ch c kind src).Meets x :=
    fun c kind src => h.other (s.enqueue_chan_of_ne c kind src hx) rfl rfl rfl
  cases hf with
  | nothing => exact h
  | plain t => exact (henq _ _ _).wakeChan rfl rfl rfl rfl _ _ _
  | select w items => exact (henq _ _ _).wakeSelect rfl rfl rfl rfl _ _ _ _ _

theorem RecvNow.meets {c : CallId} {out : Addr} {rc : Rc} (hr : RecvNow s c ch out rc s')
    (h : ∀ x, s.Meets x) (x : ChanId) : s'.Meets x := by
  cases hr with
  | buffer _ hpos hf =>
      by_cases hx : x = ch
      · subst hx
        exact (h x).refilled hpos hf
      · exact hf.meets_of_ne hx ((h x).other (s.dequeue_chan_of_ne c out hx) rfl rfl rfl)
  | plain t => exact (h x).wakeChan (by rfl) (by rfl) (by rfl) (by rfl) _ _ _
  | select w items => exact (h x).wakeSelect (by rfl) (by rfl) (by rfl) (by rfl) _ _ _ _ _
  | closedPlain t => exact (h x).wakeChan rfl rfl rfl rfl _ _ _
  | closedSelect w items => exact (h x).wakeSelect rfl rfl rfl rfl _ _ _ _ _
  | closed => exact h x

/-! ## Closing, destroying and making channels -/

theorem Drains.meets (hd : Drains ch s s') (h : s.Meets x) : s'.Meets x :=
  h.thins (Shifts.thins (Drains.shifts hd))

/-- The channel is marked closed and its queues are drained. -/
theorem closed_meets (hd : Drains ch (s.modChan ch fun k => { k with closed := true }) s')
    (hu : s'.Unattended ch) (h : ∀ x, s.Meets x) (x : ChanId) : s'.Meets x := by
  by_cases hx : x = ch
  · subst hx
    refine .unattended ?_ hu
    rw [Shifts.chan_eq (Drains.shifts hd), modChan_self]
    exact (h x).valid
  · exact Drains.meets hd ((h x).other (Function.update_of_ne hx _ _) rfl rfl rfl)

theorem Closes.meets {rc : Rc} (hc : Closes s ch rc s') (h : ∀ x, s.Meets x) (x : ChanId) :
    s'.Meets x := by
  cases hc with
  | again => exact h x
  | drained a _ hd hu => exact closed_meets hd hu h x

theorem valid_empty (elemSize capacity : Nat) : ({
    elemSize := elemSize, capacity := capacity
    buffer := List.replicate (elemSize * capacity) 0 } : RingBuffer Byte).Valid where
  len_le := Nat.zero_le _
  head_lt h := h
  tail_eq h := (Nat.zero_mod capacity).symm
  size := by simp

theorem dropChan_meets (hu : s.Unattended ch) (h : ∀ x, s.Meets x) (x : ChanId) :
    (s.dropChan ch).Meets x := by
  by_cases hx : x = ch
  · subst hx
    refine .unattended ?_ hu
    rw [dropChan_self]
    exact valid_empty 0 0
  · exact (h x).other (Function.update_of_ne hx _ _) rfl rfl rfl

theorem Destroys.meets {rc : Rc} (hd : Destroys s ch rc s') (h : ∀ x, s.Meets x) (x : ChanId) :
    s'.Meets x := by
  cases hd with
  | refused => exact h x
  | dropped hu => exact dropChan_meets hu h x
  | drained a hd hu => exact dropChan_meets hu (closed_meets hd hu h) x

theorem newChan_meets (hi : s.Inv) (h : ∀ x, s.Meets x) (elemSize capacity : Nat) (x : ChanId) :
    (s.newChan elemSize capacity).Meets x := by
  by_cases hx : x = s.nextAddr
  · subst hx
    have hno : s.nextAddr ∉ s.channels := fun hm => by
      have := hi.heap.fresh _ (hi.chan.live _ hm).1
      exact lt_irrefl _ this
    refine .unattended ?_ (hi.unattended hno)
    rw [newChan_self]
    exact valid_empty elemSize capacity
  · exact (h x).other (Function.update_of_ne hx _ _) rfl rfl rfl

/-! ## Parking -/

theorem parkSend_meets (hb : s.SendBlocks ch) (h : ∀ x, s.Meets x) (t : TaskId) (value : Addr)
    (x : ChanId) : (s.parkChan t ch .send value).Meets x := by
  obtain ⟨hopen, hw, hs, hfull⟩ := hb
  have hq : ∀ r, r ≠ .senders ch → (s.parkChan t ch .send value).waitq r = s.waitq r :=
    fun r hr => Function.update_of_ne (by simpa [Rt.chanQueue] using hr) _ _
  by_cases hx : x = ch
  · subst hx
    have hw' : ((s.parkChan t x .send value).waitq (.receivers x)).items = [] := by
      rw [hq _ (by simp)]
      exact hw
    refine ⟨(h x).valid, fun _ => ⟨hopen, ?_⟩, fun hr => ?_, fun _ => ⟨hw', hs⟩,
      fun hr => absurd hw' hr, fun v _ w hw => ?_⟩
    · change (s.chan x).capacity ≤ (s.chan x).len
      omega
    · exact absurd hr (by simp [hw', show ((s.parkChan t x .send value).selectq
        (.receivers x)).items = [] from hs])
    · rw [show ((s.parkChan t x .send value).selectq (.receivers x)).items = [] from hs] at hw
      cases hw
  · refine (h x).thin rfl (fun r hr => ?_) (fun _ _ => .refl _) fun _ _ _ _ => rfl
    rw [hq r fun he => hx (by simpa [he, WaitqRef.chan?] using hr.symm)]

theorem parkRecv_meets (hb : s.RecvBlocks ch) (h : ∀ x, s.Meets x) (t : TaskId) (out : Addr)
    (x : ChanId) : (s.parkChan t ch .recv out).Meets x := by
  obtain ⟨hopen, hlen, hw, hs⟩ := hb
  have hq : ∀ r, r ≠ .receivers ch → (s.parkChan t ch .recv out).waitq r = s.waitq r :=
    fun r hr => Function.update_of_ne (by simpa [Rt.chanQueue] using hr) _ _
  by_cases hx : x = ch
  · subst hx
    have hw' : ((s.parkChan t x .recv out).waitq (.senders x)).items = [] := by
      rw [hq _ (by simp)]
      exact hw
    refine ⟨(h x).valid, fun hr => ?_, fun _ => ⟨hopen, hlen⟩, fun hr => absurd hw' hr,
      fun _ => ⟨hw', hs⟩, fun v hv _ _ => ?_⟩
    · exact absurd hr (by simp [hw', show ((s.parkChan t x .recv out).selectq
        (.senders x)).items = [] from hs])
    · rw [show ((s.parkChan t x .recv out).selectq (.senders x)).items = [] from hs] at hv
      cases hv
  · refine (h x).thin rfl (fun r hr => ?_) (fun _ _ => .refl _) fun _ _ _ _ => rfl
    rw [hq r fun he => hx (by simpa [he, WaitqRef.chan?] using hr.symm)]

/-- The queue in which the waiter of a case stands. -/
theorem addWaiters_items (t : TaskId) (i : Nat) (cases : List SelectCase) (s : Rt)
    (r : SelectqRef) {w : WaiterId} (hw : w ∈ ((addWaiters t i cases s).selectq r).items) :
    w ∈ (s.selectq r).items ∨ ((addWaiters t i cases s).selw w).task = t ∧
      ∃ k ∈ cases, k.isChannel = true ∧ (waiterOf t 0 k).ref = r := by
  induction cases generalizing i s with
  | nil => exact .inl hw
  | cons k ks ih =>
      rw [addWaiters] at hw ⊢
      rcases ih _ _ hw with hold | ⟨htask, x, hx, hchan, href⟩
      · by_cases hk : k.isChannel = true
        · rw [if_pos hk, addWaiter_items, List.mem_append] at hold
          rcases hold with hold | hnew
          · exact .inl hold
          · split at hnew
            · next href =>
                obtain rfl := List.mem_singleton.mp hnew
                refine .inr ⟨?_, k, List.mem_cons_self, hk, href⟩
                have hself : (s.addWaiter t i k).selw s.nextAddr = waiterOf t i k :=
                  Function.update_self ..
                rw [if_pos hk, (addWaiters_added t (i + 1) ks (s.addWaiter t i k)).selw _
                  (Nat.lt_succ_self _), hself]
                rfl
            · cases hnew
        · rw [if_neg hk] at hold
          exact .inl hold
      · exact .inr ⟨htask, x, List.mem_cons_of_mem k hx, hchan, href⟩

/-- The waiters of a select whose channel cases all block are linked. -/
theorem addWaiters_meets {cases : List SelectCase} (hi : s.Inv)
    (hb : ∀ k ∈ cases, k.isChannel = true → s.CaseBlocks k) (h : ∀ x, s.Meets x) (t : TaskId)
    (index : Nat) (x : ChanId) :
    (addWaiters t 0 cases (s.prepareSelect t index)).Meets x := by
  have hadd : Added t 0 cases (s.prepareSelect t index) _ := addWaiters_added ..
  obtain ⟨hchan, hwaitq, -⟩ := addWaiters_frame t 0 cases (s.prepareSelect t index)
  have hmem := fun r w => addWaiters_items t 0 cases (s.prepareSelect t index) r (w := w)
  generalize addWaiters t 0 cases (s.prepareSelect t index) = a at hadd hchan hwaitq hmem
  have hchan : a.chan = s.chan := hchan
  have hwaitq : a.waitq = s.waitq := hwaitq
  have hselw : ∀ r, ∀ w ∈ (s.selectq r).items, a.selw w = s.selw w := by
    intro r w hw
    obtain ⟨ht, hlist, -⟩ := hi.mem_selectq hw
    exact hadd.selw w (hi.heap.fresh _ (hi.heap.selectWaiter _ ht w hlist))
  -- a waiter stood there before, or it is new and its direction blocks
  have senders : ∀ w ∈ (a.selectq (.senders x)).items, w ∈ (s.selectq (.senders x)).items ∨
      (a.selw w).task = t ∧ s.SendBlocks x := by
    intro w hw
    refine (hmem _ w hw).imp_right ?_
    rintro ⟨htask, k, hk, hc, href⟩
    refine ⟨htask, ?_⟩
    have hcase := hb k hk hc
    rcases SelectCase.isChannel_iff.mp hc with hop | hop
    · simp only [waiterOf, SelectWaiter.ref, hop, if_true, SelectqRef.senders.injEq] at href
      simpa only [CaseBlocks, hop, href] using hcase
    · simp [waiterOf, SelectWaiter.ref, hop] at href
  have receivers : ∀ w ∈ (a.selectq (.receivers x)).items, w ∈ (s.selectq (.receivers x)).items ∨
      (a.selw w).task = t ∧ s.RecvBlocks x := by
    intro w hw
    refine (hmem _ w hw).imp_right ?_
    rintro ⟨htask, k, hk, hc, href⟩
    refine ⟨htask, ?_⟩
    have hcase := hb k hk hc
    rcases SelectCase.isChannel_iff.mp hc with hop | hop
    · simp [waiterOf, SelectWaiter.ref, hop] at href
    · simp only [waiterOf, SelectWaiter.ref, hop, reduceCtorEq, if_false,
        SelectqRef.receivers.injEq] at href
      simpa only [CaseBlocks, hop, href] using hcase
  have hx := h x
  refine ⟨hchan ▸ hx.valid, ?_, ?_, ?_, ?_, ?_⟩
  · rw [hchan, hwaitq]
    rintro (hq | hq)
    · exact hx.sending (.inl hq)
    · obtain ⟨w, hw⟩ := List.exists_mem_of_ne_nil _ hq
      rcases senders w hw with hold | ⟨-, hopen, -, -, hfull⟩
      · exact hx.sending (.inr (List.ne_nil_of_mem hold))
      · exact ⟨hopen, by omega⟩
  · rw [hchan, hwaitq]
    rintro (hq | hq)
    · exact hx.receiving (.inl hq)
    · obtain ⟨w, hw⟩ := List.exists_mem_of_ne_nil _ hq
      rcases receivers w hw with hold | ⟨-, hopen, hlen, -⟩
      · exact hx.receiving (.inr (List.ne_nil_of_mem hold))
      · exact ⟨hopen, hlen⟩
  · rw [hwaitq]
    intro hq
    obtain ⟨h1, h2⟩ := hx.plainSenders hq
    refine ⟨h1, List.eq_nil_iff_forall_not_mem.mpr fun w hw => ?_⟩
    rcases receivers w hw with hold | ⟨-, -, -, hnone, -⟩
    · simp [h2] at hold
    · exact hq hnone
  · rw [hwaitq]
    intro hq
    obtain ⟨h1, h2⟩ := hx.plainReceivers hq
    refine ⟨h1, List.eq_nil_iff_forall_not_mem.mpr fun w hw => ?_⟩
    rcases senders w hw with hold | ⟨-, -, hnone, -⟩
    · simp [h2] at hold
    · exact hq hnone
  · intro v hv w hw
    rcases senders v hv with hv | ⟨htv, -, -, hnone, -⟩
    · rcases receivers w hw with hw | ⟨-, -, -, -, hnone⟩
      · rw [hselw _ v hv, hselw _ w hw]
        exact hx.selects v hv w hw
      · simp [hnone] at hv
    · rcases receivers w hw with hw | ⟨htw, -⟩
      · simp [hnone] at hw
      · rw [htv, htw]

theorem SelectParks.meets {cases : List SelectCase} {plan : SelectPlan}
    (hp : SelectParks t cases plan s s') (hi : s.Inv)
    (hb : ∀ k ∈ cases, k.isChannel = true → s.CaseBlocks k) (h : ∀ x, s.Meets x) (x : ChanId) :
    s'.Meets x := by
  have ha := addWaiters_meets hi hb h t (plan.timeoutIndex.getD 0) x
  cases hp with
  | untimed tape => exact ha.other rfl rfl rfl rfl
  | timed tape timers wakeNs i => exact ha.other rfl rfl rfl rfl

theorem ShutDown.meets (hd : ShutDown s s') (h : ∀ x, s.Meets x) (x : ChanId) : s'.Meets x := by
  refine .unattended ?_ ?_
  · rw [hd.chan x]
    split
    · exact (h x).valid
    · exact (h x).valid
  · simp [Unattended, hd.off.waitq, hd.off.selectq]

end Rt

namespace Sys

variable {s s' : Sys} {act : Act}

/-- A select that registers its waiters finds all its channel cases blocked, as its trials
did. -/
def Attentive (s : Sys) : Act → Prop
  | .cont (.task _ t) _ =>
    match s.pc (.task t) with
    | .selectReg _ cases _ => ∀ k ∈ cases, k.isChannel = true → s.rt.CaseBlocks k
    | _ => True
  | _ => True

instance (s : Sys) (act : Act) : Decidable (s.Attentive act) := by
  induction act using Act.casesOn with
  | cont a env =>
      induction a using Actor.casesOn with
      | ext n => exact instDecidableTrue
      | task w t =>
          dsimp only [Attentive]
          generalize s.pc (.task t) = p
          induction p using Pc.casesOn <;> dsimp only <;> infer_instance
  | _ => exact instDecidableTrue

theorem Attentive.prepared {s₀ : Sys} (hok : s.Ok) (hp : s.Prepared s₀) (h : s.Attentive act) :
    s₀.Attentive act := by
  unfold Attentive at h ⊢
  split
  · split
    · next t _ _ c cases plan hpc =>
        rw [hp.pc_eq] at hpc
        simp only [hpc] at h
        intro k hk hc
        rcases hp.cases hok with ⟨tape, rfl⟩ | ⟨-, -, rt, hboot, rfl⟩
        · exact h k hk hc
        · exact hboot.caseBlocks (h k hk hc)
    · trivial
  · trivial

theorem Traffic.meets {r : Rt} (ht : s.Traffic act r) (hi : s.rt.Inv) (hatt : s.Attentive act)
    (h : ∀ x, s.rt.Meets x) (x : ChanId) : r.Meets x := by
  cases ht with
  | still hthin => exact (h x).thins hthin
  | send c kind ch value rc _ hs hthin => exact (hs.meets h x).thins hthin
  | recv c ch out rc _ hr hthin => exact (hr.meets h x).thins hthin
  | close ch rc _ hc hthin => exact (hc.meets h x).thins hthin
  | destroy ch rc _ hd hthin => exact (hd.meets h x).thins hthin
  | create elemSize capacity hthin => exact (newChan_meets hi h elemSize capacity x).thins hthin
  | parkSend t ch value _ hb hthin => exact (parkSend_meets hb h t value x).thins hthin
  | parkRecv t ch out _ hb hthin => exact (parkRecv_meets hb h t out x).thins hthin
  | parkSelect w t env c cases plan hact _ hpc _ hp hthin =>
      subst hact
      simp only [Attentive, hpc] at hatt
      exact (hp.meets hi hatt h x).thins hthin
  | shutdown hd hthin => exact (hd.meets h x).thins hthin

theorem Prepared.meets {s₀ : Sys} (hp : s.Prepared s₀) (hok : s.Ok) (h : ∀ x, s.rt.Meets x)
    (x : ChanId) : s₀.rt.Meets x := by
  rcases hp.cases hok with ⟨tape, rfl⟩ | ⟨-, -, rt, hboot, rfl⟩
  · exact (h x).other rfl rfl rfl rfl
  · refine .unattended ?_ (by simp [Unattended, hboot.off.waitq, hboot.off.selectq])
    rw [hboot.chan]
    exact (h x).valid

theorem meets_of_reach (h : machine.Reach (Under Attentive) s) (x : ChanId) : s.rt.Meets x := by
  refine invariant_of_cases (C := Attentive) (I := fun s => ∀ x, s.rt.Meets x)
    (fun kind x => ?_) (fun s s₀ hok hp ih => hp.meets hok ih)
    (fun s s₀ a hok hp ha => ha.prepared hok hp)
    (fun s a s' hok ih ha hc => (hc.traffic hok).meets hok.rest.inv ha ih) h x
  exact .unattended (valid_empty 0 0) ⟨rfl, rfl, rfl, rfl⟩

/-! ## One worker -/

/-- With one worker every select finds its cases as its trials left them. -/
theorem attentive_of_solo (h : machine.Reach (Under Solo) s) :
    machine.Reach (Under Attentive) s := by
  refine h.strengthen fun s act s' hr hact hstep => ⟨hact.1, ?_⟩
  unfold Attentive
  split
  · next w t env =>
      split
      · next c cases plan hpc =>
          have hen : s.enabled (.task w t) = true := by
            simp only [machine, Sys.step] at hstep
            split at hstep
            · assumption
            · cases hstep
          intro k hk
          exact steady_of_reach hr _ hen k (by simpa [Actor.agent, hpc, Pc.tried] using hk)
      · trivial
  · trivial

/-- In every state of a run with one worker, on every channel: the buffer holds at most its
capacity; where a sender is parked the channel is open and unbuffered or full; where a
receiver is parked it is open and empty; a sender and a receiver that are both parked are
waiters of one select; and nobody is parked on a closed channel, so that a receive finds no
sender there. -/
theorem channel_rendezvous (h : machine.Reach (Under Solo) s) (ch : ChanId) :
    (s.rt.chan ch).len ≤ (s.rt.chan ch).capacity ∧
    ((s.rt.waitq (.senders ch)).items ≠ [] ∨ (s.rt.selectq (.senders ch)).items ≠ [] →
      (s.rt.chan ch).closed = false ∧
        ((s.rt.chan ch).capacity = 0 ∨ (s.rt.chan ch).len = (s.rt.chan ch).capacity)) ∧
    ((s.rt.waitq (.receivers ch)).items ≠ [] ∨ (s.rt.selectq (.receivers ch)).items ≠ [] →
      (s.rt.chan ch).closed = false ∧ (s.rt.chan ch).len = 0) ∧
    ((s.rt.waitq (.senders ch)).items ≠ [] ∨ (s.rt.selectq (.senders ch)).items ≠ [] →
      (s.rt.waitq (.receivers ch)).items ≠ [] ∨ (s.rt.selectq (.receivers ch)).items ≠ [] →
      (s.rt.waitq (.senders ch)).items = [] ∧ (s.rt.waitq (.receivers ch)).items = [] ∧
        ∃ t, (∀ v ∈ (s.rt.selectq (.senders ch)).items, (s.rt.selw v).task = t) ∧
          ∀ v ∈ (s.rt.selectq (.receivers ch)).items, (s.rt.selw v).task = t) ∧
    ((s.rt.chan ch).closed = true → s.rt.Unattended ch ∧
      s.rt.chanWaitqPop (.senders ch) = none ∧ s.rt.selectWaitqPop (.senders ch) = none) := by
  have hm := meets_of_reach (attentive_of_solo h) ch
  have hle := hm.valid.len_le
  refine ⟨hle, fun hq => ?_, hm.receiving, fun hs hr => ?_, fun hclosed => ?_⟩
  · obtain ⟨hopen, hfull⟩ := hm.sending hq
    exact ⟨hopen, by omega⟩
  · have h1 : (s.rt.waitq (.senders ch)).items = [] := by
      by_contra hne
      obtain ⟨h1, h2⟩ := hm.plainSenders hne
      exact hr.elim (absurd h1) (absurd h2)
    have h2 : (s.rt.waitq (.receivers ch)).items = [] := by
      by_contra hne
      obtain ⟨h1, h2⟩ := hm.plainReceivers hne
      exact hs.elim (absurd h1) (absurd h2)
    obtain ⟨v, hv⟩ := List.exists_mem_of_ne_nil _ (hs.resolve_left (absurd h1))
    obtain ⟨w, hw⟩ := List.exists_mem_of_ne_nil _ (hr.resolve_left (absurd h2))
    refine ⟨h1, h2, (s.rt.selw w).task, fun x hx => hm.selects x hx w hw, fun x hx => ?_⟩
    rw [← hm.selects v hv x hx, hm.selects v hv w hw]
  · have hu := hm.closed hclosed
    refine ⟨hu, ?_, ?_⟩
    · simp [Rt.chanWaitqPop, Queue.pop_eq_none.mpr hu.1]
    · simp [Rt.selectWaitqPop, Queue.pop_eq_none.mpr hu.2.2.1]

/-- A select waits on both ends of a channel. -/
theorem channel_rendezvous_select : ∃ s, machine.Reach (Under Solo) s ∧
    (s.rt.selectq (.senders 1)).items = [2] ∧ (s.rt.selectq (.receivers 1)).items = [3] ∧
    (s.rt.waitq (.senders 1)).items = [] ∧ (s.rt.chan 1).len = 0 := by
  obtain ⟨s, hs, hp⟩ := reach_of_trace_under Solo .poll (List.flatten [
      invoke (.ext 0) (.go true 0 false), invoke (.ext 0) (.chanCreate 4 0),
      invoke (.ext 0) (.run 1 true) 2, works 0 3,
      invoke (.task 0 0) (.select [⟨.send, some 1, some 100, 0⟩, ⟨.recv, some 1, some 200, 0⟩]) 5])
    (fun s => (s.rt.selectq (.senders 1)).items == [2] &&
      (s.rt.selectq (.receivers 1)).items == [3]) (by decide +kernel)
  simp only [Bool.and_eq_true, beq_iff_eq] at hp
  obtain ⟨hsend, hrecv⟩ := hp
  obtain ⟨-, -, hr, hboth, -⟩ := channel_rendezvous hs 1
  obtain ⟨h1, -⟩ := hboth (by simp [hsend]) (by simp [hrecv])
  exact ⟨s, hs, hsend, hrecv, h1, (hr (by simp [hrecv])).2⟩

/-! ## Several workers -/

/-- The case that a select waiter of task `t` stands for cannot be served by anybody else. -/
def NotReady (r : Rt) (t : TaskId) (w : SelectWaiter) : Prop :=
  (r.chan w.ch).closed = false ∧
    match w.op with
    | .recv => (r.chan w.ch).len = 0 ∧ (r.waitq (.senders w.ch)).items = [] ∧
        ∀ v ∈ (r.selectq (.senders w.ch)).items, (r.selw v).task = t
    | .send => ((r.chan w.ch).capacity = 0 ∨ (r.chan w.ch).len = (r.chan w.ch).capacity) ∧
        (r.waitq (.receivers w.ch)).items = [] ∧
        ∀ v ∈ (r.selectq (.receivers w.ch)).items, (r.selw v).task = t
    | _ => False

/-- In every run in which each select still finds its channel cases blocked when it registers
its waiters, no case of a parked select is ready. -/
theorem parked_select_idle (h : machine.Reach (Under Attentive) s) {t : TaskId}
    (ht : t ∈ s.rt.allTasks) : (s.rt.task t).state = .waitingSelect →
      ∀ w ∈ (s.rt.task t).selectWaiters, NotReady s.rt t (s.rt.selw w) := by
  intro _ w hw
  have hi := (ok_of_under h).rest.inv
  obtain ⟨htask, -, hop⟩ := hi.select.owner t ht w hw
  have hmem : w ∈ (s.rt.selectq (s.rt.selw w).ref).items := by
    refine (hi.select.placed.mem _ w).mpr ⟨?_, rfl⟩
    rw [Rt.Listed, htask]
    exact ⟨ht, hw⟩
  have hm := meets_of_reach h (s.rt.selw w).ch
  have hle := hm.valid.len_le
  rcases hop with hop | hop
  · have hq : w ∈ (s.rt.selectq (.senders (s.rt.selw w).ch)).items := by
      simpa [SelectWaiter.ref, hop] using hmem
    obtain ⟨hopen, hfull⟩ := hm.sending (.inr (List.ne_nil_of_mem hq))
    refine ⟨hopen, ?_⟩
    simp only [hop]
    refine ⟨by omega, ?_, fun v hv => (hm.selects w hq v hv).symm.trans htask⟩
    by_contra hne
    simp [(hm.plainReceivers hne).2] at hq
  · have hq : w ∈ (s.rt.selectq (.receivers (s.rt.selw w).ch)).items := by
      simpa [SelectWaiter.ref, hop] using hmem
    obtain ⟨hopen, hlen⟩ := hm.receiving (.inr (List.ne_nil_of_mem hq))
    refine ⟨hopen, ?_⟩
    simp only [hop]
    refine ⟨hlen, ?_, fun v hv => (hm.selects v hv w hq).trans htask⟩
    by_contra hne
    simp [(hm.plainSenders hne).2] at hq

/-- A select waits for two channels while another worker runs. -/
theorem parked_select_idle_two : ∃ s, machine.Reach (Under Attentive) s ∧
    (s.rt.task 0).state = .waitingSelect ∧ (s.rt.task 0).selectWaiters = [5, 4] ∧
    ∀ w ∈ (s.rt.task 0).selectWaiters, NotReady s.rt 0 (s.rt.selw w) := by
  obtain ⟨s, hs, hp⟩ := reach_of_trace_under Attentive .poll (List.flatten [
      invoke (.ext 0) (.go true 0 false), invoke (.ext 0) (.go true 0 false),
      invoke (.ext 0) (.chanCreate 4 1), invoke (.ext 0) (.chanCreate 4 0),
      invoke (.ext 0) (.run 2 true) 4, works 0 3, works 1 3,
      invoke (.task 0 0) (.select [⟨.recv, some 2, some 100, 0⟩, ⟨.send, some 3, some 200, 0⟩]) 5])
    (fun s => decide (0 ∈ s.rt.allTasks) && (s.rt.task 0).state == .waitingSelect &&
      (s.rt.task 0).selectWaiters == [5, 4]) (by decide +kernel)
  simp only [Bool.and_eq_true, decide_eq_true_eq, beq_iff_eq] at hp
  obtain ⟨⟨hall, hstate⟩, hws⟩ := hp
  exact ⟨s, hs, hstate, hws, parked_select_idle hs hall hstate⟩

/-- Another worker sends after the trials of a select and before its registration: the
select parks on a channel that holds a value. -/
theorem parked_select_misses : ∃ s, machine.Reach Contract s ∧ 0 ∈ s.rt.allTasks ∧
    (s.rt.task 0).state = .waitingSelect ∧ (s.rt.task 0).selectWaiters = [3] ∧
    (s.rt.selw 3).op = .recv ∧ (s.rt.selw 3).ch = 2 ∧ (s.rt.chan 2).len = 1 ∧
    ¬NotReady s.rt 0 (s.rt.selw 3) := by
  obtain ⟨s, hs, hp⟩ := reach_of_promised .poll (List.flatten [
      invoke (.ext 0) (.go true 0 false), invoke (.ext 0) (.go true 0 false),
      invoke (.ext 0) (.chanCreate 4 1), invoke (.ext 0) (.run 2 true) 4, works 0 3, works 1 3,
      invoke (.task 0 0) (.select [⟨.recv, some 2, some 100, 0⟩]) 3,
      invoke (.task 1 1) (.chanSend (some 2) (some 200)), [.cont (.task 0 0) {}]])
    (fun s => decide (0 ∈ s.rt.allTasks) && (s.rt.task 0).state == .waitingSelect &&
      (s.rt.task 0).selectWaiters == [3] && (s.rt.selw 3).op == .recv && (s.rt.selw 3).ch == 2 &&
      (s.rt.chan 2).len == 1) (by decide +kernel)
  simp only [Bool.and_eq_true, decide_eq_true_eq, beq_iff_eq] at hp
  obtain ⟨⟨⟨⟨⟨hall, hstate⟩, hws⟩, hop⟩, hch⟩, hlen⟩ := hp
  refine ⟨s, hs, hall, hstate, hws, hop, hch, hlen, fun hn => ?_⟩
  simp [NotReady, hop, hch, hlen] at hn

end Sys

end Microthread
