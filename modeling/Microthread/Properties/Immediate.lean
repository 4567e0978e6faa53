import Microthread.Properties.Solitude

/-!
# The immediate phase of select

`mt_select` validates its list, tries the channel cases in order, and falls back to a
default case or an expired timeout; only then it registers waiters. The trials perform
real operations. A blocked one changes nothing, so in a run with one worker the pass
finds every case in the state in which the call began, up to the first case that can be
served.
-/

namespace Microthread

open Foundation Rt

/-- The lists that the validation loop of `mt_select` accepts. -/
structure WellFormed (cases : List SelectCase) : Prop where
  nonempty : cases ≠ []
  channel : ∀ k ∈ cases, k.isChannel = true → k.ch.isSome = true ∧ k.value.isSome = true
  known : ∀ k ∈ cases, k.op ≠ .unknown
  default : cases.countP (·.op = .default) ≤ 1
  timeout : cases.countP (·.op = .timeout) ≤ 1

/-- What the validation loop has collected in `q` when it started with `p` at index `i`. -/
structure Scanned (ks : List SelectCase) (i : Nat) (p q : SelectPlan) : Prop where
  channel : ∀ k ∈ ks, k.isChannel = true → k.ch.isSome = true ∧ k.value.isSome = true
  known : ∀ k ∈ ks, k.op ≠ .unknown
  channelCases : q.channelCases = p.channelCases + ks.countP (·.isChannel)
  defaults : ks.countP (·.op = .default) + p.defaultIndex.toList.length ≤ 1
  timeouts : ks.countP (·.op = .timeout) + p.timeoutIndex.toList.length ≤ 1
  defaultIndex : ∀ d, q.defaultIndex = some d ↔ p.defaultIndex = some d ∨
    ∃ j k, d = i + j ∧ ks[j]? = some k ∧ k.op = .default
  timeoutIndex : ∀ d, q.timeoutIndex = some d ↔ p.timeoutIndex = some d ∨
    ∃ j k, d = i + j ∧ ks[j]? = some k ∧ k.op = .timeout
  timeoutMs : (∀ k ∈ ks, k.op = .timeout → q.timeoutMs = k.timeoutMs) ∧
    ((∀ k ∈ ks, k.op ≠ .timeout) → q.timeoutMs = p.timeoutMs)

theorem exists_cons_iff {ks : List SelectCase} {k : SelectCase} {i d : Nat} {op : SelectOp} :
    (∃ j x, d = i + j ∧ (k :: ks)[j]? = some x ∧ x.op = op) ↔
      (d = i ∧ k.op = op) ∨ ∃ j x, d = i + 1 + j ∧ ks[j]? = some x ∧ x.op = op := by
  constructor
  · rintro ⟨j, x, rfl, hx, hop⟩
    cases j with
    | zero =>
        obtain rfl : k = x := by simpa using hx
        exact .inl ⟨rfl, hop⟩
    | succ j => exact .inr ⟨j, x, by omega, by simpa using hx, hop⟩
  · rintro (⟨rfl, hop⟩ | ⟨j, x, rfl, hx, hop⟩)
    · exact ⟨0, k, rfl, rfl, hop⟩
    · exact ⟨j + 1, x, by omega, by simpa using hx, hop⟩

variable {k : SelectCase} {ks : List SelectCase} {i : Nat} {p q : SelectPlan}

theorem Scanned.channelCons (hk : k.isChannel = true) (hch : k.ch.isSome = true)
    (hv : k.value.isSome = true)
    (h : Scanned ks (i + 1) { p with channelCases := p.channelCases + 1 } q) :
    Scanned (k :: ks) i p q := by
  have hop : k.op = .recv ∨ k.op = .send := by simpa [SelectCase.isChannel] using hk
  have hd : k.op ≠ .default := by rcases hop with h | h <;> simp [h]
  have ht : k.op ≠ .timeout := by rcases hop with h | h <;> simp [h]
  refine ⟨?_, ?_, ?_, ?_, ?_, fun d => ?_, fun d => ?_, ?_, fun hall => ?_⟩
  · exact List.forall_mem_cons.mpr ⟨fun _ => ⟨hch, hv⟩, h.channel⟩
  · exact List.forall_mem_cons.mpr ⟨by rcases hop with h | h <;> simp [h], h.known⟩
  · rw [h.channelCases, List.countP_cons, if_pos hk]
    exact Nat.add_right_comm p.channelCases 1 _
  · rw [List.countP_cons, if_neg (by simpa using hd)]
    exact h.defaults
  · rw [List.countP_cons, if_neg (by simpa using ht)]
    exact h.timeouts
  · rw [h.defaultIndex, exists_cons_iff]
    simp [hd]
  · rw [h.timeoutIndex, exists_cons_iff]
    simp [ht]
  · exact List.forall_mem_cons.mpr ⟨fun he => absurd he ht, h.timeoutMs.1⟩
  · exact h.timeoutMs.2 fun x hx => hall x (List.mem_cons_of_mem _ hx)

theorem Scanned.defaultCons (hk : k.op = .default) (hp : p.defaultIndex = none)
    (h : Scanned ks (i + 1) { p with defaultIndex := some i } q) : Scanned (k :: ks) i p q := by
  refine ⟨?_, ?_, ?_, ?_, ?_, fun d => ?_, fun d => ?_, ?_, fun hall => ?_⟩
  · exact List.forall_mem_cons.mpr ⟨fun he => by simp [SelectCase.isChannel, hk] at he, h.channel⟩
  · exact List.forall_mem_cons.mpr ⟨by simp [hk], h.known⟩
  · rw [h.channelCases, List.countP_cons, if_neg (by simp [SelectCase.isChannel, hk])]
    rfl
  · rw [List.countP_cons, if_pos (by simp [hk]), hp]
    exact h.defaults
  · rw [List.countP_cons, if_neg (by simp [hk])]
    exact h.timeouts
  · rw [h.defaultIndex, exists_cons_iff]
    simp [hk, hp, eq_comm]
  · rw [h.timeoutIndex, exists_cons_iff]
    simp [hk]
  · exact List.forall_mem_cons.mpr ⟨fun he => by simp [hk] at he, h.timeoutMs.1⟩
  · exact h.timeoutMs.2 fun x hx => hall x (List.mem_cons_of_mem _ hx)

theorem Scanned.timeoutCons (hk : k.op = .timeout) (hp : p.timeoutIndex = none)
    (h : Scanned ks (i + 1) { p with timeoutIndex := some i, timeoutMs := k.timeoutMs } q) :
    Scanned (k :: ks) i p q := by
  -- a second timeout would have been refused
  have hrest : ∀ x ∈ ks, x.op ≠ .timeout := by
    intro x hx hop
    have hpos : 0 < ks.countP (·.op = .timeout) := List.countP_pos_iff.mpr ⟨x, hx, by simp [hop]⟩
    have := h.timeouts
    simp only [Option.toList_some, List.length_singleton] at this
    omega
  refine ⟨?_, ?_, ?_, ?_, ?_, fun d => ?_, fun d => ?_, ?_, fun hall => ?_⟩
  · exact List.forall_mem_cons.mpr ⟨fun he => by simp [SelectCase.isChannel, hk] at he, h.channel⟩
  · exact List.forall_mem_cons.mpr ⟨by simp [hk], h.known⟩
  · rw [h.channelCases, List.countP_cons, if_neg (by simp [SelectCase.isChannel, hk])]
    rfl
  · rw [List.countP_cons, if_neg (by simp [hk])]
    exact h.defaults
  · rw [List.countP_cons, if_pos (by simp [hk]), hp]
    exact h.timeouts
  · rw [h.defaultIndex, exists_cons_iff]
    simp [hk]
  · rw [h.timeoutIndex, exists_cons_iff]
    simp [hk, hp, eq_comm]
  · exact List.forall_mem_cons.mpr
      ⟨fun _ => h.timeoutMs.2 hrest, fun x hx hop => absurd hop (hrest x hx)⟩
  · exact absurd hk (hall k List.mem_cons_self)

theorem selectScan_some (h : selectScan ks i p = some q) : Scanned ks i p q := by
  induction ks generalizing i p with
  | nil =>
      obtain rfl : p = q := by simpa [selectScan] using h
      exact ⟨by simp, by simp, by simp, by simp, by simp, by simp, by simp, by simp⟩
  | cons k ks ih =>
      rw [selectScan] at h
      have hchan : k.op = .recv ∨ k.op = .send →
          (if (k.ch.isNone || k.value.isNone) = true then none else
            selectScan ks (i + 1) { p with channelCases := p.channelCases + 1 }) = some q →
          Scanned (k :: ks) i p q := by
        intro hop h
        split at h
        · cases h
        next hnull =>
        simp only [Bool.or_eq_true, not_or, Option.isNone_iff_eq_none, ← ne_eq,
          ← Option.isSome_iff_ne_none] at hnull
        exact .channelCons (by simpa [SelectCase.isChannel] using hop) hnull.1 hnull.2 (ih h)
      split at h
      · next hop => exact hchan (.inl hop) h
      · next hop => exact hchan (.inr hop) h
      · next hop =>
          split at h
          · cases h
          next hnone =>
          have hp : p.defaultIndex = none := by simpa using hnone
          exact .defaultCons hop hp (ih h)
      · next hop =>
          split at h
          · cases h
          next hnone =>
          have hp : p.timeoutIndex = none := by simpa using hnone
          exact .timeoutCons hop hp (ih h)
      · cases h

/-- The loop refuses only what is not well formed. -/
theorem selectScan_isSome (hch : ∀ k ∈ ks, k.isChannel = true → k.ch.isSome = true ∧
      k.value.isSome = true) (hknown : ∀ k ∈ ks, k.op ≠ .unknown)
    (hd : ks.countP (·.op = .default) + p.defaultIndex.toList.length ≤ 1)
    (ht : ks.countP (·.op = .timeout) + p.timeoutIndex.toList.length ≤ 1) :
    (selectScan ks i p).isSome = true := by
  induction ks generalizing i p with
  | nil => rfl
  | cons k ks ih =>
      obtain ⟨hk, hch⟩ := List.forall_mem_cons.mp hch
      obtain ⟨hkn, hknown⟩ := List.forall_mem_cons.mp hknown
      rw [List.countP_cons] at hd ht
      rw [selectScan]
      cases hop : k.op with
      | unknown => exact absurd hop hkn
      | recv =>
          obtain ⟨h1, h2⟩ := hk (by simp [SelectCase.isChannel, hop])
          simp only [hop, reduceCtorEq, decide_false, Bool.false_eq_true, if_false] at hd ht
          simp only [Option.isNone_eq_false_iff.mpr h1, Option.isNone_eq_false_iff.mpr h2]
          exact ih hch hknown hd ht
      | send =>
          obtain ⟨h1, h2⟩ := hk (by simp [SelectCase.isChannel, hop])
          simp only [hop, reduceCtorEq, decide_false, Bool.false_eq_true, if_false] at hd ht
          simp only [Option.isNone_eq_false_iff.mpr h1, Option.isNone_eq_false_iff.mpr h2]
          exact ih hch hknown hd ht
      | default =>
          simp only [hop, reduceCtorEq, decide_false, Bool.false_eq_true, if_false, decide_true,
            if_true] at hd ht
          have hp : p.defaultIndex = none := by
            rw [← Option.toList_eq_nil_iff, ← List.length_eq_zero_iff]
            omega
          simp only [hp, Option.isSome_none, Bool.false_eq_true, if_false]
          refine ih hch hknown ?_ ht
          simp only [Option.toList_some, List.length_singleton]
          omega
      | timeout =>
          simp only [hop, reduceCtorEq, decide_false, Bool.false_eq_true, if_false, decide_true,
            if_true] at hd ht
          have hp : p.timeoutIndex = none := by
            rw [← Option.toList_eq_nil_iff, ← List.length_eq_zero_iff]
            omega
          simp only [hp, Option.isSome_none, Bool.false_eq_true, if_false]
          refine ih hch hknown hd ?_
          simp only [Option.toList_some, List.length_singleton]
          omega

theorem wellFormed_iff {cases : List SelectCase} :
    WellFormed cases ↔ cases ≠ [] ∧ ∃ q, selectScan cases 0 {} = some q := by
  constructor
  · intro h
    refine ⟨h.nonempty, Option.isSome_iff_exists.mp ?_⟩
    exact selectScan_isSome h.channel h.known h.default h.timeout
  · rintro ⟨hne, q, hq⟩
    have h := selectScan_some hq
    exact ⟨hne, h.channel, h.known, h.defaults, h.timeouts⟩

/-- The default case that the loop has found, or else the expired timeout. -/
theorem Scanned.chosen (hplan : Scanned ks 0 {} q) {d : Nat} {k : SelectCase}
    (hk : ks[d]? = some k) (hchoice : k.op = .default ∨
      k.op = .timeout ∧ k.timeoutMs = 0 ∧ ∀ x ∈ ks, x.op ≠ .default) :
    q.defaultIndex = some d ∨
      q.defaultIndex = none ∧ q.timeoutIndex = some d ∧ q.timeoutMs = 0 := by
  rcases hchoice with hop | ⟨hop, hms, hno⟩
  · exact .inl ((hplan.defaultIndex d).mpr (.inr ⟨d, k, by simp, hk, hop⟩))
  · refine .inr ⟨?_, (hplan.timeoutIndex d).mpr (.inr ⟨d, k, by simp, hk, hop⟩), ?_⟩
    · rw [Option.eq_none_iff_forall_ne_some]
      intro e he
      rcases (hplan.defaultIndex e).mp he with he | ⟨j, x, -, hx, hxop⟩
      · cases he
      · exact hno x (List.mem_of_getElem? hx) hxop
    · exact (hplan.timeoutMs.1 k (List.mem_of_getElem? hk) hop).trans hms

/-- Without a choice there is a channel case or a timeout in the future. -/
theorem Scanned.unchosen (hplan : Scanned ks 0 {} q) (hw : WellFormed ks)
    (hno : ∀ k ∈ ks, k.op ≠ .default ∧ (k.op = .timeout → k.timeoutMs ≠ 0)) :
    (q.defaultIndex = none ∧ ∀ d, q.timeoutIndex = some d → q.timeoutMs ≠ 0) ∧
      (∃ k ∈ ks, k.isChannel = true ∨ k.op = .timeout ∧ 0 < k.timeoutMs) ∧
      (q.channelCases ≠ 0 ∨ q.timeoutIndex ≠ none) := by
  have hd : q.defaultIndex = none := by
    rw [Option.eq_none_iff_forall_ne_some]
    intro e he
    rcases (hplan.defaultIndex e).mp he with he | ⟨j, x, -, hx, hop⟩
    · cases he
    · exact (hno x (List.mem_of_getElem? hx)).1 hop
  refine ⟨⟨hd, fun e he hz => ?_⟩, ?_⟩
  · rcases (hplan.timeoutIndex e).mp he with he | ⟨j, x, -, hx, hop⟩
    · cases he
    · have hx := List.mem_of_getElem? hx
      exact (hno x hx).2 hop ((hplan.timeoutMs.1 x hx hop).symm.trans hz)
  · obtain ⟨k, hk⟩ := List.exists_mem_of_ne_nil _ hw.nonempty
    by_cases hchan : k.isChannel = true
    · refine ⟨⟨k, hk, .inl hchan⟩, .inl ?_⟩
      have hpos : 0 < ks.countP (·.isChannel) := List.countP_pos_iff.mpr ⟨k, hk, hchan⟩
      rw [hplan.channelCases]
      exact Nat.ne_of_gt (Nat.add_pos_right _ hpos)
    · have hop : k.op = .timeout := by
        have h1 := (hno k hk).1
        have h2 := hw.known k hk
        revert hchan h1 h2
        cases hop : k.op <;> simp [SelectCase.isChannel, hop]
      refine ⟨⟨k, hk, .inr ⟨hop, Nat.pos_of_ne_zero ((hno k hk).2 hop)⟩⟩, .inr ?_⟩
      obtain ⟨j, hj⟩ := List.getElem?_of_mem hk
      have := (hplan.timeoutIndex j).mpr (.inr ⟨j, k, by simp, hj, hop⟩)
      simp [this]

/-! ## One trial -/

namespace Rt

variable {s : Rt}

theorem SendNow.not_blocks {s' : Rt} {c : CallId} {kind : SendKind} {ch : ChanId} {a : Addr}
    {rc : Rc} (h : SendNow s c kind ch a rc s') : rc ≠ .wouldBlock ∧ ¬s.SendBlocks ch := by
  cases h with
  | closed hc => exact ⟨by simp, fun hb => by simp [hb.1] at hc⟩
  | plain t _ hhead => exact ⟨by simp, fun hb => by simp [hb.2.1] at hhead⟩
  | select w items _ _ hhead => exact ⟨by simp, fun hb => by simp [hb.2.2.1] at hhead⟩
  | buffer _ _ _ hlt =>
      refine ⟨by simp, fun hb => ?_⟩
      have := hb.2.2.2
      omega

theorem RecvNow.not_blocks {s' : Rt} {c : CallId} {ch : ChanId} {a : Addr} {rc : Rc}
    (h : RecvNow s c ch a rc s') : rc ≠ .wouldBlock ∧ ¬s.RecvBlocks ch := by
  cases h with
  | buffer _ hlen _ => exact ⟨by simp, fun hb => by simp [hb.2.1] at hlen⟩
  | plain t _ _ hhead => exact ⟨by simp, fun hb => by simp [hb.2.2.1] at hhead⟩
  | select w items _ _ _ hhead => exact ⟨by simp, fun hb => by simp [hb.2.2.2] at hhead⟩
  | closedPlain t _ hc => exact ⟨by simp, fun hb => by simp [hb.1] at hc⟩
  | closedSelect w items _ hc => exact ⟨by simp, fun hb => by simp [hb.1] at hc⟩
  | closed _ hc => exact ⟨by simp, fun hb => by simp [hb.1] at hc⟩

/-- What `mt_chan_try_send` or `mt_chan_try_recv` does with the channel and the value of a
channel case. -/
def tryOperation (s : Rt) (c : CallId) (k : SelectCase) : Rc × Rt :=
  if k.op = .send then s.chanTrySend c .select (k.ch.getD 0) (k.value.getD 0)
  else s.chanTryRecv c (k.ch.getD 0) (k.value.getD 0)

theorem selectTryCase_eq (s : Rt) (c : CallId) {k : SelectCase} (hk : k.isChannel = true)
    (hch : k.ch.isSome = true) (hv : k.value.isSome = true) :
    s.selectTryCase c k = s.tryOperation c k := by
  obtain ⟨ch, hch⟩ := Option.isSome_iff_exists.mp hch
  obtain ⟨v, hv⟩ := Option.isSome_iff_exists.mp hv
  have hop : k.op = .recv ∨ k.op = .send := by simpa [SelectCase.isChannel] using hk
  rcases hop with hop | hop <;> simp [selectTryCase, tryOperation, hop, hch, hv]

/-- A trial serves its case, or answers `MT_ERR_WOULD_BLOCK` and changes nothing. -/
inductive Trial (s : Rt) (c : CallId) (k : SelectCase) : Rc → Rt → Prop where
  | send (ch a) {rc s'} : k.op = .send → k.ch = some ch → k.value = some a →
      SendNow s c .select ch a rc s' → Trial s c k rc s'
  | recv (ch a) {rc s'} : k.op = .recv → k.ch = some ch → k.value = some a →
      RecvNow s c ch a rc s' → Trial s c k rc s'
  | blocked : s.CaseBlocks k → Trial s c k .wouldBlock s

theorem Rest.trial (h : s.Rest) (c : CallId) {k : SelectCase} (hk : k.isChannel = true)
    (hch : k.ch.isSome = true) (hv : k.value.isSome = true) :
    Trial s c k (s.selectTryCase c k).1 (s.selectTryCase c k).2 := by
  obtain ⟨ch, hch⟩ := Option.isSome_iff_exists.mp hch
  obtain ⟨v, hv⟩ := Option.isSome_iff_exists.mp hv
  have hop : k.op = .recv ∨ k.op = .send := by simpa [SelectCase.isChannel] using hk
  rcases hop with hop | hop
  · have heq : s.selectTryCase c k = s.chanTryRecv c ch v := by
      simp only [Rt.selectTryCase, hop, hch, hv]
    rw [heq]
    rcases h.inv.chanTryRecv h.noWaiters c ch v with hnow | ⟨hrc, hb, hs⟩
    · exact .recv ch v hop hch hv hnow
    · rw [hrc, hs]
      refine .blocked ?_
      simpa only [CaseBlocks, hop, hch, Option.getD_some] using hb
  · have heq : s.selectTryCase c k = s.chanTrySend c .select ch v := by
      simp only [Rt.selectTryCase, hop, hch, hv]
    rw [heq]
    rcases h.inv.chanTrySend h.noWaiters c .select ch v with hnow | ⟨hrc, hb, hs⟩
    · exact .send ch v hop hch hv hnow
    · rw [hrc, hs]
      refine .blocked ?_
      simpa only [CaseBlocks, hop, hch, Option.getD_some] using hb

theorem Trial.wouldBlock_iff {s' : Rt} {c : CallId} {k : SelectCase} {rc : Rc}
    (h : Trial s c k rc s') : rc = .wouldBlock ↔ s.CaseBlocks k := by
  cases h with
  | send ch a hop hch hv hnow =>
      simp only [CaseBlocks, hop, hch, Option.getD_some]
      exact iff_of_false hnow.not_blocks.1 hnow.not_blocks.2
  | recv ch a hop hch hv hnow =>
      simp only [CaseBlocks, hop, hch, Option.getD_some]
      exact iff_of_false hnow.not_blocks.1 hnow.not_blocks.2
  | blocked hb => exact iff_of_true rfl hb

theorem Trial.eq_of_blocks {s' : Rt} {c : CallId} {k : SelectCase} {rc : Rc}
    (h : Trial s c k rc s') (hb : s.CaseBlocks k) : s' = s := by
  have hrc := h.wouldBlock_iff.mpr hb
  cases h with
  | send ch a hop hch hv hnow => exact absurd hrc hnow.not_blocks.1
  | recv ch a hop hch hv hnow => exact absurd hrc hnow.not_blocks.1
  | blocked => rfl

/-! ## What a trial leaves alone -/

/-- Nothing but channel `ch` and its queues has changed; a task that was parked in a select
with a case on `ch` may have left the queues of its other cases. -/
structure Confined (ch : ChanId) (s s' : Rt) : Prop where
  chan : ∀ x, x ≠ ch → s'.chan x = s.chan x
  waitq : ∀ r, r.chan? ≠ some ch → s'.waitq r = s.waitq r
  selectq : ∀ r, r.chan ≠ ch → ∀ w ∈ (s.selectq r).items, w ∈ (s'.selectq r).items ∨
    ∃ q, q.chan = ch ∧ ∃ v ∈ (s.selectq q).items, (s.selw v).task = (s.selw w).task

theorem Confined.refl (ch : ChanId) (s : Rt) : Confined ch s s :=
  ⟨fun _ _ => rfl, fun _ _ => rfl, fun _ _ _ hw => .inl hw⟩

variable {s' : Rt} {ch : ChanId}

/-- The values of a channel are copied before its waiters are woken. -/
theorem Confined.after {a : Rt} (h : Confined ch a s') (hchan : ∀ x, x ≠ ch → a.chan x = s.chan x)
    (hwaitq : a.waitq = s.waitq) (hselectq : a.selectq = s.selectq) (hselw : a.selw = s.selw) :
    Confined ch s s' := by
  refine ⟨fun x hx => (h.chan x hx).trans (hchan x hx), fun r hr => ?_, fun r hr w hw => ?_⟩
  · rw [h.waitq r hr, hwaitq]
  · have := h.selectq r hr w (by rwa [hselectq])
    rwa [hselectq, hselw] at this

theorem confined_wakeChan (s : Rt) {r : WaitqRef} (hr : r.chan? = some ch) (t : TaskId) (rc : Rc) :
    Confined ch s (s.wakeChan r t rc) := by
  refine ⟨fun _ _ => rfl, fun q hq => ?_, fun _ _ _ hw => .inl hw⟩
  have hne : q ≠ r := fun heq => hq (heq ▸ hr)
  exact Function.update_of_ne hne _ _

theorem confined_wakeSelect (h : s.Inv) {q : SelectqRef} {v : WaiterId} (hq : q.chan = ch)
    (hv : v ∈ (s.selectq q).items) (items : List TaskId) (role : Role) (rc : Rc) (index : Nat) :
    Confined ch s (s.wakeSelect (s.selw v).task items role rc index) := by
  refine ⟨fun _ _ => rfl, fun _ _ => rfl, fun r hr w hw => ?_⟩
  obtain ⟨ht, -, -⟩ := h.mem_selectq hv
  by_cases hmem : w ∈ (s.task (s.selw v).task).selectWaiters
  · exact .inr ⟨q, hq, v, hv, (h.select.owner _ ht w hmem).1.symm⟩
  · refine .inl ?_
    change w ∈ ((s.selectq r).without _).items
    rw [Queue.without_items, List.mem_filter]
    exact ⟨hw, by simpa using hmem⟩

theorem chanBufferPush_chan (s : Rt) (ch : ChanId) (v : List Byte) {x : ChanId} (hx : x ≠ ch) :
    (s.chanBufferPush ch v).chan x = s.chan x := Function.update_of_ne hx _ _

theorem chanBufferPop_chan (s : Rt) (ch : ChanId) (out : Addr) {x : ChanId} (hx : x ≠ ch) :
    (s.chanBufferPop ch out).2.chan x = s.chan x := Function.update_of_ne hx _ _

theorem SendNow.confined {c : CallId} {kind : SendKind} {a : Addr} {rc : Rc} (h : s.Inv)
    (hnow : SendNow s c kind ch a rc s') : Confined ch s s' := by
  cases hnow with
  | closed => exact .refl ch s
  | plain t =>
      exact (confined_wakeChan _ rfl t .ok).after (fun _ _ => rfl) rfl rfl rfl
  | select w items _ _ hhead hs hitems =>
      have hq : (s.transfer ch c kind a (s.task (s.selw w).task).call (s.selw w).value).Inv :=
        Moves.inv (transfer_moves ..) h
      exact (confined_wakeSelect hq (q := .receivers ch) rfl (List.mem_of_head? hhead) items _ .ok
        _).after (fun _ _ => rfl) rfl rfl rfl
  | buffer =>
      exact (Confined.refl ch _).after (fun x hx => s.chanBufferPush_chan ch _ hx) rfl rfl rfl

theorem Filled.confined (h : s.Inv) (hf : Filled s ch s') : Confined ch s s' := by
  cases hf with
  | nothing => exact .refl ch s
  | plain t =>
      exact (confined_wakeChan _ rfl t .ok).after (fun x hx => s.chanBufferPush_chan ch _ hx)
        rfl rfl rfl
  | select w items _ _ _ hhead hs hitems =>
      have hq : (s.enqueue ch (s.task (s.selw w).task).call .select (s.selw w).value).Inv :=
        Moves.inv (enqueue_moves ..) h
      exact (confined_wakeSelect hq (q := .senders ch) rfl (List.mem_of_head? hhead) items _ .ok
        _).after (fun x hx => s.chanBufferPush_chan ch _ hx) rfl rfl rfl

theorem RecvNow.confined {c : CallId} {a : Addr} {rc : Rc} (h : s.Inv)
    (hnow : RecvNow s c ch a rc s') : Confined ch s s' := by
  cases hnow with
  | buffer _ _ hf =>
      exact (hf.confined (Moves.inv (s.dequeue_moves ch c a) h)).after
        (fun x hx => s.chanBufferPop_chan ch a hx) rfl rfl rfl
  | plain t =>
      exact (confined_wakeChan _ rfl t .ok).after (fun _ _ => rfl) rfl rfl rfl
  | select w items _ _ _ hhead hs hitems =>
      have hq : (s.transfer ch (s.task (s.selw w).task).call .select (s.selw w).value c a).Inv :=
        Moves.inv (transfer_moves ..) h
      exact (confined_wakeSelect hq (q := .senders ch) rfl (List.mem_of_head? hhead) items _ .ok
        _).after (fun _ _ => rfl) rfl rfl rfl
  | closedPlain t => exact confined_wakeChan _ rfl t .closed
  | closedSelect w items _ _ _ hhead =>
      exact confined_wakeSelect h (q := .senders ch) rfl (List.mem_of_head? hhead) items _ .closed _
  | closed => exact .refl ch s

/-- The cells that a trial may write: those of its own case if it receives, those of a
waiting receiver if it sends. -/
def CaseWrites (s : Rt) (k : SelectCase) (x : Addr) : Prop :=
  let size := (s.chan (k.ch.getD 0)).elemSize
  match k.op with
  | .recv => k.value.getD 0 ≤ x ∧ x < k.value.getD 0 + size
  | .send => (∃ t ∈ (s.waitq (.receivers (k.ch.getD 0))).items,
        s.chanValueOf t ≤ x ∧ x < s.chanValueOf t + size) ∨
      ∃ w ∈ (s.selectq (.receivers (k.ch.getD 0))).items,
        (s.selw w).value ≤ x ∧ x < (s.selw w).value + size
  | _ => False

theorem writeMem_of_ne {a x : Addr} {v : List Byte} {n : Nat} (hv : v.length ≤ n)
    (h : (s.writeMem a v).mem x ≠ s.mem x) : a ≤ x ∧ x < a + n := by
  simp only [writeMem] at h
  split at h
  · next hle =>
      refine ⟨hle, ?_⟩
      by_contra hlt
      have hout : v.length ≤ x - a := hv.trans (Nat.le_sub_of_add_le' (Nat.le_of_not_lt hlt))
      rw [List.getElem?_eq_none hout] at h
      exact h rfl
  · exact absurd rfl h

theorem Trial.mem {c : CallId} {k : SelectCase} {rc : Rc} {x : Addr} (h : Trial s c k rc s')
    (hx : s'.mem x ≠ s.mem x) : s.CaseWrites k x := by
  cases h with
  | send ch a hop hch hv hnow =>
      simp only [CaseWrites, hop, hch, Option.getD_some]
      cases hnow with
      | closed => exact absurd rfl hx
      | plain t _ hhead =>
          exact .inl ⟨t, List.mem_of_head? hhead, writeMem_of_ne (s.length_valueAt ch a).le hx⟩
      | select w items _ _ hhead =>
          exact .inr ⟨w, List.mem_of_head? hhead, writeMem_of_ne (s.length_valueAt ch a).le hx⟩
      | buffer => exact absurd rfl hx
  | recv ch a hop hch hv hnow =>
      simp only [CaseWrites, hop, hch, hv, Option.getD_some]
      cases hnow with
      | buffer b _ hf =>
          refine writeMem_of_ne (v := (s.chan ch).pop.1) ?_ (s := s) ?_
          · simp [RingBuffer.pop, RingBuffer.slot, RingBuffer.slice]
          · cases hf with
            | nothing => exact hx
            | plain => exact hx
            | select => exact hx
      | plain t => exact writeMem_of_ne (s.length_valueAt ch _).le hx
      | select w => exact writeMem_of_ne (s.length_valueAt ch _).le hx
      | closedPlain => exact absurd rfl hx
      | closedSelect => exact absurd rfl hx
      | closed => exact absurd rfl hx
  | blocked => exact absurd rfl hx

theorem Trial.confined {c : CallId} {k : SelectCase} {rc : Rc} (h : s.Inv)
    (ht : Trial s c k rc s') : Confined (k.ch.getD 0) s s' := by
  cases ht with
  | send ch a hop hch hv hnow =>
      rw [hch]
      exact hnow.confined h
  | recv ch a hop hch hv hnow =>
      rw [hch]
      exact hnow.confined h
  | blocked => exact .refl _ s

end Rt

/-! ## The sections of the call -/

/-- The call is `mt_select` before its registration section. -/
def Pc.Immediate (c : CallId) (cases : List SelectCase) (p : Pc) : Prop :=
  p = .called c (.select cases) ∨ ∃ plan i, p = .selectTry c cases plan i

namespace Sys

variable {s s' : Sys} {a : Actor} {c : CallId} {cases : List SelectCase} {plan : SelectPlan}

/-- The state after the next `n` sections of the call of `a`, with the answers of the
operating system. -/
def proceeds (s : Sys) (a : Actor) (env : Nat → Env) : Nat → Option Sys
  | 0 => some s
  | n + 1 => (s.proceeds a env n).bind fun s => machine.step s (.cont a (env n))

theorem step_cont (hen : s.enabled a = true) (env : Env) :
    machine.step s (.cont a env) = (s.tick env.tape).continueCall a env := by
  change (if s.enabled a = true then _ else none) = _
  rw [if_pos hen]
  rfl

/-- The first section validates the list. -/
theorem step_select (hen : s.enabled a = true) (hpc : s.pc a.agent = .called c (.select cases))
    (env : Env) : machine.step s (.cont a env) = some (
      if cases = [] then (s.tick env.tape).ret a c .neither .invalid (s.tick env.tape).rt
      else
        match selectScan cases 0 {} with
        | none => (s.tick env.tape).ret a c .neither .invalid (s.tick env.tape).rt
        | some plan => (s.tick env.tape).setPc a.agent (.selectTry c cases plan 0)) := by
  have hpc' : (s.tick env.tape).pc a.agent = .called c (.select cases) := hpc
  rw [step_cont hen]
  cases hscan : selectScan cases 0 {} <;>
    simp only [Sys.continueCall, hpc', Api.unlocked, Bool.true_or, if_true, Sys.callApi, hscan]

/-- The call is before its `i`-th trial and nothing has changed. -/
def trying (s : Sys) (a : Actor) (c : CallId) (cases : List SelectCase) (plan : SelectPlan)
    (tape : List Bool) (i : Nat) : Sys :=
  (s.tick tape).setPc a.agent (.selectTry c cases plan i)

theorem step_trying (hen : s.enabled a = true) (hlock : s.lock = none) (tape : List Bool) (i : Nat)
    (env : Env) : machine.step (s.trying a c cases plan tape i) (.cont a env) =
      match cases[i]? with
      | some k => some ((s.trying a c cases plan env.tape i).selectTrial a c cases plan i k)
      | none => some ((s.trying a c cases plan env.tape i).selectAfterTrials a c cases plan) := by
  have hpc : (s.trying a c cases plan env.tape i).pc a.agent = .selectTry c cases plan i :=
    Function.update_self ..
  rw [step_cont (by cases a <;> exact hen)]
  change (s.trying a c cases plan env.tape i).continueCall a env = _
  have hfree : (s.trying a c cases plan env.tape i).lock = none := hlock
  cases hk : cases[i]? <;> simp [Sys.continueCall, hpc, hk, hfree]

/-- A blocked case is passed over. -/
theorem selectTrial_blocked (h : s.rt.Rest) (tape : List Bool) {i : Nat} {k : SelectCase}
    (hk : k.isChannel = true → s.rt.CaseBlocks k ∧ k.ch.isSome = true ∧ k.value.isSome = true) :
    (s.trying a c cases plan tape i).selectTrial a c cases plan i k =
      s.trying a c cases plan tape (i + 1) := by
  unfold Sys.selectTrial
  split
  · next hchan =>
      obtain ⟨hb, hch, hv⟩ := hk hchan
      have ht := (h.tape tape).trial c hchan hch hv
      have hb' : ({ s.rt with tape := tape } : Rt).CaseBlocks k := hb
      have hrc := ht.wouldBlock_iff.mpr hb'
      have hrt := ht.eq_of_blocks hb'
      have heq : (s.trying a c cases plan tape i).rt.selectTryCase c k =
          (.wouldBlock, { s.rt with tape := tape }) := Prod.ext hrc hrt
      rw [heq]
      simp [trying, Sys.setPc, Function.update_idem, tick]
  · simp [trying, Sys.setPc, Function.update_idem, tick]

/-- The trial pass over blocked cases. -/
theorem proceeds_trying (hen : s.enabled a = true) (hlock : s.lock = none) (h : s.rt.Rest)
    (hpc : s.pc a.agent = .called c (.select cases)) (hne : cases ≠ [])
    (hscan : selectScan cases 0 {} = some plan) (env : Nat → Env) (i : Nat)
    (hi : ∀ j < i, ∃ k, cases[j]? = some k ∧ (k.isChannel = true → s.rt.CaseBlocks k)) :
    s.proceeds a env (i + 1) = some (s.trying a c cases plan (env i).tape i) := by
  induction i with
  | zero =>
      change machine.step s (.cont a (env 0)) = _
      rw [step_select hen hpc, if_neg hne]
      simp only [hscan]
      rfl
  | succ i ih =>
      obtain ⟨k, hk, hb⟩ := hi i (Nat.lt_succ_self i)
      rw [proceeds, ih fun j hj => hi j (hj.trans (Nat.lt_succ_self i)), Option.bind_some,
        step_trying hen hlock, hk]
      have hnull := (selectScan_some hscan).channel k (List.mem_of_getElem? hk)
      exact congrArg some (selectTrial_blocked h _ fun hchan => ⟨hb hchan, hnull hchan⟩)

theorem ret_trying (tape : List Bool) (i d : Nat) (role : Role) (rc : Rc) (rt : Rt) :
    ((s.trying a c cases plan tape i).storeIndex c d).ret a c role rc rt =
      ((s.tick tape).storeIndex c d).ret a c role rc rt := by
  simp [trying, storeIndex, Sys.ret, Sys.setPc, Function.update_idem]

/-- The trial that ends the pass. -/
theorem selectTrial_served (tape : List Bool) {i : Nat} {k : SelectCase} (hk : k.isChannel = true)
    (hrc : ((s.tick tape).rt.selectTryCase c k).1 ≠ .wouldBlock) :
    (s.trying a c cases plan tape i).selectTrial a c cases plan i k =
      ((s.tick tape).storeIndex c i).ret a c (caseRole k) ((s.tick tape).rt.selectTryCase c k).1
        ((s.tick tape).rt.selectTryCase c k).2 := by
  unfold Sys.selectTrial
  rw [if_pos hk]
  split
  · next rt hr =>
      have hr : (s.tick tape).rt.selectTryCase c k = (.wouldBlock, rt) := hr
      exact absurd (congrArg Prod.fst hr) hrc
  · next rc rt _ hr =>
      have hr : (s.tick tape).rt.selectTryCase c k = (rc, rt) := hr
      rw [ret_trying, hr]

/-- The choice of the default case, or else of the expired timeout. -/
theorem selectAfterTrials_chosen {d : Nat} (h : plan.defaultIndex = some d ∨
      plan.defaultIndex = none ∧ plan.timeoutIndex = some d ∧ plan.timeoutMs = 0) :
    s.selectAfterTrials a c cases plan = (s.storeIndex c d).ret a c .neither .ok s.rt := by
  unfold selectAfterTrials
  rcases h with hd | ⟨hd, ht, hz⟩
  · rw [hd]
  · rw [hd, ht]
    exact if_pos hz

theorem selectAfterTrials_unchosen (hd : plan.defaultIndex = none)
    (ht : ∀ d, plan.timeoutIndex = some d → plan.timeoutMs ≠ 0) :
    s.selectAfterTrials a c cases plan = s.setPc a.agent (.selectReg c cases plan) := by
  unfold selectAfterTrials
  rw [hd]
  cases hi : plan.timeoutIndex with
  | none => rfl
  | some d => exact if_neg (ht d hi)

theorem selectPark_outcome (r : Rt) (t : TaskId) (p : SelectPlan) (nowNs : Nat) :
    (r.selectPark t p nowNs).1 = .park ∨ (r.selectPark t p nowNs).1 = .ret .nomem := by
  unfold Rt.selectPark
  split
  · exact .inl rfl
  · simp only
    split
    · exact .inl rfl
    · exact .inr rfl

/-- The registration section parks or lacks memory; its own check finds nothing. -/
theorem selectRegister_outcome (r : Rt) (t : TaskId) (nowNs : Nat)
    (hplan : plan.channelCases ≠ 0 ∨ plan.timeoutIndex ≠ none) :
    (r.selectRegister (some t) cases plan nowNs).1 = .park ∨
      (r.selectRegister (some t) cases plan nowNs).1 = .ret .nomem := by
  have hcheck : ¬(decide (plan.channelCases = 0) && plan.timeoutIndex.isNone) = true := by
    intro hc
    simp only [Bool.and_eq_true, decide_eq_true_eq, Option.isNone_iff_eq_none] at hc
    exact hplan.elim (absurd hc.1) (absurd hc.2)
  simp only [Rt.selectRegister, if_neg hcheck]
  split
  · exact .inr rfl
  · exact selectPark_outcome _ t plan nowNs

/-- Outside a task the registration section refuses. -/
theorem step_selectReg_ext (hen : s.enabled a = true) (hlock : s.lock = none)
    (hext : a.current = none) (tape : List Bool) (env : Env) :
    machine.step ((s.tick tape).setPc a.agent (.selectReg c cases plan)) (.cont a env) =
      some ((s.tick env.tape).ret a c .neither .state (s.tick env.tape).rt) := by
  have hpc : ((s.tick env.tape).setPc a.agent (.selectReg c cases plan)).pc a.agent =
      .selectReg c cases plan := Function.update_self ..
  rw [step_cont (by cases a <;> exact hen)]
  change ((s.tick env.tape).setPc a.agent (.selectReg c cases plan)).continueCall a env = _
  simp only [Sys.continueCall, hpc]
  rw [if_neg (by rw [show ((s.tick env.tape).setPc a.agent _).lock = none from hlock]; simp)]
  simp [hext, Rt.selectRegister, Sys.conclude, Sys.ret, Sys.setPc, Function.update_idem]

/-- The first cases that the trial pass has passed over. -/
theorem blocked_of_trials (h : s.rt.Rest) (hw : WellFormed cases) {i : Nat} (hi : i ≤ cases.length)
    (hb : ∀ j < i, ∀ x, cases[j]? = some x → x.isChannel = true →
      (s.rt.selectTryCase c x).1 = .wouldBlock) :
    ∀ j < i, ∃ k, cases[j]? = some k ∧ (k.isChannel = true → s.rt.CaseBlocks k) := by
  intro j hj
  have hlt : j < cases.length := hj.trans_le hi
  refine ⟨cases[j], List.getElem?_eq_getElem hlt, fun hchan => ?_⟩
  obtain ⟨hch, hv⟩ := hw.channel _ (List.getElem_mem hlt) hchan
  exact (h.trial c hchan hch hv).wouldBlock_iff.mp
    (hb j hj _ (List.getElem?_eq_getElem hlt) hchan)

/-- The sections of a call whose first served case is `k`. -/
theorem proceeds_served (hen : s.enabled a = true) (hlock : s.lock = none) (h : s.rt.Rest)
    (hpc : s.pc a.agent = .called c (.select cases)) (hw : WellFormed cases) (env : Nat → Env)
    {i : Nat} {k : SelectCase} (hk : cases[i]? = some k) (hchan : k.isChannel = true)
    (hrc : (s.rt.selectTryCase c k).1 ≠ .wouldBlock)
    (hbefore : ∀ j < i, ∀ x, cases[j]? = some x → x.isChannel = true →
      (s.rt.selectTryCase c x).1 = .wouldBlock) :
    let now := s.tick (env (i + 1)).tape
    let r := now.rt.selectTryCase c k
    s.proceeds a env (i + 2) = some ((now.storeIndex c i).ret a c (caseRole k) r.1 r.2) := by
  intro now r
  obtain ⟨hne, plan, hscan⟩ := wellFormed_iff.mp hw
  have hi : i < cases.length := (List.getElem?_eq_some_iff.mp hk).1
  have hblocked := blocked_of_trials h hw hi.le hbefore
  have hrun := proceeds_trying hen hlock h hpc hne hscan env i hblocked
  obtain ⟨hch, hv⟩ := hw.channel k (List.mem_of_getElem? hk) hchan
  have hserved : r.1 ≠ .wouldBlock := fun heq => by
    have hb : now.rt.CaseBlocks k := ((h.tape _).trial c hchan hch hv).wouldBlock_iff.mp heq
    exact hrc ((h.trial c hchan hch hv).wouldBlock_iff.mpr hb)
  rw [proceeds, hrun, Option.bind_some, step_trying hen hlock, hk]
  exact congrArg some (selectTrial_served _ hchan hserved)

/-- The sections of a call none of whose cases can be served. -/
theorem proceeds_unserved (hen : s.enabled a = true) (hlock : s.lock = none) (h : s.rt.Rest)
    (hpc : s.pc a.agent = .called c (.select cases)) (hw : WellFormed cases)
    (hscan : selectScan cases 0 {} = some plan) (env : Nat → Env)
    (hall : ∀ k ∈ cases, k.isChannel = true → (s.rt.selectTryCase c k).1 = .wouldBlock) :
    s.proceeds a env (cases.length + 1) =
      some (s.trying a c cases plan (env cases.length).tape cases.length) ∧
    s.proceeds a env (cases.length + 2) = some
      ((s.trying a c cases plan (env (cases.length + 1)).tape cases.length).selectAfterTrials
        a c cases plan) := by
  have hblocked := blocked_of_trials h hw le_rfl fun j _ x hx hchan =>
    hall x (List.mem_of_getElem? hx) hchan
  have hrun := proceeds_trying hen hlock h hpc hw.nonempty hscan env cases.length hblocked
  refine ⟨hrun, ?_⟩
  rw [proceeds, hrun, Option.bind_some, step_trying hen hlock, List.getElem?_eq_none le_rfl]

/-- While `mt_select` is before its registration section, nobody else acts on the runtime,
and its sections do this: a list that is not well formed is refused; otherwise the first
case that can be served is served by its nonblocking operation and by nothing else, and its
index is stored; otherwise a default case, or else an expired timeout, is chosen, its index
is stored and nothing else changes; only otherwise the call goes on to the registration
section, which then finds something to wait for. -/
theorem select_immediate_phase (h : machine.Reach (Under Solo) s) (hen : s.enabled a = true) :
    ((s.pc a.agent).Immediate c cases → ∀ act s', s.Solo act → machine.step s act = some s' →
      (∃ env, act = .cont a env) ∨ s.Aside s') ∧
    (s.pc a.agent = .called c (.select cases) → ∀ env : Nat → Env,
      (¬WellFormed cases → s.proceeds a env 1 =
        some ((s.tick (env 0).tape).ret a c .neither .invalid (s.tick (env 0).tape).rt)) ∧
      (WellFormed cases →
        (∀ i k, cases[i]? = some k → k.isChannel = true →
          (s.rt.tryOperation c k).1 ≠ .wouldBlock →
          (∀ j < i, ∀ x, cases[j]? = some x → x.isChannel = true →
            (s.rt.tryOperation c x).1 = .wouldBlock) →
          let now := s.tick (env (i + 1)).tape
          let r := now.rt.tryOperation c k
          ∃ s', s.proceeds a env (i + 2) = some s' ∧ s'.selectedIndex c = some i ∧
            s' = (now.storeIndex c i).ret a c (caseRole k) r.1 r.2 ∧
            Confined (k.ch.getD 0) s.rt r.2 ∧ ∀ x, r.2.mem x ≠ s.rt.mem x → s.rt.CaseWrites k x) ∧
        ((∀ k ∈ cases, k.isChannel = true → (s.rt.tryOperation c k).1 = .wouldBlock) →
          let now := s.tick (env (cases.length + 1)).tape
          (∀ d k, cases[d]? = some k → (k.op = .default ∨
              k.op = .timeout ∧ k.timeoutMs = 0 ∧ ∀ x ∈ cases, x.op ≠ .default) →
            ∃ s', s.proceeds a env (cases.length + 2) = some s' ∧ s'.selectedIndex c = some d ∧
              s' = (now.storeIndex c d).ret a c .neither .ok now.rt) ∧
          ((∀ k ∈ cases, k.op ≠ .default ∧ (k.op = .timeout → k.timeoutMs ≠ 0)) →
            ∃ plan, s.proceeds a env (cases.length + 2) =
                some (now.setPc a.agent (.selectReg c cases plan)) ∧
              (∃ k ∈ cases, k.isChannel = true ∨ k.op = .timeout ∧ 0 < k.timeoutMs) ∧
              (a.current = none → s.proceeds a env (cases.length + 3) =
                let later := s.tick (env (cases.length + 2)).tape
                some (later.ret a c .neither .state later.rt)) ∧
              ∀ r t nowNs, (Rt.selectRegister r (some t) cases plan nowNs).1 = .park ∨
                (Rt.selectRegister r (some t) cases plan nowNs).1 = .ret .nomem)))) := by
  have hok := ok_of_under h
  have hsingle := single_of_reach (fun _ _ hc => hc) (fun _ _ _ _ _ hc => hc) h
  refine ⟨fun himm act s' hsolo hstep => ?_, fun hpc env => ⟨fun hbad => ?_, fun hw => ?_⟩⟩
  · have hmid : s.pc a.agent ≠ .user ∧ (s.pc a.agent).inRun = false := by
      rcases himm with hp | ⟨plan, i, hp⟩
      · simp [hp, Pc.inRun]
      · simp [hp, Pc.inRun]
    exact (hsingle.solitary hok hen hmid.1 hmid.2).step hmid.1 hsolo hstep
  · change machine.step s (.cont a (env 0)) = _
    rw [step_select hen hpc]
    by_cases hne : cases = []
    · rw [if_pos hne]
    · rw [if_neg hne]
      cases hscan : selectScan cases 0 {} with
      | none => rfl
      | some q => exact absurd (wellFormed_iff.mpr ⟨hne, q, hscan⟩) hbad
  · have hlock := (hsingle.solitary hok hen (by simp [hpc]) (by simp [hpc, Pc.inRun])).lock
    obtain ⟨hne, plan, hscan⟩ := wellFormed_iff.mp hw
    have hplan := selectScan_some hscan
    have tried : ∀ (r : Rt), ∀ k ∈ cases, k.isChannel = true →
        r.selectTryCase c k = r.tryOperation c k := fun r k hk hchan =>
      r.selectTryCase_eq c hchan (hw.channel k hk hchan).1 (hw.channel k hk hchan).2
    refine ⟨fun i k hk hchan hrc hbefore => ?_,
      fun hall => ⟨fun d k hk hchoice => ?_, fun hno => ?_⟩⟩
    · have hmem := List.mem_of_getElem? hk
      have hserved := proceeds_served hen hlock hok.rest hpc hw env hk hchan
        (by rwa [tried _ k hmem hchan]) fun j hj x hx hxchan => by
          rw [tried _ x (List.mem_of_getElem? hx) hxchan]
          exact hbefore j hj x hx hxchan
      obtain ⟨hch, hv⟩ := hw.channel k hmem hchan
      have ht := (hok.rest.tape (env (i + 1)).tape).trial c hchan hch hv
      simp only [tried _ k hmem hchan] at hserved ht
      refine ⟨_, hserved, Function.update_self .., rfl, ?_, fun x hx => ht.mem hx⟩
      exact (ht.confined (hok.rest.tape _).inv).after (fun _ _ => rfl) rfl rfl rfl
    · obtain ⟨-, h₂⟩ := proceeds_unserved hen hlock hok.rest hpc hw hscan env fun k hk hchan => by
        rw [tried _ k hk hchan]
        exact hall k hk hchan
      rw [selectAfterTrials_chosen (hplan.chosen hk hchoice)] at h₂
      exact ⟨_, h₂, Function.update_self .., ret_trying ..⟩
    · obtain ⟨-, h₂⟩ := proceeds_unserved hen hlock hok.rest hpc hw hscan env fun k hk hchan => by
        rw [tried _ k hk hchan]
        exact hall k hk hchan
      obtain ⟨⟨hd, ht⟩, hwait, hcheck⟩ := hplan.unchosen hw hno
      have hreg : s.proceeds a env (cases.length + 2) = some
          ((s.tick (env (cases.length + 1)).tape).setPc a.agent (.selectReg c cases plan)) := by
        rw [h₂, selectAfterTrials_unchosen hd ht]
        simp [trying, Sys.setPc, Function.update_idem]
      refine ⟨plan, hreg, hwait, fun hext => ?_,
        fun r t nowNs => selectRegister_outcome r t nowNs hcheck⟩
      rw [proceeds, hreg, Option.bind_some]
      exact step_selectReg_ext hen hlock hext _ _

/-- A full channel is served by the receiving case that stands second. -/
theorem select_immediate_phase_recv : ∃ s s', machine.Reach (Under Solo) s ∧
    s.proceeds (.ext 0) (fun _ => {}) 3 = some s' ∧ s'.selectedIndex 2 = some 1 := by
  let send : SelectCase := { op := .send, ch := some 0, value := some 100 }
  let recv : SelectCase := { op := .recv, ch := some 0, value := some 200 }
  obtain ⟨s, hs, hp⟩ := reach_of_trace_under Solo .poll (List.flatten [
      invoke (.ext 0) (.chanCreate 4 1), invoke (.ext 0) (.chanTrySend (some 0) (some 100)),
      [.api (.ext 0) (.select [send, recv])]])
    (fun s => s.pc (.ext 0) == .called 2 (.select [send, recv]) &&
      (s.rt.tryOperation 2 send).1 == .wouldBlock && (s.rt.tryOperation 2 recv).1 == .ok)
    (by decide +kernel)
  simp only [Bool.and_eq_true, beq_iff_eq] at hp
  obtain ⟨⟨hpc, hsend⟩, hrecv⟩ := hp
  have hw : WellFormed [send, recv] := wellFormed_iff.mpr ⟨by simp, _, rfl⟩
  obtain ⟨s', hrun, hindex, -⟩ := (((select_immediate_phase (a := .ext 0) hs rfl).2 hpc
    fun _ => {}).2 hw).1 1 recv rfl rfl (by simp [hrecv]) fun j hj x hx _ => by
      obtain rfl : j = 0 := by omega
      obtain rfl : send = x := by simpa using hx
      exact hsend
  exact ⟨s, s', hs, hrun, hindex⟩

end Sys

end Microthread
