import Microthread.Properties.Delivery

/-!
# Closing and destroying channels

Both drain the four queues of the channel. A drain wakes the tasks parked on the channel
one after the other; a select waiter takes its siblings with it, so a task with several
cases on the channel is woken by the first of them that the drain meets and by no other.
After the close no value enters the channel, and receives take out what the buffer held.
-/

namespace Microthread

open Foundation Rt

namespace Rt

variable {s s' : Rt} {ch : ChanId} {t : TaskId}

/-- The task is parked on the channel, by itself or with a case of a select. -/
inductive ParkedOn (s : Rt) (ch : ChanId) (t : TaskId) : Prop where
  | plain : t ∈ s.allTasks → (s.task t).state = .waitingChan → (s.task t).chanWaitCh = some ch →
      ParkedOn s ch t
  | select (w) : t ∈ s.allTasks → (s.task t).state = .waitingSelect →
      w ∈ (s.task t).selectWaiters → (s.selw w).ch = ch → ParkedOn s ch t

/-- The record of a task whose wait has ended with `MT_ERR_CLOSED`. A select reports a case
on the channel. -/
structure ClosedOn (s s' : Rt) (ch : ChanId) (t : TaskId) : Prop where
  ready : (s'.task t).state = .ready
  plain : (s.task t).state = .waitingChan → (s'.task t).chanResult = .closed
  select : (s.task t).state = .waitingSelect → (s'.task t).selectResult = .closed ∧
    ∃ w ∈ (s.task t).selectWaiters, (s.selw w).ch = ch ∧ (s'.task t).selectIndex = (s.selw w).index

/-- The tasks `woken` have been woken, in this order and each once, and no others. -/
structure Drained (ch : ChanId) (s s' : Rt) (woken : List TaskId) : Prop where
  runq : s'.runq.items = s.runq.items ++ woken
  nodup : woken.Nodup
  parked : ∀ t ∈ woken, s.ParkedOn ch t
  closed : ∀ t ∈ woken, s.ClosedOn s' ch t
  others : ∀ t, t ∉ woken → s'.task t = s.task t
  selw : ∀ w, (s'.selw w).ch = (s.selw w).ch ∧ (s'.selw w).index = (s.selw w).index

theorem Drained.nil (ch : ChanId) (s : Rt) : Drained ch s s [] where
  runq := (List.append_nil _).symm
  nodup := .nil
  parked := nofun
  closed := nofun
  others _ _ := rfl
  selw _ := ⟨rfl, rfl⟩

/-- A task that the drain has not reached is parked as it was at the beginning. -/
theorem Drained.unmoved {a : Rt} {woken : List TaskId} (h : Drained ch s a woken)
    (hs : (a.task t).state ≠ .ready) : t ∉ woken ∧ a.task t = s.task t := by
  have ht : t ∉ woken := fun hm => hs (h.closed t hm).ready
  exact ⟨ht, h.others t ht⟩

/-- One more task is woken. -/
theorem Drained.snoc {a : Rt} {woken : List TaskId} {k : Task} (h : Drained ch s a woken)
    (ht : t ∉ woken) (hp : s.ParkedOn ch t) (hq : s'.runq.items = a.runq.items ++ [t])
    (htask : s'.task = Function.update a.task t k)
    (hselw : ∀ w, (s'.selw w).ch = (a.selw w).ch ∧ (s'.selw w).index = (a.selw w).index)
    (hk : s.ClosedOn s' ch t) : Drained ch s s' (woken ++ [t]) where
  runq := by rw [hq, h.runq, List.append_assoc]
  nodup := by
    rw [List.nodup_append]
    refine ⟨h.nodup, List.nodup_singleton t, fun x hx y hy heq => ht ?_⟩
    rwa [← List.mem_singleton.mp hy, ← heq]
  parked u hu := by
    rcases List.mem_append.mp hu with hu | hu
    · exact h.parked u hu
    · exact List.mem_singleton.mp hu ▸ hp
  closed u hu := by
    rcases List.mem_append.mp hu with hu | hu
    · have hne : u ≠ t := fun heq => ht (heq ▸ hu)
      have hsame : s'.task u = a.task u := by rw [htask, Function.update_of_ne hne]
      have hc := h.closed u hu
      refine ⟨hsame ▸ hc.ready, fun hs => hsame ▸ hc.plain hs, fun hs => ?_⟩
      rw [hsame]
      exact hc.select hs
    · exact List.mem_singleton.mp hu ▸ hk
  others u hu := by
    rw [List.mem_append, not_or, List.mem_singleton] at hu
    rw [htask, Function.update_of_ne hu.2, h.others u hu.1]
  selw w := ⟨(hselw w).1.trans (h.selw w).1, (hselw w).2.trans (h.selw w).2⟩

theorem chanWaitCh_of_chanRef {k : Task} {r : WaitqRef} (h : k.chanRef = some r)
    (hr : r.chan? = some ch) : k.chanWaitCh = some ch := by
  unfold Task.chanRef at h
  split at h
  · next hch =>
      cases h
      rw [hch]
      exact hr
  · next hch =>
      cases h
      rw [hch]
      exact hr
  · cases h

theorem Drain.drained {a : Rt} {woken : List TaskId} (h : Drained ch s a woken) (hinv : a.Inv)
    (hall : a.allTasks = s.allTasks) (hd : Drain ch a s') :
    ∃ t, Drained ch s s' (woken ++ [t]) := by
  cases hd with
  | task r t hr hc hhead =>
      obtain ⟨ht, hslot⟩ := hinv.mem_waitq (List.mem_of_head? hhead)
      obtain ⟨hs, href⟩ := Task.chanRef_of_slot hslot (by simp [hr])
      obtain ⟨hnot, hsame⟩ := h.unmoved (t := t) (by simp [hs])
      rw [hall] at ht
      have hch := chanWaitCh_of_chanRef href hr
      rw [hsame] at hs hch
      refine ⟨t, h.snoc hnot (.plain ht hs hch) rfl rfl (fun _ => ⟨rfl, rfl⟩) ⟨?_, fun _ => ?_, ?_⟩⟩
      · simp [Rt.wakeChan]
      · simp [Rt.wakeChan]
      · simp [hs]
  | select r w items hr hc hhead hs hitems =>
      obtain ⟨ht, hmem, href⟩ := hinv.mem_selectq (List.mem_of_head? hhead)
      obtain ⟨hnot, hsame⟩ := h.unmoved (t := (a.selw w).task) (by simp [hs])
      have hch : (s.selw w).ch = ch := by
        rw [← (h.selw w).1, ← hr, ← href, SelectWaiter.ref]
        split <;> rfl
      rw [hsame] at hs hmem
      rw [hall] at ht
      refine ⟨(a.selw w).task, h.snoc hnot (.select w ht hs hmem hch) rfl rfl (fun x => ?_)
        ⟨?_, ?_, fun _ => ⟨?_, w, hmem, hch, ?_⟩⟩⟩
      · simp only [Rt.wakeSelect, Rt.dropWaiters]
        split <;> exact ⟨rfl, rfl⟩
      · simp [Rt.wakeSelect]
      · simp [hs]
      · simp [Rt.wakeSelect]
      · simp [Rt.wakeSelect, (h.selw w).2]

theorem Drains.drained (hd : Drains ch s s') (h : s.Inv) : ∃ woken, Drained ch s s' woken := by
  induction hd with
  | refl => exact ⟨[], .nil ch s⟩
  | tail hd hstep ih =>
      obtain ⟨woken, hw⟩ := ih
      have hm := Shifts.moves (Drains.shifts hd)
      obtain ⟨t, ht⟩ := Drain.drained hw (Moves.inv hm h) hm.allTasks_eq hstep
      exact ⟨woken ++ [t], ht⟩

/-- When the queues are empty, everybody who was parked on the channel has been woken. -/
theorem Drained.complete {woken : List TaskId} (h : Drained ch s s' woken) (hinv : s'.Inv)
    (hall : s'.allTasks = s.allTasks) (hu : s'.Unattended ch) (hp : s.ParkedOn ch t) :
    t ∈ woken := by
  by_contra hnot
  have hsame := h.others t hnot
  cases hp with
  | plain ht hs hch =>
      rw [← hall] at ht
      rw [← hsame] at hs hch
      obtain ⟨r, href, hmem⟩ := hinv.mem_chanRef ht hs
      obtain ⟨h1, h2, -, -⟩ := hu
      unfold Task.chanRef at href
      rw [hch] at href
      split at href
      · next heq =>
          obtain rfl := Option.some.inj heq
          cases href
          simp [h1] at hmem
      · next heq =>
          obtain rfl := Option.some.inj heq
          cases href
          simp [h2] at hmem
      · cases href
  | select w ht hs hmem hch =>
      rw [← hall] at ht
      rw [← hsame] at hmem
      rw [← (h.selw w).1] at hch
      have howner := hinv.select.owner t ht w hmem
      have hlink : w ∈ (s'.selectq (s'.selw w).ref).items := by
        refine (hinv.select.placed.mem _ w).mpr ⟨?_, rfl⟩
        exact ⟨howner.1.symm ▸ ht, howner.1.symm ▸ hmem⟩
      obtain ⟨-, -, h3, h4⟩ := hu
      unfold SelectWaiter.ref at hlink
      rw [hch] at hlink
      split at hlink
      · simp [h3] at hlink
      · simp [h4] at hlink

/-! ## References to channels -/

/-- A task names a channel in `chan_wait_ch` only while it waits for it. -/
def Tidy (s : Rt) : Prop :=
  ∀ t ∈ s.allTasks, (s.task t).chanWaitCh ≠ none → (s.task t).state = .waitingChan

end Rt

theorem Task.Step.tidy {own : Prop} {k k' : Task} (hs : k.Step own k')
    (h : k.chanWaitCh ≠ none → k.state = .waitingChan) (hne : k'.chanWaitCh ≠ none) :
    k'.state = .waitingChan := by
  have key : k.state ≠ .waitingChan → k.chanWaitCh ≠ none → False := fun hs hn => hs (h hn)
  cases hs with
  | same => exact h hne
  | woken o hw =>
      cases hw with
      | chan => simp at hne
      | cancelChan => simp at hne
      | select _ _ _ hk => exact (key (by simp [hk]) hne).elim
      | join _ hk => exact (key (by simp [hk]) hne).elim
      | sleep hk => exact (key (by simp [hk]) hne).elim
      | fd _ _ hk => exact (key (by simp [hk]) hne).elim
  | runs hk => exact (key (by simp [hk]) hne).elim
  | calls c _ hk => exact (key (by simp [hk]) hne).elim
  | selects _ _ _ _ _ _ _ hk => exact (key (by simp [hk]) hne).elim
  | waits _ hk => exact (key (by simp [hk]) hne).elim
  | collects _ hk => exact (key (by simp [hk]) hne).elim
  | leaves _ hk hl =>
      cases hl with
      | chan => rfl
      | _ => exact (key (by simp [hk]) hne).elim

theorem Rt.Tidy.recorded {own : TaskId → Prop} {s s' : Rt} (h : s.Tidy)
    (hr : ∀ t ∈ s'.allTasks, s.Recorded own s' t) : s'.Tidy := by
  intro t ht hne
  rcases hr t ht with ⟨hmem, hs⟩ | ⟨-, id, x, heq⟩
  · exact hs.tidy (h t hmem) hne
  · simp [heq] at hne

namespace Sys

variable {s s' : Sys}

theorem tidy_of_reach (h : machine.Reach Contract s) : s.rt.Tidy := by
  refine invariant_of_cases (C := fun _ _ => True) (I := fun s => s.rt.Tidy)
    (fun kind => by simp [Rt.Tidy]) (fun s s₀ hok hp hk => ?_) (fun _ _ _ _ _ _ => trivial)
    (fun s a s' hok hk _ hc => hk.recorded fun t ht => hc.recorded hok ht)
    (h.mono fun _ _ hc => ⟨hc, trivial⟩)
  rcases hp.cases hok with ⟨tape, rfl⟩ | ⟨-, -, rt, hb, rfl⟩
  · exact hk
  · intro t ht
    simp [hb.off.allTasks] at ht

end Sys

namespace Rt

variable {s s' : Rt} {ch : ChanId} {t : TaskId}

/-- A plain sender or receiver is parked on the channel. -/
def PlainOn (s : Rt) (ch : ChanId) : Prop :=
  ∃ t ∈ s.allTasks, (s.task t).state = .waitingChan ∧ (s.task t).chanWaitCh = some ch

instance (s : Rt) (ch : ChanId) : Decidable (s.PlainOn ch) :=
  inferInstanceAs (Decidable (∃ t ∈ s.allTasks, _ ∧ _))

/-- Nothing in the runtime refers to the channel. -/
structure Forgotten (s : Rt) (ch : ChanId) : Prop where
  tasks : ∀ t ∈ s.allTasks, (s.task t).chanWaitCh ≠ some ch
  waiters : ∀ t ∈ s.allTasks, ∀ w ∈ (s.task t).selectWaiters, (s.selw w).ch ≠ ch
  queues : s.Unattended ch
  registry : ch ∉ s.channels

/-- Every channel that a task or a linked waiter refers to is registered. -/
structure ChannelsKnown (s : Rt) : Prop where
  tasks : ∀ t ∈ s.allTasks, ∀ ch, (s.task t).chanWaitCh = some ch → ch ∈ s.channels
  waiters : ∀ t ∈ s.allTasks, ∀ w ∈ (s.task t).selectWaiters, (s.selw w).ch ∈ s.channels
  queues : ∀ r, ∀ w ∈ (s.selectq r).items, (s.selw w).ch ∈ s.channels

theorem Inv.channelsKnown (h : s.Inv) (htidy : s.Tidy) : s.ChannelsKnown where
  tasks t ht ch hch := h.chan.waitRegistered t ht ch (htidy t ht (by simp [hch])) hch
  waiters := h.chan.selectRegistered
  queues r w hw := by
    obtain ⟨ht, hmem, -⟩ := h.mem_selectq hw
    exact h.chan.selectRegistered _ ht w hmem

theorem Inv.plainOn_iff (h : s.Inv) : s.PlainOn ch ↔
    (s.waitq (.senders ch)).items ≠ [] ∨ (s.waitq (.receivers ch)).items ≠ [] := by
  constructor
  · rintro ⟨t, ht, hs, hch⟩
    obtain ⟨r, href, hmem⟩ := h.mem_chanRef ht hs
    unfold Task.chanRef at href
    rw [hch] at href
    split at href
    · next heq =>
        obtain rfl := Option.some.inj heq
        cases href
        exact .inl (List.ne_nil_of_mem hmem)
    · next heq =>
        obtain rfl := Option.some.inj heq
        cases href
        exact .inr (List.ne_nil_of_mem hmem)
    · cases href
  · have key : ∀ r : WaitqRef, r.chan? = some ch → (s.waitq r).items ≠ [] → s.PlainOn ch := by
      intro r hr hne
      obtain ⟨t, ht⟩ := List.exists_mem_of_ne_nil _ hne
      obtain ⟨hmem, hslot⟩ := h.mem_waitq ht
      obtain ⟨hs, href⟩ := Task.chanRef_of_slot hslot (by simp [hr])
      exact ⟨t, hmem, hs, chanWaitCh_of_chanRef href hr⟩
    rintro (hne | hne)
    · exact key _ rfl hne
    · exact key _ rfl hne

theorem Inv.chanDestroy_rc (h : s.Inv) (ch : ChanId) : (s.PlainOn ch → s.chanDestroy ch = (.state, s)) ∧
    (¬s.PlainOn ch → (s.chanDestroy ch).1 = .ok) := by
  have h1 : (s.waitq (.senders ch)).count = (s.waitq (.senders ch)).items.length :=
    h.task.waitqExact _
  have h2 : (s.waitq (.receivers ch)).count = (s.waitq (.receivers ch)).items.length :=
    h.task.waitqExact _
  have hcond : (decide ((s.waitq (.senders ch)).count ≠ 0) ||
      decide ((s.waitq (.receivers ch)).count ≠ 0)) = true ↔ s.PlainOn ch := by
    rw [h.plainOn_iff, h1, h2]
    simp
  unfold Rt.chanDestroy
  refine ⟨fun hp => by rw [if_pos (hcond.mpr hp)], fun hp => ?_⟩
  rw [if_neg fun hc => hp (hcond.mp hc)]

/-- Who is parked on a channel and how a drain leaves the tasks does not depend on the
records of the channels. -/
theorem Drained.congr {a b : Rt} {woken : List TaskId} (h : Drained ch a b woken)
    (htask : a.task = s.task) (hselw : a.selw = s.selw) (hall : a.allTasks = s.allTasks)
    (hrunq : a.runq = s.runq) (htask' : b.task = s'.task) (hselw' : b.selw = s'.selw)
    (hrunq' : b.runq = s'.runq) : Drained ch s s' woken where
  runq := by rw [← hrunq', ← hrunq, h.runq]
  nodup := h.nodup
  parked t ht := by
    cases h.parked t ht with
    | plain h1 h2 h3 => exact .plain (hall ▸ h1) (htask ▸ h2) (htask ▸ h3)
    | select w h1 h2 h3 h4 => exact .select w (hall ▸ h1) (htask ▸ h2) (htask ▸ h3) (hselw ▸ h4)
  closed t ht := by
    have hc := h.closed t ht
    refine ⟨htask' ▸ hc.ready, fun hs => htask' ▸ hc.plain (htask ▸ hs), fun hs => ?_⟩
    rw [← htask', ← htask, ← hselw]
    exact hc.select (htask ▸ hs)
  others t ht := by rw [← htask', ← htask, h.others t ht]
  selw w := by rw [← hselw', ← hselw]; exact h.selw w

/-- What a successful destruction leaves. -/
theorem Rest.destroyed (h : s.Rest) (htidy : s.Tidy) (hch : ch ∈ s.channels)
    (hd : Destroys s ch .ok s') : s'.Forgotten ch ∧ s'.allTasks = s.allTasks ∧
      ∃ woken, Drained ch s s' woken ∧ ∀ t, s.ParkedOn ch t → t ∈ woken := by
  have hmoves := hd.moves (h.inv.chan.live ch hch).1
  have hinv := Moves.inv hmoves h.inv
  have hrec : ∀ t ∈ s'.allTasks, s.Recorded (fun _ => False) s' t := fun t ht =>
    Moves.recorded hmoves h.inv ht
  have hknown := hinv.channelsKnown (htidy.recorded hrec)
  have hreg : ch ∉ s'.channels ∧ s'.Unattended ch := by
    cases hd with
    | dropped hu => exact ⟨h.inv.chan.nodup.not_mem_erase, hu⟩
    | drained a hd hu =>
        have hm : Moves s a := .head (.close ch) (Shifts.moves (Drains.shifts hd))
        exact ⟨(Moves.inv hm h.inv).chan.nodup.not_mem_erase, hu⟩
  refine ⟨⟨fun t ht he => hreg.1 (hknown.tasks t ht ch he), fun t ht w hw he => ?_, hreg.2, hreg.1⟩,
    Moves.allTasks_eq hmoves, ?_⟩
  · exact hreg.1 (he ▸ hknown.waiters t ht w hw)
  cases hd with
  | dropped hu =>
      have hnil := Drained.nil ch s
      refine ⟨[], hnil.congr rfl rfl rfl rfl rfl rfl rfl, fun t hp => ?_⟩
      exact hnil.complete h.inv rfl hu hp
  | drained a hd hu =>
      have hclose : (s.modChan ch fun k => { k with closed := true }).Inv :=
        h.inv.modChan fun _ => rfl
      obtain ⟨woken, hw⟩ := Drains.drained hd hclose
      have hw' : Drained ch s a woken := hw.congr rfl rfl rfl rfl rfl rfl rfl
      have hm : Moves s a := .head (.close ch) (Shifts.moves (Drains.shifts hd))
      refine ⟨woken, hw'.congr rfl rfl rfl rfl rfl rfl rfl, fun t hp => ?_⟩
      exact hw'.complete (Moves.inv hm h.inv) hm.allTasks_eq hu hp

end Rt

namespace Sys

variable {s s' : Sys}

/-- Destroying a registered channel is refused and changes nothing while a plain sender or
receiver is parked on it. Otherwise it wakes each task with a select case on the channel
once, with `MT_ERR_CLOSED`, and nothing refers to the channel afterwards. No task and no
linked waiter ever refers to a channel that is not registered. -/
theorem destroy_leaves_no_reference (h : machine.Reach Contract s) : s.rt.ChannelsKnown ∧
    ∀ ch ∈ s.rt.channels,
      (s.rt.PlainOn ch → s.rt.chanDestroy ch = (.state, s.rt)) ∧
      (¬s.rt.PlainOn ch → (s.rt.chanDestroy ch).1 = .ok ∧ (s.rt.chanDestroy ch).2.Forgotten ch ∧
        ∃ woken, (s.rt.chanDestroy ch).2.runq.items = s.rt.runq.items ++ woken ∧ woken.Nodup ∧
          (∀ t, t ∈ woken ↔ t ∈ s.rt.allTasks ∧ (s.rt.task t).state = .waitingSelect ∧
            ∃ w ∈ (s.rt.task t).selectWaiters, (s.rt.selw w).ch = ch) ∧
          (∀ t ∈ woken, ((s.rt.chanDestroy ch).2.task t).state = .ready ∧
            ((s.rt.chanDestroy ch).2.task t).selectResult = .closed) ∧
          ∀ t, t ∉ woken → (s.rt.chanDestroy ch).2.task t = s.rt.task t) := by
  have hok := ok_of_reach (fun _ _ hc => hc) h
  have htidy := tidy_of_reach h
  refine ⟨hok.rest.inv.channelsKnown htidy, fun ch hch => ?_⟩
  obtain ⟨hplain, hfree⟩ := hok.rest.inv.chanDestroy_rc ch
  refine ⟨hplain, fun hp => ⟨hfree hp, ?_⟩⟩
  have hd := hok.rest.inv.chanDestroy hok.rest.noWaiters ch
  rw [hfree hp] at hd
  obtain ⟨hgone, -, woken, hw, hall⟩ := hok.rest.destroyed htidy hch hd
  have hselect : ∀ t ∈ woken, t ∈ s.rt.allTasks ∧ (s.rt.task t).state = .waitingSelect ∧
      ∃ w ∈ (s.rt.task t).selectWaiters, (s.rt.selw w).ch = ch := fun t ht => by
    cases hw.parked t ht with
    | plain h1 h2 h3 => exact absurd ⟨t, h1, h2, h3⟩ hp
    | select w h1 h2 h3 h4 => exact ⟨h1, h2, w, h3, h4⟩
  refine ⟨hgone, woken, hw.runq, hw.nodup, fun t => ⟨hselect t, ?_⟩, fun t ht => ?_, hw.others⟩
  · rintro ⟨h1, h2, w, h3, h4⟩
    exact hall t (.select w h1 h2 h3 h4)
  · have hc := hw.closed t ht
    exact ⟨hc.ready, (hc.select (hselect t ht).2.1).1⟩

/-- A task waits in a select with two cases on the channel that is destroyed. -/
theorem destroy_leaves_no_reference_twice : ∃ s, machine.Reach Contract s ∧
    (s.rt.chanDestroy 1).1 = .ok ∧ (s.rt.chanDestroy 1).2.Forgotten 1 ∧
    ((s.rt.chanDestroy 1).2.task 0).selectResult = .closed := by
  obtain ⟨s, hs, hp⟩ := reach_of_promised .poll (List.flatten [
      invoke (.ext 0) (.go true 0 false), invoke (.ext 0) (.chanCreate 4 0),
      invoke (.ext 0) (.chanCreate 4 0), invoke (.ext 0) (.run 1 true) 2, works 0 3,
      invoke (.task 0 0) (.select [{ op := .recv, ch := some 1, value := some 100 },
        { op := .recv, ch := some 2, value := some 200 },
        { op := .recv, ch := some 1, value := some 300 }]) 6])
    (fun s => s.rt.channels.contains 1 && !decide (s.rt.PlainOn 1) && s.rt.allTasks.contains 0 &&
      (s.rt.task 0).state == .waitingSelect &&
      (s.rt.task 0).selectWaiters.any fun w => (s.rt.selw w).ch == 1) (by decide +kernel)
  simp only [Bool.and_eq_true, List.contains_iff_mem, Bool.not_eq_true', decide_eq_false_iff_not,
    beq_iff_eq, List.any_eq_true] at hp
  obtain ⟨⟨⟨⟨hch, hplain⟩, hmem⟩, hstate⟩, w, hw, hwch⟩ := hp
  obtain ⟨hrc, hgone, woken, -, -, hall, hres, -⟩ :=
    ((destroy_leaves_no_reference hs).2 1 hch).2 hplain
  exact ⟨s, hs, hrc, hgone, (hres 0 ((hall 0).mpr ⟨hmem, hstate, w, hw, hwch⟩)).2⟩

end Sys

/-! ## After the close -/

namespace Rt

variable {s s' : Rt} {ch : ChanId}

theorem readMem_writeMem (s : Rt) (a : Addr) (v : List Byte) :
    (s.writeMem a v).readMem a v.length = v := by
  refine List.ext_getElem (by simp [readMem]) fun i h1 h2 => ?_
  simp [readMem, writeMem, List.getElem?_eq_getElem h2]

theorem chanSendNow_closed (hc : (s.chan ch).closed = true) (c : CallId) (kind : SendKind)
    (value : Addr) : s.chanSendNow c kind ch value = some (.closed, s) := by
  simp [chanSendNow, hc]

/-- A receive on a closed channel takes the oldest value and wakes nobody. -/
theorem chanRecvNow_closed (hc : (s.chan ch).closed = true) (hpos : 0 < (s.chan ch).len)
    (c : CallId) (out : Addr) : s.chanRecvNow c ch out = some (.ok, s.dequeue ch c out) := by
  have hclosed : ((s.dequeue ch c out).chan ch).closed = true := by
    rw [dequeue_chan_self]
    exact hc
  have hfill : (s.dequeue ch c out).chanFillBufferFromWaitingSender ch = s.dequeue ch c out := by
    rw [chanFillBufferFromWaitingSender, hclosed]
    simp
  unfold chanRecvNow
  simp only [if_pos (gt_iff_lt.mpr hpos)]
  exact congrArg (fun r => some (Rc.ok, r)) hfill

theorem chanRecvNow_spent (hc : (s.chan ch).closed = true) (hlen : (s.chan ch).len = 0)
    (hu : s.Unattended ch) (c : CallId) (out : Addr) :
    s.chanRecvNow c ch out = some (.closed, s) := by
  simp [chanRecvNow, hc, hlen, chanWaitqPop, selectWaitqPop, Queue.pop_eq_none.mpr hu.1,
    Queue.pop_eq_none.mpr hu.2.2.1]

/-- All kinds of receives answer `rc` and leave the runtime in `r`. -/
structure Receives (s : Rt) (ch : ChanId) (c : CallId) (out : Addr) (rc : Rc) (r : Rt) : Prop where
  recv : ∀ cur, s.chanRecv cur c ch out = (.ret rc, r)
  tryRecv : s.chanTryRecv c ch out = (rc, r)
  select : ∀ n, s.selectTryCase c ⟨.recv, some ch, some out, n⟩ = (rc, r)

theorem Receives.of_now {c : CallId} {out : Addr} {rc : Rc} {r : Rt}
    (h : s.chanRecvNow c ch out = some (rc, r)) : s.Receives ch c out rc r where
  recv cur := by rw [chanRecv_eq, h]
  tryRecv := by rw [chanTryRecv_eq, h]; rfl
  select n := by
    change s.chanTryRecv c ch out = _
    rw [chanTryRecv_eq, h]
    rfl

/-- The oldest value is in the receiver's memory and the others are left. -/
theorem dequeue_contents {v : List Byte} {vs : List (List Byte)}
    (hv : (s.chan ch).toRingBuffer.Valid) (hk : (s.chan ch).toRingBuffer.contents = v :: vs)
    (c : CallId) (out : Addr) :
    (s.dequeue ch c out).readMem out (s.chan ch).elemSize = v ∧
      ((s.dequeue ch c out).chan ch).toRingBuffer.contents = vs := by
  have hpos : 0 < (s.chan ch).len := by
    rw [← RingBuffer.length_contents, hk]
    exact Nat.succ_pos _
  have hpop := RingBuffer.contents_pop hv hpos
  rw [hk, List.cons.injEq] at hpop
  have hlen := RingBuffer.length_pop hv hpos
  refine ⟨?_, ?_⟩
  · rw [← hlen, hpop.1]
    exact s.readMem_writeMem out _
  · rw [dequeue_chan_self]
    exact hpop.2.symm

end Rt

namespace Sys

variable {s s' : Sys} {ch : ChanId}

/-- Closing an open channel wakes every task parked on it once, with `MT_ERR_CLOSED` and, for
a select, the index of a case on the channel; it empties the four queues and keeps the
contents. From then on, until it is destroyed, the channel is closed, sends fail without
effect, and what receives have taken since together with what is left is what the buffer
held. With one worker nobody parks on it any more, and receives return the values that are
left one after the other and then `MT_ERR_CLOSED`. -/
theorem close_semantics (h : machine.Reach Contract s) (hlive : s.rt.Live (.chan ch)) :
    ((s.rt.chan ch).closed = false → (s.rt.chanClose ch).1 = .ok ∧
      (s.rt.chanClose ch).2.chan ch = { s.rt.chan ch with closed := true } ∧
      (s.rt.chanClose ch).2.Unattended ch ∧
      ∃ woken, s.rt.Drained ch (s.rt.chanClose ch).2 woken ∧
        ∀ t, t ∈ woken ↔ s.rt.ParkedOn ch t) ∧
    ((s.rt.chan ch).closed = true → ∀ s', machine.Path Contract s s' → s'.rt.Live (.chan ch) →
      (s'.rt.chan ch).closed = true ∧
      (∀ cur c value, s'.rt.chanSend cur c ch value = (.ret .closed, s'.rt)) ∧
      (∀ c kind value, s'.rt.chanTrySend c kind ch value = (.closed, s'.rt)) ∧
      ∃ es, s'.rt.history ch = s.rt.history ch ++ es ∧ sentBy es = [] ∧
        receivedBy es ++ (s'.rt.chan ch).toRingBuffer.contents =
          (s.rt.chan ch).toRingBuffer.contents) ∧
    ((s.rt.chan ch).closed = true → machine.Reach (Under Solo) s → ∀ s',
      machine.Path (Under Solo) s s' → s'.rt.Live (.chan ch) → s'.rt.Unattended ch ∧
      (∀ v vs, (s'.rt.chan ch).toRingBuffer.contents = v :: vs → ∀ c out,
        s'.rt.Receives ch c out .ok (s'.rt.dequeue ch c out) ∧
        (s'.rt.dequeue ch c out).readMem out (s'.rt.chan ch).elemSize = v ∧
        ((s'.rt.dequeue ch c out).chan ch).toRingBuffer.contents = vs) ∧
      ((s'.rt.chan ch).toRingBuffer.contents = [] → ∀ c out,
        s'.rt.Receives ch c out .closed s'.rt)) := by
  have hi := (ok_of_reach (fun _ _ hc => hc) h).rest
  refine ⟨fun hopen => ?_, fun hc s' hp hl => ?_, fun hc hr s' hp hl => ?_⟩
  · have hclose := hi.inv.chanClose hi.noWaiters ch
    have hrc : (s.rt.chanClose ch).1 = .ok := by simp [Rt.chanClose, hopen]
    rw [hrc] at hclose
    refine ⟨hrc, ?_⟩
    generalize (s.rt.chanClose ch).2 = r at hclose
    cases hclose with
    | drained _ _ hd hu =>
        have hmark : (s.rt.modChan ch fun k => { k with closed := true }).Inv :=
          hi.inv.modChan fun _ => rfl
        obtain ⟨woken, hw⟩ := Drains.drained hd hmark
        have hw' : s.rt.Drained ch r woken := hw.congr rfl rfl rfl rfl rfl rfl rfl
        have hm : Moves s.rt r := .head (.close ch) (Shifts.moves (Drains.shifts hd))
        refine ⟨?_, hu, woken, hw', fun t => ⟨hw'.parked t, fun hpark => ?_⟩⟩
        · rw [Shifts.chan_eq (Drains.shifts hd), modChan_self]
        · exact hw'.complete (Moves.inv hm hi.inv) hm.allTasks_eq hu hpark
  · obtain ⟨hc', hes⟩ := closed_of_path h hp hlive hc hl
    refine ⟨hc', fun cur c value => ?_, fun c kind value => ?_, hes⟩
    · rw [chanSend_eq, chanSendNow_closed hc']
    · rw [chanTrySend_eq, chanSendNow_closed hc']
      rfl
  · have hp' : machine.Path Contract s s' := hp.mono fun _ _ hc => hc.1
    obtain ⟨hc', -⟩ := closed_of_path h hp' hlive hc hl
    have hu := (meets_of_reach (attentive_of_solo (hr.path hp)) ch).closed hc'
    refine ⟨hu, fun v vs hk c out => ?_, fun hk c out => ?_⟩
    · have hpos : 0 < (s'.rt.chan ch).len := by
        rw [← RingBuffer.length_contents, hk]
        exact Nat.succ_pos _
      exact ⟨.of_now (chanRecvNow_closed hc' hpos c out),
        dequeue_contents (valid_of_reach (h.path hp') hl) hk c out⟩
    · exact .of_now (chanRecvNow_spent hc' (RingBuffer.contents_eq_nil.mp hk) hu c out)

/-- A task waits in a select with two cases on the channel that is closed; and a value is left
in a channel that has been closed. -/
theorem close_semantics_select :
    (∃ s, machine.Reach Contract s ∧ s.rt.ParkedOn 1 0 ∧ (s.rt.chanClose 1).1 = .ok ∧
      s.rt.ClosedOn (s.rt.chanClose 1).2 1 0) ∧
    ∃ s, machine.Reach (Under Solo) s ∧ (s.rt.chan 0).closed = true ∧
      s.rt.Receives 0 7 100 .ok (s.rt.dequeue 0 7 100) ∧
      (s.rt.dequeue 0 7 100).readMem 100 2 = [5, 6] := by
  refine ⟨?_, ?_⟩
  · obtain ⟨s, hs, hp⟩ := reach_of_promised .poll (List.flatten [
        invoke (.ext 0) (.go true 0 false), invoke (.ext 0) (.chanCreate 4 0),
        invoke (.ext 0) (.run 1 true) 2, works 0 3,
        invoke (.task 0 0) (.select [⟨.recv, some 1, some 100, 0⟩, ⟨.send, some 1, some 200, 0⟩]) 5])
      (fun s => decide (s.rt.Live (.chan 1)) && !(s.rt.chan 1).closed && s.rt.allTasks.contains 0 &&
        (s.rt.task 0).state == .waitingSelect &&
        (s.rt.task 0).selectWaiters.any fun w => (s.rt.selw w).ch == 1) (by decide +kernel)
    simp only [Bool.and_eq_true, List.contains_iff_mem, Bool.not_eq_true', decide_eq_true_eq,
      beq_iff_eq, List.any_eq_true] at hp
    obtain ⟨⟨⟨⟨hlive, hopen⟩, hmem⟩, hstate⟩, w, hw, hwch⟩ := hp
    obtain ⟨hrc, -, -, woken, hdrained, hall⟩ := (close_semantics hs hlive).1 hopen
    have hpark : s.rt.ParkedOn 1 0 := .select w hmem hstate hw hwch
    exact ⟨s, hs, hpark, hrc, hdrained.closed 0 ((hall 0).mpr hpark)⟩
  · obtain ⟨s, hs, hp⟩ := reach_of_trace_under Solo .poll (List.flatten [
        invoke (.ext 0) (.chanCreate 2 1), [.write (.ext 0) 200 [5, 6]],
        invoke (.ext 0) (.chanSend (some 0) (some 200)), invoke (.ext 0) (.chanClose 0)])
      (fun s => decide (s.rt.Live (.chan 0)) && (s.rt.chan 0).closed && (s.rt.chan 0).elemSize == 2 &&
        (s.rt.chan 0).toRingBuffer.contents == [[5, 6]]) (by decide +kernel)
    simp only [Bool.and_eq_true, decide_eq_true_eq, beq_iff_eq] at hp
    obtain ⟨⟨⟨hlive, hc⟩, hsize⟩, hk⟩ := hp
    obtain ⟨-, hrecv, -⟩ := (close_semantics (hs.mono fun _ _ hc => hc.1) hlive).2.2 hc hs s .refl hlive
    obtain ⟨h1, h2, -⟩ := hrecv _ _ hk 7 100
    exact ⟨s, hs, hc, h1, hsize ▸ h2⟩

end Sys

end Microthread
