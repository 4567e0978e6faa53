import Microthread.Properties.Arguments
import Microthread.Properties.Rendezvous
import Microthread.System.Answers

/-!
# Values in and out of a channel

The values that senders have brought to a channel and the values that receivers have
taken from it, in the order of the copies. What has been brought and not been taken is
the contents of the buffer; where receivers wait only on empty channels, the order is
kept as well.
-/

namespace Microthread

open Foundation Rt

/-- The value of a sending call that the entry records. -/
def Event.sent? : Event → Option (List Byte)
  | .push _ _ _ _ v | .handoff _ _ _ _ _ _ v => some v
  | _ => none

/-- The value of a receiving call that the entry records. -/
def Event.received? : Event → Option (List Byte)
  | .pop _ _ _ v | .handoff _ _ _ _ _ _ v => some v
  | _ => none

/-- The values brought by the sends that the entries record, in order. -/
def sentBy (es : List Event) : List (List Byte) := es.filterMap Event.sent?

/-- The values taken by the receives that the entries record, in order. -/
def receivedBy (es : List Event) : List (List Byte) := es.filterMap Event.received?

@[simp] theorem sentBy_nil : sentBy [] = [] := rfl
@[simp] theorem receivedBy_nil : receivedBy [] = [] := rfl

@[simp] theorem sentBy_append (es fs : List Event) : sentBy (es ++ fs) = sentBy es ++ sentBy fs :=
  List.filterMap_append

@[simp] theorem receivedBy_append (es fs : List Event) :
    receivedBy (es ++ fs) = receivedBy es ++ receivedBy fs := List.filterMap_append

namespace Chan.Step

variable {ch : ChanId} {met : Prop} {k k' : Chan} {es : List Event}

theorem valid (h : k.Step ch met es k') (hk : k.toRingBuffer.Valid) : k'.toRingBuffer.Valid := by
  cases h with
  | same => exact hk
  | close => exact hk
  | push c kind src v _ hroom hlen => exact hk.push hroom hlen
  | pop c out hpos => exact hk.pop hpos
  | refill c out d kind src v hpos _ hroom hlen => exact (hk.pop hpos).push hroom hlen
  | handoff => exact hk

/-- A step that finds receivers parked on empty channels only keeps the order. -/
theorem fifo (h : k.Step ch met es k') (hk : k.toRingBuffer.Valid) (hmet : met → k.len = 0) :
    k.toRingBuffer.contents ++ sentBy es = receivedBy es ++ k'.toRingBuffer.contents := by
  cases h with
  | same => exact List.append_nil _
  | close => exact List.append_nil _
  | push c kind src v _ hroom hlen => exact (RingBuffer.contents_push hk hroom hlen).symm
  | pop c out hpos =>
      exact (List.append_nil _).trans (RingBuffer.contents_pop hk hpos)
  | refill c out d kind src v hpos _ hroom hlen =>
      have hpop := RingBuffer.contents_pop hk hpos
      have hpush := RingBuffer.contents_push (hk.pop hpos) hroom hlen
      change k.toRingBuffer.contents ++ [v] =
        k.toRingBuffer.pop.1 :: (k.toRingBuffer.pop.2.push v).contents
      rw [hpush, hpop, List.cons_append]
  | handoff c kind src d out v _ hlen =>
      have hnil : k.toRingBuffer.contents = [] :=
        RingBuffer.contents_eq_nil.mpr (hlen.elim id hmet)
      rw [hnil]
      rfl

/-- After the close values only leave the buffer. -/
theorem closed (h : k.Step ch met es k') (hk : k.toRingBuffer.Valid) (hc : k.closed = true) :
    k'.closed = true ∧ sentBy es = [] ∧ receivedBy es ++ k'.toRingBuffer.contents =
      k.toRingBuffer.contents := by
  cases h with
  | same => exact ⟨hc, rfl, rfl⟩
  | close => exact ⟨rfl, rfl, rfl⟩
  | push _ _ _ _ ho => simp [hc] at ho
  | pop c out hpos => exact ⟨hc, rfl, (RingBuffer.contents_pop hk hpos).symm⟩
  | refill _ _ _ _ _ _ _ ho => simp [hc] at ho
  | handoff _ _ _ _ _ _ ho => simp [hc] at ho

end Chan.Step

namespace Sys

variable {s s' : Sys} {ch : ChanId}

theorem valid_of_reach (h : machine.Reach Contract s) (hlive : s.rt.Live (.chan ch)) :
    (s.rt.chan ch).toRingBuffer.Valid :=
  ledger_invariant (C := fun _ _ => True) (I := fun k _ => k.toRingBuffer.Valid)
    (fun elemSize capacity => valid_empty elemSize capacity) (fun _ _ _ _ hk hs => hs.valid hk)
    (h.mono fun _ _ hc => ⟨hc, trivial⟩) hlive

/-- In a run in which selects register only on blocked channels, values leave a channel in
the order in which they have entered it. -/
theorem fifo_of_reach (h : machine.Reach (Under Attentive) s) (hlive : s.rt.Live (.chan ch)) :
    receivedBy (s.rt.history ch) ++ (s.rt.chan ch).toRingBuffer.contents =
      sentBy (s.rt.history ch) := by
  refine (ledger_invariant (C := Attentive) (I := fun k es => k.toRingBuffer.Valid ∧
    receivedBy es ++ k.toRingBuffer.contents = sentBy es) (fun elemSize capacity => ?_)
    (fun s es k hr ⟨hv, hk⟩ hs => ?_) h hlive).2
  · exact ⟨valid_empty elemSize capacity, RingBuffer.contents_eq_nil.mpr rfl⟩
  · refine ⟨hs.valid hv, ?_⟩
    have hstep := hs.fifo hv fun hm => ((meets_of_reach hr ch).receiving hm).2
    rw [receivedBy_append, sentBy_append, List.append_assoc, ← hstep, ← List.append_assoc, hk]

/-- What a run does to a closed channel that it does not destroy. -/
theorem closed_of_path (h : machine.Reach Contract s) (hp : machine.Path Contract s s')
    (hlive : s.rt.Live (.chan ch)) (hc : (s.rt.chan ch).closed = true)
    (hlive' : s'.rt.Live (.chan ch)) : (s'.rt.chan ch).closed = true ∧
      ∃ es, s'.rt.history ch = s.rt.history ch ++ es ∧ sentBy es = [] ∧
        receivedBy es ++ (s'.rt.chan ch).toRingBuffer.contents =
          (s.rt.chan ch).toRingBuffer.contents := by
  have key := h.path_invariant (R := fun s s' => s'.rt.made (.chan ch) = true ∧
    (s'.rt.frees (.chan ch) = 0 → (s'.rt.chan ch).closed = true ∧
      ∃ es, s'.rt.history ch = s.rt.history ch ++ es ∧ sentBy es = [] ∧
        receivedBy es ++ (s'.rt.chan ch).toRingBuffer.contents =
          (s.rt.chan ch).toRingBuffer.contents)) hp
    ⟨hlive.1, fun _ => ⟨hc, [], (List.append_nil _).symm, rfl, rfl⟩⟩ ?_
  · exact key.2 hlive'.2
  · intro t act u hr ⟨hm, ih⟩ hact hstep
    have hok := ok_of_reach (fun _ _ hc => hc) hr
    refine ⟨hok.made_mono hact hstep _ hm, fun hf => ?_⟩
    have hft : t.rt.frees (.chan ch) = 0 := Nat.le_zero.mp (hf ▸ hok.freed hact hstep ch)
    obtain ⟨hct, es, hes, hsent, hrecv⟩ := ih hft
    rcases hok.accounts hact hstep ⟨hm, hft⟩ with hf' | ⟨fs, hfs, hk⟩
    · exact absurd hf hf'
    · obtain ⟨hcu, hsent', hrecv'⟩ := hk.closed (valid_of_reach hr ⟨hm, hft⟩) hct
      refine ⟨hcu, es ++ fs, by rw [hfs, hes, List.append_assoc], ?_, ?_⟩
      · rw [sentBy_append, hsent, hsent']
        rfl
      · rw [receivedBy_append, List.append_assoc, hrecv', hrecv]

end Sys

/-! ## Exactly once -/

/-- The value that entered a buffer. -/
def Event.pushed? : Event → Option (List Byte)
  | .push _ _ _ _ v => some v
  | _ => none

/-- The value that was taken out of a buffer. -/
def Event.popped? : Event → Option (List Byte)
  | .pop _ _ _ v => some v
  | _ => none

/-- The value that was copied. -/
def Event.value? : Event → Option (List Byte)
  | .push _ _ _ _ v | .pop _ _ _ v | .handoff _ _ _ _ _ _ v => some v
  | _ => none

namespace Rt

/-- The calls whose values have been copied on the channel, in order. -/
def senders (s : Rt) (ch : ChanId) : List CallId := s.log.filterMap (Event.sender? ch)

/-- The calls that have got a value of the channel, in order. -/
def receivers (s : Rt) (ch : ChanId) : List CallId := s.log.filterMap (Event.receiver? ch)

/-- Values are delivered exactly once. -/
structure ExactlyOnce (s : Rt) (ch : ChanId) : Prop where
  /-- no call ends twice, and a call returns the result with which it has ended -/
  ends : s.ended.Nodup
  returns : ∀ c rc, Event.ret c rc ∈ s.log → ∃ role, Event.done c role rc ∈ s.log
  /-- one copy for every send that has succeeded, and no other -/
  sends : (s.senders ch).Nodup ∧ ∀ c, c ∈ s.senders ch ↔ Event.done c (.send ch) .ok ∈ s.log
  receives : (s.receivers ch).Nodup ∧
    ∀ c, c ∈ s.receivers ch ↔ Event.done c (.recv ch) .ok ∈ s.log
  /-- a call that has ended in another way has contributed nothing and got nothing -/
  failed : ∀ c role rc, Event.done c role rc ∈ s.log →
    ((role, rc) ≠ (.send ch, .ok) → c ∉ s.senders ch) ∧
    ((role, rc) ≠ (.recv ch, .ok) → c ∉ s.receivers ch)
  /-- the values that have entered the buffer have left it again, in this order, or are in it -/
  buffer : (s.history ch).filterMap Event.popped? ++ (s.chan ch).toRingBuffer.contents =
    (s.history ch).filterMap Event.pushed?
  sizes : ∀ e ∈ s.history ch, ∀ v ∈ e.value?, v.length = (s.chan ch).elemSize

end Rt

theorem Event.done_of_sentOk {ch : ChanId} {e : Event} {c : CallId} (h : e.sentOk? ch = some c) :
    e = .done c (.send ch) .ok := by
  unfold Event.sentOk? at h
  split at h
  · split at h
    · next hx =>
        subst hx
        rw [Option.some.inj h]
    · cases h
  · cases h

theorem Event.done_of_receivedOk {ch : ChanId} {e : Event} {c : CallId}
    (h : e.receivedOk? ch = some c) : e = .done c (.recv ch) .ok := by
  unfold Event.receivedOk? at h
  split at h
  · split at h
    · next hx =>
        subst hx
        rw [Option.some.inj h]
    · cases h
  · cases h

namespace Chan.Step

variable {ch : ChanId} {met : Prop} {k k' : Chan} {es : List Event}

/-- The buffer alone keeps the order of what goes through it. -/
theorem buffer (h : k.Step ch met es k') (hk : k.toRingBuffer.Valid) :
    k.toRingBuffer.contents ++ es.filterMap Event.pushed? =
      es.filterMap Event.popped? ++ k'.toRingBuffer.contents := by
  cases h with
  | same => exact List.append_nil _
  | close => exact List.append_nil _
  | push c kind src v _ hroom hlen => exact (RingBuffer.contents_push hk hroom hlen).symm
  | pop c out hpos => exact (List.append_nil _).trans (RingBuffer.contents_pop hk hpos)
  | refill c out d kind src v hpos _ hroom hlen =>
      have hpop := RingBuffer.contents_pop hk hpos
      have hpush := RingBuffer.contents_push (hk.pop hpos) hroom hlen
      change k.toRingBuffer.contents ++ [v] =
        k.toRingBuffer.pop.1 :: (k.toRingBuffer.pop.2.push v).contents
      rw [hpush, hpop, List.cons_append]
  | handoff => exact List.append_nil _

/-- A step copies values of the size of the channel's elements, which stays. -/
theorem sizes (h : k.Step ch met es k') (hk : k.toRingBuffer.Valid) :
    k'.elemSize = k.elemSize ∧ ∀ e ∈ es, ∀ v ∈ e.value?, v.length = k.elemSize := by
  cases h with
  | same => exact ⟨rfl, nofun⟩
  | close => exact ⟨rfl, nofun⟩
  | push c kind src v _ _ hlen =>
      refine ⟨rfl, fun e he w hw => ?_⟩
      rw [List.mem_singleton.mp he] at hw
      rw [← Option.some.inj hw]
      exact hlen
  | pop c out hpos =>
      refine ⟨rfl, fun e he w hw => ?_⟩
      rw [List.mem_singleton.mp he] at hw
      rw [← Option.some.inj hw]
      exact RingBuffer.length_pop hk hpos
  | refill c out d kind src v hpos _ _ hlen =>
      refine ⟨rfl, fun e he w hw => ?_⟩
      rcases List.mem_cons.mp he with rfl | he
      · rw [← Option.some.inj hw]
        exact RingBuffer.length_pop hk hpos
      · rw [List.mem_singleton.mp he] at hw
        rw [← Option.some.inj hw]
        exact hlen
  | handoff c kind src d out v _ _ hlen =>
      refine ⟨rfl, fun e he w hw => ?_⟩
      rw [List.mem_singleton.mp he] at hw
      rw [← Option.some.inj hw]
      exact hlen

end Chan.Step

namespace Sys

variable {s s' : Sys} {ch : ChanId}

/-- What the buffer of a channel has done so far. -/
theorem buffer_of_reach (h : machine.Reach Contract s) (hlive : s.rt.Live (.chan ch)) :
    ((s.rt.history ch).filterMap Event.popped? ++ (s.rt.chan ch).toRingBuffer.contents =
      (s.rt.history ch).filterMap Event.pushed?) ∧
    ∀ e ∈ s.rt.history ch, ∀ v ∈ e.value?, v.length = (s.rt.chan ch).elemSize := by
  refine (ledger_invariant (C := fun _ _ => True) (I := fun k es => k.toRingBuffer.Valid ∧
    (es.filterMap Event.popped? ++ k.toRingBuffer.contents = es.filterMap Event.pushed?) ∧
    ∀ e ∈ es, ∀ v ∈ e.value?, v.length = k.elemSize) (fun elemSize capacity => ?_)
    (fun s es k hr ⟨hv, hbuf, hsize⟩ hs => ?_) (h.mono fun _ _ hc => ⟨hc, trivial⟩) hlive).2
  · exact ⟨valid_empty elemSize capacity, RingBuffer.contents_eq_nil.mpr rfl, nofun⟩
  · obtain ⟨helem, hsizes⟩ := hs.sizes hv
    refine ⟨hs.valid hv, ?_, fun e he v hve => ?_⟩
    · rw [List.filterMap_append, List.filterMap_append, List.append_assoc, ← hs.buffer hv,
        ← List.append_assoc, hbuf]
    · rw [helem]
      rcases List.mem_append.mp he with he | he
      · exact hsize e he v hve
      · exact hsizes e he v hve

/-- In every run, with any number of workers: on a channel that has not been destroyed, every
send that has succeeded has given its value to one receive or to the buffer, every receive
that has succeeded has got one value, and nothing else has moved. Each copy of the history is
from the address that the sending call has passed to the one that the receiving call has
passed; the step that enters it makes it, so that the receiver's memory then holds the value,
and changes no other memory. -/
theorem delivered_exactly_once (h : machine.Reach Contract s) (hlive : s.rt.Live (.chan ch)) :
    s.rt.ExactlyOnce ch ∧ (∀ e ∈ s.rt.history ch, e.Vouched s.Asked) ∧
    ∀ act s', s.Contract act → machine.step s act = some s' →
      s.Carries s' ∧ ((∀ a addr v, act ≠ .write a addr v) → s.rt.Copies s'.rt) := by
  refine ⟨?_, fun e he => (vouched_of_reach h).log e (List.mem_of_mem_filter he),
    fun act s' hact hstep => ⟨carries_of_step h hact hstep, copies_of_step h hact hstep⟩⟩
  have hends := (booked_of_reach h).books.once
  have heven := even_of_reach h
  have hsent : s.rt.senders ch = s.rt.log.filterMap (Event.sentOk? ch) := heven.sends ch
  have hreceived : s.rt.receivers ch = s.rt.log.filterMap (Event.receivedOk? ch) :=
    heven.receives ch
  have sends : ∀ c, c ∈ s.rt.senders ch ↔ Event.done c (.send ch) .ok ∈ s.rt.log := fun c => by
    rw [hsent, List.mem_filterMap]
    constructor
    · rintro ⟨e, he, hc⟩
      exact Event.done_of_sentOk hc ▸ he
    · exact fun he => ⟨_, he, by simp⟩
  have receives : ∀ c, c ∈ s.rt.receivers ch ↔ Event.done c (.recv ch) .ok ∈ s.rt.log := fun c => by
    rw [hreceived, List.mem_filterMap]
    constructor
    · rintro ⟨e, he, hc⟩
      exact Event.done_of_receivedOk hc ▸ he
    · exact fun he => ⟨_, he, by simp⟩
  obtain ⟨hbuf, hsize⟩ := buffer_of_reach h hlive
  refine ⟨hends, (answered_of_reach h).returned, ⟨?_, sends⟩, ⟨?_, receives⟩,
    fun c role rc hdone => ⟨fun hne hin => hne ?_, fun hne hin => hne ?_⟩, hbuf, hsize⟩
  · rw [hsent]
    refine hends.sublist (filterMap_sublist_ended (fun e c he => ?_) _)
    rw [Event.done_of_sentOk he]
    rfl
  · rw [hreceived]
    refine hends.sublist (filterMap_sublist_ended (fun e c he => ?_) _)
    rw [Event.done_of_receivedOk he]
    rfl
  · have heq := eq_of_ended hends hdone ((sends c).mp hin) rfl rfl
    simp only [Event.done.injEq] at heq
    rw [heq.2.1, heq.2.2]
  · have heq := eq_of_ended hends hdone ((receives c).mp hin) rfl rfl
    simp only [Event.done.injEq] at heq
    rw [heq.2.1, heq.2.2]

theorem delivered_exactly_once_buffered : ∃ s, machine.Reach Contract s ∧ s.rt.Live (.chan 0) ∧
    s.rt.senders 0 = [1, 2, 5] ∧ s.rt.receivers 0 = [4, 6] ∧ 3 ∉ s.rt.senders 0 ∧
    (s.rt.chan 0).toRingBuffer.contents.length = 1 := by
  obtain ⟨s, hs, hp⟩ := reach_of_promised .poll (List.flatten [
      invoke (.ext 0) (.chanCreate 4 2), invoke (.ext 0) (.chanTrySend (some 0) (some 100)),
      invoke (.ext 0) (.chanTrySend (some 0) (some 104)),
      invoke (.ext 0) (.chanTrySend (some 0) (some 108)),
      invoke (.ext 0) (.chanTryRecv (some 0) (some 200)),
      invoke (.ext 0) (.chanTrySend (some 0) (some 112)),
      invoke (.ext 0) (.chanTryRecv (some 0) (some 204))])
    (fun s => decide (s.rt.Live (.chan 0)) && s.rt.senders 0 == [1, 2, 5] &&
      s.rt.receivers 0 == [4, 6] && s.rt.log.contains (.done 3 (.send 0) .wouldBlock) &&
      (s.rt.chan 0).toRingBuffer.contents.length == 1) (by decide +kernel)
  simp only [Bool.and_eq_true, beq_iff_eq, decide_eq_true_eq, List.contains_iff_mem] at hp
  obtain ⟨⟨⟨⟨hlive, hsend⟩, hrecv⟩, hfull⟩, hlen⟩ := hp
  have hfailed := (delivered_exactly_once hs hlive).1.failed 3 (.send 0) .wouldBlock hfull
  exact ⟨s, hs, hlive, hsend, hrecv, hfailed.1 (by decide), hlen⟩

end Sys

end Microthread
