import Microthread.Model.Buffer

/-!
# The channel buffer refines a bounded queue

The overflow check of `mt_chan_create` bounds the whole block by `SIZE_MAX`. While the
indices stay below the capacity no offset and no increment wraps, so the operations are
those of the ring, which holds the queue of what has been pushed and not yet popped.
-/

namespace Microthread

open Foundation

namespace ChanBuffer

variable {s s' : Session} {elemSize capacity : Nat} {op : Op}

/-- The sizes for which no offset into the buffer wraps. -/
structure Fits (elemSize capacity : Nat) : Prop where
  elem_pos : 0 < elemSize
  capacity_pos : 0 < capacity
  block : elemSize * capacity < 2 ^ 64

theorem fits_of_accepts (h : accepts elemSize capacity = true) (hcap : 0 < capacity) :
    Fits elemSize capacity := by
  simp only [accepts, Bool.not_eq_true', Bool.or_eq_false_iff, decide_eq_false_iff_not,
    Bool.and_eq_false_iff, gt_iff_lt, not_lt] at h
  have hbound : elemSize ≤ sizeMax / capacity := h.2.resolve_left (by omega)
  have hblock : elemSize * capacity ≤ sizeMax :=
    (Nat.mul_le_mul_right capacity hbound).trans (Nat.div_mul_le_self sizeMax capacity)
  have hmax : sizeMax < 2 ^ 64 := by decide
  exact ⟨Nat.pos_of_ne_zero h.1, hcap, hblock.trans_lt hmax⟩

/-- `mt_chan_create` returns a channel for the accepted sizes only. -/
theorem chanCreate_refused (rt : Rt) (h : accepts elemSize capacity = false) :
    rt.chanCreate elemSize capacity = (none, rt) := by
  have hcheck : (decide (elemSize = 0) ||
      (decide (capacity > 0) && decide (elemSize > sizeMax / capacity))) = true := by
    simpa only [accepts, Bool.not_eq_false'] using h
  rw [Rt.chanCreate, if_pos hcheck]

theorem slot_range {i : Nat} (hi : i < capacity) : (i + 1) * elemSize ≤ elemSize * capacity := by
  rw [Nat.succ_mul]
  exact RingBuffer.slot_le hi

theorem Fits.capacity_lt (h : Fits elemSize capacity) : capacity < 2 ^ 64 :=
  (Nat.le_mul_of_pos_left capacity h.elem_pos).trans_lt h.block

theorem Fits.offset (h : Fits elemSize capacity) {i : Nat} (hi : i < capacity) :
    sizeMul i elemSize = i * elemSize := by
  have hslot : (i + 1) * elemSize ≤ elemSize * capacity := slot_range hi
  have hle : i * elemSize ≤ (i + 1) * elemSize := Nat.mul_le_mul_right elemSize (Nat.le_succ i)
  exact Nat.mod_eq_of_lt ((hle.trans hslot).trans_lt h.block)

theorem Fits.succ (h : Fits elemSize capacity) {i : Nat} (hi : i < capacity) :
    sizeAdd i 1 = i + 1 :=
  Nat.mod_eq_of_lt (lt_of_le_of_lt hi h.capacity_lt)

/-- The buffer of a channel in use: its indices, its block and its history. -/
structure Sound (elemSize capacity : Nat) (s : Session) : Prop where
  fits : Fits elemSize capacity
  elemSize_eq : s.ch.elemSize = elemSize
  capacity_eq : s.ch.capacity = capacity
  valid : s.ch.Valid
  fifo : s.pushed = s.popped ++ s.ch.contents

theorem sound_create (h : Fits elemSize capacity) :
    Sound elemSize capacity { ch := create elemSize capacity } := by
  refine ⟨h, rfl, rfl, ⟨Nat.zero_le _, fun _ => h.capacity_pos, fun _ => ?_, ?_⟩, rfl⟩
  · exact (Nat.zero_mod capacity).symm
  · change (List.replicate (sizeMul elemSize capacity) 0).length = elemSize * capacity
    rw [List.length_replicate]
    exact Nat.mod_eq_of_lt h.block

/-- With room in the buffer `mt_chan_buffer_push` is the operation of the ring. -/
theorem Sound.push_eq (h : Sound elemSize capacity s) {value : List Byte}
    (ha : Allowed s (.push value)) : chanBufferPush s.ch value = some (s.ch.push value) := by
  obtain ⟨hlen, hroom⟩ := ha
  have htail : s.ch.tail < capacity := h.capacity_eq ▸ RingBuffer.tail_lt h.valid hroom
  have hlt : s.ch.len < capacity := h.capacity_eq ▸ hroom
  have hfit : s.ch.tail * elemSize + value.length ≤ s.ch.buffer.length := by
    rw [hlen, h.valid.size, h.elemSize_eq, h.capacity_eq]
    exact RingBuffer.slot_le htail
  simp only [chanBufferPush, h.elemSize_eq, h.fits.offset htail, h.fits.succ htail,
    h.fits.succ hlt, copyIn, if_pos hfit, Option.map_some]
  simp only [RingBuffer.push, h.elemSize_eq]

/-- With something in the buffer `mt_chan_buffer_pop` is the operation of the ring. -/
theorem Sound.pop_eq (h : Sound elemSize capacity s) (ha : Allowed s .pop) :
    chanBufferPop s.ch = some s.ch.pop := by
  have hpos : 0 < s.ch.len := ha
  have hhead : s.ch.head < capacity := by
    have := h.valid.head_lt (h.capacity_eq ▸ h.fits.capacity_pos)
    exact h.capacity_eq ▸ this
  have hfit : s.ch.head * elemSize + elemSize ≤ s.ch.buffer.length := by
    rw [h.valid.size, h.elemSize_eq, h.capacity_eq]
    exact RingBuffer.slot_le hhead
  have hdec : sizeDec s.ch.len = s.ch.len - 1 := if_neg (by omega)
  simp only [chanBufferPop, h.elemSize_eq, h.fits.offset hhead, h.fits.succ hhead, hdec, copyOut,
    if_pos hfit, Option.map_some]
  simp only [RingBuffer.pop, RingBuffer.slot, h.elemSize_eq]

theorem Sound.step (h : Sound elemSize capacity s) (ha : Allowed s op)
    (hs : ChanBuffer.step s op = some s') : Sound elemSize capacity s' := by
  cases op with
  | push value =>
      simp only [ChanBuffer.step, h.push_eq ha, Option.map_some, Option.some.injEq] at hs
      subst hs
      obtain ⟨hlen, hroom⟩ := ha
      refine ⟨h.fits, h.elemSize_eq, h.capacity_eq, h.valid.push hroom hlen, ?_⟩
      rw [RingBuffer.contents_push h.valid hroom hlen, h.fifo, List.append_assoc]
  | pop =>
      simp only [ChanBuffer.step, h.pop_eq ha, Option.map_some, Option.some.injEq] at hs
      subst hs
      refine ⟨h.fits, h.elemSize_eq, h.capacity_eq, h.valid.pop ha, ?_⟩
      rw [h.fifo, RingBuffer.contents_pop h.valid ha, List.append_assoc]
      rfl

theorem sound_of_reach (h : Fits elemSize capacity)
    (hr : (machine elemSize capacity).Reach Allowed s) : Sound elemSize capacity s := by
  refine hr.invariant (fun s hs => ?_) fun s op s' _ hi ha hs => hi.step ha hs
  obtain rfl : s = _ := hs
  exact sound_create h

/-- Nothing that the two operations compute wraps, and what they copy is in the block. -/
structure Exact (ch : RingBuffer Byte) : Prop where
  head_lt : ch.head < ch.capacity
  tail_eq : ch.tail = (ch.head + ch.len) % ch.capacity
  len_le : ch.len ≤ ch.capacity
  block : ch.buffer.length = ch.elemSize * ch.capacity ∧ ch.elemSize * ch.capacity < 2 ^ 64
  headRange : sizeMul ch.head ch.elemSize = ch.head * ch.elemSize ∧
    (ch.head + 1) * ch.elemSize ≤ ch.buffer.length
  tailRange : sizeMul ch.tail ch.elemSize = ch.tail * ch.elemSize ∧
    (ch.tail + 1) * ch.elemSize ≤ ch.buffer.length
  steps : sizeAdd ch.head 1 = ch.head + 1 ∧ sizeAdd ch.tail 1 = ch.tail + 1 ∧
    (ch.len < ch.capacity → sizeAdd ch.len 1 = ch.len + 1) ∧
    (0 < ch.len → sizeDec ch.len + 1 = ch.len)

theorem Sound.exact (h : Sound elemSize capacity s) : Exact s.ch := by
  obtain ⟨hfits, rfl, rfl, hvalid, -⟩ := h
  have hhead := hvalid.head_lt hfits.capacity_pos
  have htail : s.ch.tail < s.ch.capacity := by
    rw [hvalid.tail_eq hfits.capacity_pos]
    exact Nat.mod_lt _ hfits.capacity_pos
  refine ⟨hhead, hvalid.tail_eq hfits.capacity_pos, hvalid.len_le, ⟨hvalid.size, hfits.block⟩,
    ⟨hfits.offset hhead, hvalid.size ▸ slot_range hhead⟩,
    ⟨hfits.offset htail, hvalid.size ▸ slot_range htail⟩,
    hfits.succ hhead, hfits.succ htail, fun hlt => hfits.succ hlt, fun hpos => ?_⟩
  rw [sizeDec, if_neg (by omega)]
  omega

/-- What a push does to the block. -/
structure Stores (ch : RingBuffer Byte) (value : List Byte) (ch' : RingBuffer Byte) : Prop where
  /-- the slot at the tail is free -/
  free : ∀ i < ch.len, (ch.head + i) % ch.capacity ≠ ch.tail
  slot : ch'.slot ch.tail = value
  others : ∀ j, j < ch.tail * ch.elemSize ∨ (ch.tail + 1) * ch.elemSize ≤ j →
    ch'.buffer[j]? = ch.buffer[j]?

theorem getElem?_overwrite {l v : List Byte} {off j : Nat} (hfit : off + v.length ≤ l.length)
    (hj : j < off ∨ off + v.length ≤ j) : (RingBuffer.overwrite l off v)[j]? = l[j]? := by
  have hsame := RingBuffer.slice_overwrite_disjoint (i := j) (n := 1) hfit (by omega)
  have hread : ∀ b : List Byte, (RingBuffer.slice b j 1)[0]? = b[j]? := fun b => by
    simp [RingBuffer.slice, List.getElem?_drop]
  rw [← hread, hsame, hread]

theorem Sound.stores (h : Sound elemSize capacity s) {value : List Byte}
    (ha : Allowed s (.push value)) : Stores s.ch value (s.ch.push value) := by
  obtain ⟨hfits, rfl, rfl, hvalid, -⟩ := h
  obtain ⟨hlen, hroom⟩ := ha
  have htail := RingBuffer.tail_lt hvalid hroom
  have hfit : s.ch.tail * s.ch.elemSize + value.length ≤ s.ch.buffer.length := by
    rw [hlen, hvalid.size]
    exact RingBuffer.slot_le htail
  refine ⟨fun i hi heq => ?_, ?_, fun j hj => ?_⟩
  · -- two offsets below the capacity that meet at one slot are equal
    rw [hvalid.tail_eq hfits.capacity_pos] at heq
    have hmod : i % s.ch.capacity = s.ch.len % s.ch.capacity :=
      Nat.ModEq.add_left_cancel' s.ch.head heq
    rw [Nat.mod_eq_of_lt (by omega), Nat.mod_eq_of_lt hroom] at hmod
    omega
  · have hself := RingBuffer.slice_overwrite_self hfit
    rwa [hlen] at hself
  · refine getElem?_overwrite hfit ?_
    rw [hlen, ← Nat.succ_mul]
    exact hj

/-- For all sizes that `mt_chan_create` accepts and every sequence of the two operations: no
index, offset or copy leaves its bounds, a push writes nothing but the free slot at the tail,
and the buffer holds, in order, what has been pushed and not yet popped. -/
theorem buffer_refines_fifo (hacc : accepts elemSize capacity = true) (hcap : 0 < capacity)
    (hr : (machine elemSize capacity).Reach Allowed s) :
    s.ch.elemSize = elemSize ∧ s.ch.capacity = capacity ∧ Exact s.ch ∧
      s.pushed = s.popped ++ s.ch.contents ∧ s.ch.contents.length = s.ch.len ∧
      (∀ value, Allowed s (.push value) → ∃ ch', chanBufferPush s.ch value = some ch' ∧
        ch'.contents = s.ch.contents ++ [value] ∧ Stores s.ch value ch') ∧
      (Allowed s .pop → ∃ value ch', chanBufferPop s.ch = some (value, ch') ∧
        s.ch.contents = value :: ch'.contents ∧ ch'.buffer = s.ch.buffer) := by
  have h := sound_of_reach (fits_of_accepts hacc hcap) hr
  refine ⟨h.elemSize_eq, h.capacity_eq, h.exact, h.fifo, RingBuffer.length_contents _,
    fun value ha => ?_, fun ha => ?_⟩
  · exact ⟨_, h.push_eq ha, RingBuffer.contents_push h.valid ha.2 ha.1, h.stores ha⟩
  · exact ⟨_, _, h.pop_eq ha, RingBuffer.contents_pop h.valid ha, rfl⟩

/-- Three elements of two bytes have gone through a buffer of two slots, so that the tail has
wrapped and a push finds its free slot in front of the head. -/
theorem buffer_refines_fifo_wrapped : ∃ s, (machine 2 2).Reach Allowed s ∧ s.ch.tail = 1 ∧
    s.popped = [[1, 2], [3, 4]] ∧ s.pushed = s.popped ++ s.ch.contents ∧
    ∃ ch', chanBufferPush s.ch [7, 8] = some ch' ∧ ch'.contents = s.ch.contents ++ [[7, 8]] := by
  let test : Session → Op → Bool := fun s op => decide (Allowed s op)
  have hrun : (machine 2 2).replay test { ch := create 2 2 }
      [.push [1, 2], .push [3, 4], .pop, .push [5, 6], .pop] =
      some { ch := ⟨2, 2, 1, 0, 1, [5, 6, 3, 4]⟩, pushed := [[1, 2], [3, 4], [5, 6]]
             popped := [[1, 2], [3, 4]] } := by decide +kernel
  have hreach : (machine 2 2).Reach Allowed _ :=
    Machine.Reach.replay (.init rfl) (fun s op ht => of_decide_eq_true ht) hrun
  obtain ⟨-, -, -, hfifo, -, hpush, -⟩ := buffer_refines_fifo (by decide) (by decide) hreach
  obtain ⟨ch', hch, hcontents, -⟩ := hpush [7, 8] (by decide)
  exact ⟨_, hreach, rfl, rfl, hfifo, ch', hch, hcontents⟩

end ChanBuffer

end Microthread
