import Mathlib.Data.List.Basic
import Mathlib.Data.Nat.ModEq

/-!
# Bounded rings of fixed-size elements

A ring stores up to `capacity` elements of `elemSize` cells each in one flat
block. `head` is the slot of the oldest element and `tail` the next free slot;
both advance modulo the capacity. `contents` reads the stored elements from
oldest to newest, and is the whole abstraction: `push` appends to it and `pop`
detaches its first element, at any wraparound.
-/

namespace Foundation

universe u

/-- Geometry, indices and the flat block of cells. -/
structure RingBuffer (α : Type u) where
  elemSize : Nat := 0
  capacity : Nat := 0
  len : Nat := 0
  head : Nat := 0
  tail : Nat := 0
  buffer : List α := []
  deriving DecidableEq, Repr

namespace RingBuffer

variable {α : Type u}

/-- The `n` cells starting at `off`. -/
def slice (l : List α) (off n : Nat) : List α := (l.drop off).take n

/-- Replace the cells starting at `off` by `v`. -/
def overwrite (l : List α) (off : Nat) (v : List α) : List α :=
  l.take off ++ v ++ l.drop (off + v.length)

/-- The cells of one slot. -/
def slot (r : RingBuffer α) (i : Nat) : List α := slice r.buffer (i * r.elemSize) r.elemSize

/-- Store an element in the tail slot. -/
def push (r : RingBuffer α) (v : List α) : RingBuffer α :=
  { r with
    buffer := overwrite r.buffer (r.tail * r.elemSize) v
    tail := (r.tail + 1) % r.capacity
    len := r.len + 1 }

/-- Take the element of the head slot. Its cells stay where they are. -/
def pop (r : RingBuffer α) : List α × RingBuffer α :=
  (r.slot r.head, { r with head := (r.head + 1) % r.capacity, len := r.len - 1 })

/-- The stored elements, oldest first. -/
def contents (r : RingBuffer α) : List (List α) :=
  (List.range r.len).map fun i => r.slot ((r.head + i) % r.capacity)

/-- The block has one slot per element of the capacity and the indices agree. -/
structure Valid (r : RingBuffer α) : Prop where
  len_le : r.len ≤ r.capacity
  head_lt : 0 < r.capacity → r.head < r.capacity
  tail_eq : 0 < r.capacity → r.tail = (r.head + r.len) % r.capacity
  size : r.buffer.length = r.elemSize * r.capacity

@[simp] theorem length_contents (r : RingBuffer α) : r.contents.length = r.len := by
  simp [contents]

theorem contents_eq_nil {r : RingBuffer α} : r.contents = [] ↔ r.len = 0 := by
  rw [← List.length_eq_zero_iff, length_contents]

section Slots

/-- Distinct slots occupy disjoint cells. -/
theorem slot_disjoint {i j n : Nat} (h : i ≠ j) : i * n + n ≤ j * n ∨ j * n + n ≤ i * n := by
  rcases Nat.lt_or_gt_of_ne h with hlt | hlt
  · left
    rw [← Nat.succ_mul]
    exact Nat.mul_le_mul_right n hlt
  · right
    rw [← Nat.succ_mul]
    exact Nat.mul_le_mul_right n hlt

theorem slot_le {i c n : Nat} (h : i < c) : i * n + n ≤ n * c := by
  rw [← Nat.succ_mul, Nat.mul_comm n c]
  exact Nat.mul_le_mul_right n h

theorem length_overwrite {l v : List α} {off : Nat} (h : off + v.length ≤ l.length) :
    (overwrite l off v).length = l.length := by
  simp only [overwrite, List.length_append, List.length_take, List.length_drop]
  omega

theorem slice_overwrite_self {l v : List α} {off : Nat} (h : off + v.length ≤ l.length) :
    slice (overwrite l off v) off v.length = v := by
  have htake : (l.take off).length = off := by
    rw [List.length_take]
    omega
  rw [slice, overwrite, List.append_assoc, List.drop_append, htake, Nat.sub_self,
    List.drop_eq_nil_of_le (by omega)]
  simp

theorem slice_overwrite_disjoint {l v : List α} {off i n : Nat} (h : off + v.length ≤ l.length)
    (hd : i + n ≤ off ∨ off + v.length ≤ i) :
    slice (overwrite l off v) i n = slice l i n := by
  apply List.ext_getElem?
  intro k
  simp only [slice, overwrite, List.getElem?_take, List.getElem?_drop, List.append_assoc]
  split
  · next hk =>
      have htake : (l.take off).length = off := by
        rw [List.length_take]
        omega
      rcases hd with hd | hd
      · rw [List.getElem?_append_left (by rw [htake]; omega), List.getElem?_take]
        simp [show i + k < off by omega]
      · rw [List.getElem?_append_right (by rw [htake]; omega), htake,
          List.getElem?_append_right (by omega), List.getElem?_drop]
        congr 1
        omega
  · rfl

end Slots

section Operations

variable {r : RingBuffer α} {v : List α}

@[simp] theorem push_capacity : (r.push v).capacity = r.capacity := rfl
@[simp] theorem push_elemSize : (r.push v).elemSize = r.elemSize := rfl
@[simp] theorem push_len : (r.push v).len = r.len + 1 := rfl
@[simp] theorem pop_capacity : r.pop.2.capacity = r.capacity := rfl
@[simp] theorem pop_elemSize : r.pop.2.elemSize = r.elemSize := rfl
@[simp] theorem pop_len : r.pop.2.len = r.len - 1 := rfl

theorem tail_lt (hr : r.Valid) (hlt : r.len < r.capacity) : r.tail < r.capacity := by
  rw [hr.tail_eq (by omega)]
  exact Nat.mod_lt _ (by omega)

theorem Valid.push (hr : r.Valid) (hlt : r.len < r.capacity) (hv : v.length = r.elemSize) :
    (r.push v).Valid where
  len_le := hlt
  head_lt := hr.head_lt
  tail_eq h := by
    change (r.tail + 1) % r.capacity = (r.head + (r.len + 1)) % r.capacity
    rw [hr.tail_eq h, Nat.mod_add_mod, Nat.add_assoc]
  size := by
    have := slot_le (n := r.elemSize) (tail_lt hr hlt)
    change (overwrite _ _ _).length = _
    rw [length_overwrite (by rw [hv, hr.size]; exact this), hr.size]
    rfl

theorem Valid.pop (hr : r.Valid) (hpos : 0 < r.len) : r.pop.2.Valid where
  len_le := Nat.le_trans (Nat.sub_le _ _) hr.len_le
  head_lt h := Nat.mod_lt _ h
  tail_eq h := by
    change r.tail = ((r.head + 1) % r.capacity + (r.len - 1)) % r.capacity
    rw [hr.tail_eq h, Nat.mod_add_mod]
    congr 1
    omega
  size := hr.size

/-- Pushing into a ring that is not full appends to its contents. -/
theorem contents_push (hr : r.Valid) (hlt : r.len < r.capacity) (hv : v.length = r.elemSize) :
    (r.push v).contents = r.contents ++ [v] := by
  have hcap : 0 < r.capacity := by omega
  have hfit : r.tail * r.elemSize + v.length ≤ r.buffer.length := by
    rw [hv, hr.size]
    exact slot_le (tail_lt hr hlt)
  have hother (i : Nat) (hi : i < r.len) :
      (r.push v).slot ((r.head + i) % r.capacity) = r.slot ((r.head + i) % r.capacity) := by
    apply slice_overwrite_disjoint hfit
    rw [hv, or_comm]
    apply slot_disjoint
    -- equal slots would make `i` and `len` congruent modulo the capacity
    rw [hr.tail_eq hcap]
    intro heq
    have hmod : i % r.capacity = r.len % r.capacity := Nat.ModEq.add_left_cancel' r.head heq.symm
    rw [Nat.mod_eq_of_lt (by omega), Nat.mod_eq_of_lt hlt] at hmod
    omega
  have hself : (r.push v).slot ((r.head + r.len) % r.capacity) = v := by
    rw [← hr.tail_eq hcap]
    have := slice_overwrite_self hfit
    rwa [hv] at this
  simp only [contents, push_len, List.range_succ, List.map_append, List.map_cons, List.map_nil]
  change List.map (fun i => (r.push v).slot ((r.head + i) % r.capacity)) _ ++
    [(r.push v).slot ((r.head + r.len) % r.capacity)] = _
  rw [hself, List.map_congr_left fun i hi => hother i (List.mem_range.mp hi)]

/-- Popping from a ring that is not empty detaches its oldest element. -/
theorem contents_pop (hr : r.Valid) (hpos : 0 < r.len) :
    r.contents = r.pop.1 :: r.pop.2.contents := by
  have hcap : 0 < r.capacity := Nat.lt_of_lt_of_le hpos hr.len_le
  obtain ⟨n, hn⟩ : ∃ n, r.len = n + 1 := ⟨r.len - 1, by omega⟩
  have hhead : (r.head + 0) % r.capacity = r.head := Nat.mod_eq_of_lt (hr.head_lt hcap)
  simp only [contents, pop_len, hn, Nat.add_sub_cancel, List.range_succ_eq_map, List.map_cons,
    List.map_map]
  rw [hhead]
  congr 1
  apply List.map_congr_left
  intro i _
  change r.slot ((r.head + (i + 1)) % r.capacity) =
    r.slot (((r.head + 1) % r.capacity + i) % r.capacity)
  rw [Nat.mod_add_mod]
  congr 2
  omega

theorem length_pop (hr : r.Valid) (hpos : 0 < r.len) : r.pop.1.length = r.elemSize := by
  have := slot_le (n := r.elemSize) (hr.head_lt (Nat.lt_of_lt_of_le hpos hr.len_le))
  simp only [RingBuffer.pop, slot, slice, List.length_take, List.length_drop, hr.size]
  omega

end Operations

end RingBuffer

end Foundation
