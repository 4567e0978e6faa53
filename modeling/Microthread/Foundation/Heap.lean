import Mathlib.Data.List.Perm.Basic
import Mathlib.Logic.Equiv.Basic
import Mathlib.Order.Lattice

/-!
# Binary heaps stored in a list

The usual array heap: the children of position `i` stand at `2 i + 1` and
`2 i + 2`. Both sifts are loops over positions; the loop of `siftUp` moves a
position to its parent and that of `siftDown` to a child, so the length of the
list bounds the iterations of either, and is passed as fuel.

Every operation is a rearrangement plus or minus one element: `push`, `pop` and
`removeAt` are described up to `List.Perm` first, whatever the order is. If the
comparison is that of keys in a linear order, they keep the heap order, so the
root has the least key. The last part runs the loops without fuel.
-/

namespace Foundation.Heap

universe u v

variable {α : Type u} (less : α → α → Bool)

/-- Exchange two positions; out-of-range positions change nothing. -/
def swap (a : List α) (i j : Nat) : List α :=
  match a[i]?, a[j]? with
  | some x, some y => (a.set i y).set j x
  | _, _ => a

/-- The element at `i` orders strictly before the element at `j`. -/
def lessAt (a : List α) (i j : Nat) : Bool :=
  match a[i]?, a[j]? with
  | some x, some y => less x y
  | _, _ => false

/-- Move the element at `i` towards the root while it orders before its parent.
The final position is returned with the list. -/
def siftUp : Nat → List α → Nat → List α × Nat
  | 0, a, i => (a, i)
  | fuel + 1, a, i =>
    if i = 0 then (a, i)
    else
      let parent := (i - 1) / 2
      if lessAt less a i parent then siftUp fuel (swap a i parent) parent else (a, i)

/-- The smallest of position `i` and its children. -/
def smallest (a : List α) (i : Nat) : Nat :=
  let left := 2 * i + 1
  let right := left + 1
  let m := if left < a.length ∧ lessAt less a left i then left else i
  if right < a.length ∧ lessAt less a right m then right else m

/-- Move the element at `i` towards the leaves while a child orders before it. -/
def siftDown : Nat → List α → Nat → List α
  | 0, a, _ => a
  | fuel + 1, a, i =>
    let m := smallest less a i
    if m = i then a else siftDown fuel (swap a i m) m

/-- Append the element and sift it up. -/
def push (a : List α) (x : α) : List α :=
  (siftUp less (a.length + 1) (a ++ [x]) a.length).1

/-- Detach the root: the last leaf takes its place and is sifted down. -/
def pop (a : List α) : Option (α × List α) :=
  match a with
  | [] => none
  | top :: rest =>
    match rest.getLast? with
    | none => some (top, [])
    | some leaf => some (top, siftDown less rest.length (leaf :: rest.dropLast) 0)

/-- Detach position `i`: the last leaf takes its place and is sifted up, then
down. Removing the last position needs no repair. -/
def removeAt (a : List α) (i : Nat) : List α :=
  let b := a.dropLast
  if i = b.length then b
  else
    match a.getLast? with
    | none => b
    | some leaf =>
      let (c, j) := siftUp less a.length (b.set i leaf) i
      siftDown less a.length c j

section Perm

theorem swap_perm (a : List α) (i j : Nat) : (swap a i j).Perm a := by
  unfold swap
  split
  · next x y hx hy =>
      obtain ⟨hi, rfl⟩ := List.getElem?_eq_some_iff.mp hx
      obtain ⟨hj, rfl⟩ := List.getElem?_eq_some_iff.mp hy
      exact List.set_set_perm hi hj
  · exact .refl a

theorem siftUp_perm (fuel : Nat) (a : List α) (i : Nat) :
    (siftUp less fuel a i).1.Perm a := by
  induction fuel generalizing a i with
  | zero => exact .refl a
  | succ fuel ih =>
      unfold siftUp
      split
      · exact .refl a
      · dsimp only
        split
        · exact (ih _ _).trans (swap_perm a _ _)
        · exact .refl a

theorem siftDown_perm (fuel : Nat) (a : List α) (i : Nat) :
    (siftDown less fuel a i).Perm a := by
  induction fuel generalizing a i with
  | zero => exact .refl a
  | succ fuel ih =>
      unfold siftDown
      dsimp only
      split
      · exact .refl a
      · exact (ih _ _).trans (swap_perm a _ _)

theorem push_perm (a : List α) (x : α) : (push less a x).Perm (x :: a) :=
  (siftUp_perm less _ _ _).trans List.perm_append_comm

theorem pop_eq_none {a : List α} : pop less a = none ↔ a = [] := by
  unfold pop
  split
  · simp
  · split <;> simp

/-- `pop` takes the root and keeps everything else. -/
theorem pop_perm {a b : List α} {x : α} (h : pop less a = some (x, b)) :
    a.head? = some x ∧ a.Perm (x :: b) := by
  unfold pop at h
  split at h
  · simp at h
  · next top rest =>
      split at h
      · next hlast =>
          obtain ⟨rfl, rfl⟩ : top = x ∧ [] = b := by simpa using h
          have hrest : rest = [] := by simpa using hlast
          simp [hrest]
      · next leaf hlast =>
          obtain ⟨rfl, rfl⟩ : top = x ∧ _ = b := by simpa using h
          refine ⟨rfl, List.Perm.cons _ ?_⟩
          have hsplit : rest = rest.dropLast ++ [leaf] := by
            rw [List.dropLast_append_getLast? leaf hlast]
          calc rest.Perm (rest.dropLast ++ [leaf]) := .of_eq hsplit
            List.Perm _ (leaf :: rest.dropLast) := List.perm_append_comm
            List.Perm _ _ := (siftDown_perm less _ _ _).symm

/-- `removeAt` drops exactly the element at the position. -/
theorem removeAt_perm {a : List α} {i : Nat} {x : α} (hx : a[i]? = some x) :
    a.Perm (x :: removeAt less a i) := by
  obtain ⟨hi, hget⟩ := List.getElem?_eq_some_iff.mp hx
  have hne : a ≠ [] := List.ne_nil_of_length_pos (by omega)
  have hsplit : a = a.dropLast ++ [a.getLast hne] := (List.dropLast_append_getLast hne).symm
  unfold removeAt
  dsimp only
  split
  · next hlast =>
      have hxlast : a.getLast hne = x := by
        rw [List.getLast_eq_getElem, ← hget]
        congr 1
        simp at hlast
        omega
      rw [← hxlast]
      exact (List.Perm.of_eq hsplit).trans List.perm_append_comm
  · next hmid =>
      have hib : i < a.dropLast.length := by
        simp only [List.length_dropLast] at hmid ⊢
        omega
      have hbx : a.dropLast[i] = x := by rw [List.getElem_dropLast, hget]
      rw [List.getLast?_eq_some_getLast hne]
      refine (?_ : a.Perm (x :: a.dropLast.set i (a.getLast hne))).trans
        (.cons _ ((siftUp_perm less _ _ _).symm.trans (siftDown_perm less _ _ _).symm))
      have herase := List.getElem_cons_eraseIdx_perm hib
      rw [hbx] at herase
      calc a.Perm (a.getLast hne :: a.dropLast) :=
            (List.Perm.of_eq hsplit).trans List.perm_append_comm
        List.Perm _ (a.getLast hne :: x :: a.dropLast.eraseIdx i) := .cons _ herase.symm
        List.Perm _ (x :: a.getLast hne :: a.dropLast.eraseIdx i) := .swap _ _ _
        List.Perm _ (x :: a.dropLast.set i (a.getLast hne)) :=
            .cons _ (List.set_perm_cons_eraseIdx hib _).symm

theorem length_swap (a : List α) (i j : Nat) : (swap a i j).length = a.length :=
  (swap_perm a i j).length_eq

theorem length_siftUp (fuel : Nat) (a : List α) (i : Nat) :
    (siftUp less fuel a i).1.length = a.length :=
  (siftUp_perm less fuel a i).length_eq

end Perm

theorem getElem?_swap {a : List α} {i j : Nat} (hi : i < a.length) (hj : j < a.length) (k : Nat) :
    (swap a i j)[k]? = a[Equiv.swap i j k]? := by
  have hx : a[i]? = some a[i] := List.getElem?_eq_getElem hi
  have hy : a[j]? = some a[j] := List.getElem?_eq_getElem hj
  simp only [swap, hx, hy]
  by_cases hkj : k = j
  · subst hkj
    rw [Equiv.swap_apply_right, hx, List.getElem?_set_self (by simpa using hj)]
  · rw [List.getElem?_set_ne (Ne.symm hkj)]
    by_cases hki : k = i
    · subst hki
      rw [Equiv.swap_apply_left, hy, List.getElem?_set_self hi]
    · rw [List.getElem?_set_ne (Ne.symm hki), Equiv.swap_apply_of_ne_of_ne hki hkj]

section Order

variable {κ : Type v} [LinearOrder κ] (key : α → κ)

/-- The element at `i` is not after the element at `j`, where both are there. -/
def AtMost (a : List α) (i j : Nat) : Prop := ∀ x ∈ a[i]?, ∀ y ∈ a[j]?, key x ≤ key y

/-- No element is before its parent. -/
def Ordered (a : List α) : Prop := ∀ j, 0 < j → AtMost key a ((j - 1) / 2) j

/-- Only the edges at position `i` may be out of order, and the parent of `i` is in order with
its children. -/
structure Nearly (a : List α) (i : Nat) : Prop where
  bound : i < a.length
  away : ∀ j, 0 < j → j ≠ i → (j - 1) / 2 ≠ i → AtMost key a ((j - 1) / 2) j
  across : 0 < i → ∀ j, 0 < j → (j - 1) / 2 = i → AtMost key a ((i - 1) / 2) j

/-- The element at `i` may have to move up, and only up. -/
structure UpReady (a : List α) (i : Nat) : Prop extends Nearly key a i where
  below : ∀ j, 0 < j → (j - 1) / 2 = i → AtMost key a i j

/-- The element at `i` may have to move down, and only down. -/
structure DownReady (a : List α) (i : Nat) : Prop extends Nearly key a i where
  above : 0 < i → AtMost key a ((i - 1) / 2) i

variable {key} {less} {a b : List α} {i j k : Nat}

theorem AtMost.trans (hj : j < a.length) (hij : AtMost key a i j) (hjk : AtMost key a j k) :
    AtMost key a i k := by
  intro x hx y hy
  have hz : a[j] ∈ a[j]? := List.getElem?_eq_getElem hj
  exact le_trans (hij x hx _ hz) (hjk _ hz y hy)

theorem AtMost.self (a : List α) (i : Nat) : AtMost key a i i := by
  intro x hx y hy
  exact le_of_eq (congrArg key (Option.mem_unique hx hy))

/-- The same two elements, in another list. -/
theorem AtMost.of_mem {k l : Nat} (h : AtMost key a i j) (hi : ∀ x ∈ b[k]?, x ∈ a[i]?)
    (hj : ∀ y ∈ b[l]?, y ∈ a[j]?) : AtMost key b k l :=
  fun x hx y hy => h x (hi x hx) y (hj y hy)

theorem atMost_swap (hi : i < a.length) (hj : j < a.length) (k l : Nat) :
    AtMost key (swap a i j) k l ↔ AtMost key a (Equiv.swap i j k) (Equiv.swap i j l) := by
  unfold AtMost
  rw [getElem?_swap hi hj, getElem?_swap hi hj]

theorem Ordered.congr {key' : α → κ} (h : Ordered key a) (heq : ∀ x ∈ a, key' x = key x) :
    Ordered key' a := by
  intro j hj x hx y hy
  rw [heq x (List.mem_of_getElem? hx), heq y (List.mem_of_getElem? hy)]
  exact h j hj x hx y hy

/-- The root has the least key. -/
theorem Ordered.root_le (h : Ordered key a) {x y : α} (hx : x ∈ a[0]?) (hy : y ∈ a) :
    key x ≤ key y := by
  obtain ⟨i, hi⟩ := List.mem_iff_getElem?.mp hy
  induction i using Nat.strongRecOn generalizing y with
  | ind i ih =>
      by_cases hzero : i = 0
      · subst hzero
        exact le_of_eq (congrArg key (Option.mem_unique hx hi))
      · have hlt : i < a.length := (List.getElem?_eq_some_iff.mp hi).1
        have hparent : (i - 1) / 2 < a.length := by omega
        have hp : a[(i - 1) / 2] ∈ a[(i - 1) / 2]? := List.getElem?_eq_getElem hparent
        calc key x ≤ key a[(i - 1) / 2] := ih _ (by omega) (List.getElem_mem hparent) hp
          _ ≤ key y := h i (by omega) _ hp y hi

/-- With distinct keys every element is strictly before its children. -/
theorem Ordered.lt (h : Ordered key a) (hkeys : (a.map key).Nodup) {x y : α} (hj : 0 < j)
    (hx : x ∈ a[(j - 1) / 2]?) (hy : y ∈ a[j]?) : key x < key y := by
  refine lt_of_le_of_ne (h j hj x hx y hy) fun heq => ?_
  have hlt : j < a.length := (List.getElem?_eq_some_iff.mp hy).1
  have hx' : (a.map key)[(j - 1) / 2]? = some (key x) := by
    rw [List.getElem?_map, Option.mem_def.mp hx, Option.map_some]
  have hy' : (a.map key)[j]? = some (key y) := by
    rw [List.getElem?_map, Option.mem_def.mp hy, Option.map_some]
  have hparent : (j - 1) / 2 < (a.map key).length := by
    rw [List.length_map]
    omega
  have : (j - 1) / 2 = j := 
    (List.getElem?_inj hparent hkeys).mp (by rw [hx', hy', heq])
  omega

/-! ## What the sifts need and leave -/

theorem Nearly.ordered (h : Nearly key a i) (habove : 0 < i → AtMost key a ((i - 1) / 2) i)
    (hbelow : ∀ j, 0 < j → (j - 1) / 2 = i → AtMost key a i j) : Ordered key a := by
  intro j hj
  by_cases hji : j = i
  · subst hji
    exact habove hj
  · by_cases hp : (j - 1) / 2 = i
    · rw [hp]
      exact hbelow j hj hp
    · exact h.away j hj hji hp

theorem Ordered.downReady (h : Ordered key a) (hi : i < a.length) : DownReady key a i where
  bound := hi
  away j hj _ _ := h j hj
  across hpos j hj hp := by
    have hij := h j hj
    rw [hp] at hij
    exact (h i hpos).trans hi hij
  above hpos := h i hpos

section Sifts

variable (hless : ∀ x y, less x y = true ↔ key x < key y)
include hless

theorem lessAt_atMost (h : lessAt less a i j = true) : AtMost key a i j := by
  intro x hx y hy
  simp only [lessAt, Option.mem_def.mp hx, Option.mem_def.mp hy] at h
  exact le_of_lt ((hless x y).mp h)

theorem not_lessAt_atMost (h : lessAt less a i j = false) : AtMost key a j i := by
  intro y hy x hx
  simp only [lessAt, Option.mem_def.mp hx, Option.mem_def.mp hy] at h
  exact not_lt.mp fun hlt => by simp [(hless x y).mpr hlt] at h

/-- One step of the loop of `siftUp`. -/
theorem Nearly.up (h : Nearly key a i) (hi : 0 < i) (hl : lessAt less a i ((i - 1) / 2) = true) :
    UpReady key (swap a i ((i - 1) / 2)) ((i - 1) / 2) := by
  have hbound := h.bound
  have hp : (i - 1) / 2 < a.length := by omega
  have hself := lessAt_atMost hless hl
  have hparent : 0 < (i - 1) / 2 → AtMost key a (((i - 1) / 2 - 1) / 2) ((i - 1) / 2) :=
    fun hpos => h.away _ hpos (by omega) (by omega)
  have hsibling : ∀ j, 0 < j → (j - 1) / 2 = (i - 1) / 2 → j ≠ i → AtMost key a ((i - 1) / 2) j := by
    intro j hj hjp hji
    have := h.away j hj hji (by omega)
    rwa [hjp] at this
  refine ⟨⟨by rw [length_swap]; omega, ?_, ?_⟩, ?_⟩
  · intro j hj hjp hjpp
    have hji : j ≠ i := fun heq => hjpp (by rw [heq])
    rw [atMost_swap hbound hp, Equiv.swap_apply_of_ne_of_ne hji hjp]
    by_cases hpi : (j - 1) / 2 = i
    · rw [hpi, Equiv.swap_apply_left]
      exact h.across hi j hj hpi
    · rw [Equiv.swap_apply_of_ne_of_ne hpi hjpp]
      exact h.away j hj hji hpi
  · intro hpos j hj hjp
    rw [atMost_swap hbound hp,
      Equiv.swap_apply_of_ne_of_ne (show ((i - 1) / 2 - 1) / 2 ≠ i by omega) (by omega)]
    by_cases hji : j = i
    · rw [hji, Equiv.swap_apply_left]
      exact hparent hpos
    · rw [Equiv.swap_apply_of_ne_of_ne hji (by omega)]
      exact (hparent hpos).trans hp (hsibling j hj hjp hji)
  · intro j hj hjp
    rw [atMost_swap hbound hp, Equiv.swap_apply_right]
    by_cases hji : j = i
    · rw [hji, Equiv.swap_apply_left]
      exact hself
    · rw [Equiv.swap_apply_of_ne_of_ne hji (by omega)]
      exact hself.trans hp (hsibling j hj hjp hji)

theorem siftUp_ordered {fuel : Nat} (h : UpReady key a i) (hfuel : i ≤ fuel) :
    Ordered key (siftUp less fuel a i).1 := by
  induction fuel generalizing a i with
  | zero => exact h.toNearly.ordered (fun hpos => by omega) h.below
  | succ fuel ih =>
      unfold siftUp
      split
      · exact h.toNearly.ordered (fun hpos => by omega) h.below
      · next hi =>
          dsimp only
          split
          · next hl => exact ih (h.toNearly.up hless (by omega) hl) (by omega)
          · next hl =>
              exact h.toNearly.ordered
                (fun _ => not_lessAt_atMost hless (Bool.eq_false_iff.mpr hl)) h.below

omit hless in
theorem siftUp_bound (fuel : Nat) (hi : i < a.length) : (siftUp less fuel a i).2 < a.length := by
  induction fuel generalizing a i with
  | zero => exact hi
  | succ fuel ih =>
      unfold siftUp
      split
      · exact hi
      · dsimp only
        split
        · have := ih (a := swap a i ((i - 1) / 2)) (i := (i - 1) / 2) (by rw [length_swap]; omega)
          rwa [length_swap] at this
        · exact hi

/-- Wherever the element belongs, only the way down is left after sifting it up. -/
theorem siftUp_downReady {fuel : Nat} (h : Nearly key a i) (hfuel : i ≤ fuel) :
    DownReady key (siftUp less fuel a i).1 (siftUp less fuel a i).2 := by
  cases fuel with
  | zero => exact ⟨h, fun hpos => by simp only [siftUp] at hpos; omega⟩
  | succ fuel =>
      unfold siftUp
      split
      · exact ⟨h, fun hpos => by omega⟩
      · next hi =>
          dsimp only
          split
          · next hl =>
              have hup := h.up hless (by omega) hl
              refine (siftUp_ordered hless hup (by omega)).downReady ?_
              rw [length_siftUp]
              exact siftUp_bound fuel hup.bound
          · next hl => exact ⟨h, fun _ => not_lessAt_atMost hless (Bool.eq_false_iff.mpr hl)⟩

theorem smallest_spec (hi : i < a.length) :
    (smallest less a i = i ∨ 0 < smallest less a i ∧ (smallest less a i - 1) / 2 = i ∧
      smallest less a i < a.length) ∧ AtMost key a (smallest less a i) i ∧
      ∀ j, 0 < j → (j - 1) / 2 = i → AtMost key a (smallest less a i) j := by
  have hout : ∀ j, ¬ j < a.length → ∀ m, AtMost key a m j := by
    intro j hj m x _ y hy
    exact absurd (List.getElem?_eq_some_iff.mp hy).1 hj
  -- the smaller of the element and its left child
  obtain ⟨m, hm⟩ : ∃ m, m = if 2 * i + 1 < a.length ∧ lessAt less a (2 * i + 1) i then 2 * i + 1
    else i := ⟨_, rfl⟩
  have hleft : (m = i ∨ m = 2 * i + 1) ∧ m < a.length ∧ AtMost key a m i ∧
      AtMost key a m (2 * i + 1) := by
    rw [hm]
    split
    · next h => exact ⟨.inr rfl, h.1, lessAt_atMost hless h.2, .self a _⟩
    · next h =>
        refine ⟨.inl rfl, hi, .self a _, ?_⟩
        by_cases hb : 2 * i + 1 < a.length
        · exact not_lessAt_atMost hless (Bool.eq_false_iff.mpr fun hl => h ⟨hb, hl⟩)
        · exact hout _ hb _
  obtain ⟨hmi, hmb, hself, hl⟩ := hleft
  have heq : smallest less a i =
      if 2 * i + 1 + 1 < a.length ∧ lessAt less a (2 * i + 1 + 1) m then 2 * i + 1 + 1 else m := by
    rw [hm]
    rfl
  rw [heq]
  split
  · next h =>
      have hr := lessAt_atMost hless h.2
      refine ⟨.inr ⟨by omega, by omega, h.1⟩, hr.trans hmb hself, ?_⟩
      intro j hj hp
      obtain rfl | rfl : j = 2 * i + 1 ∨ j = 2 * i + 1 + 1 := by omega
      · exact hr.trans hmb hl
      · exact .self a _
  · next h =>
      refine ⟨?_, hself, ?_⟩
      · rcases hmi with rfl | rfl
        · exact .inl rfl
        · exact .inr ⟨by omega, by omega, hmb⟩
      · intro j hj hp
        obtain rfl | rfl : j = 2 * i + 1 ∨ j = 2 * i + 1 + 1 := by omega
        · exact hl
        · by_cases hb : 2 * i + 1 + 1 < a.length
          · exact not_lessAt_atMost hless (Bool.eq_false_iff.mpr fun hlt => h ⟨hb, hlt⟩)
          · exact hout _ hb _

omit hless in
/-- One step of the loop of `siftDown`. -/
theorem DownReady.down {m : Nat} (h : DownReady key a i) (hm : 0 < m) (hp : (m - 1) / 2 = i)
    (hb : m < a.length) (hself : AtMost key a m i)
    (hmin : ∀ j, 0 < j → (j - 1) / 2 = i → AtMost key a m j) : DownReady key (swap a i m) m := by
  have hi := h.bound
  refine ⟨⟨by rwa [length_swap], ?_, ?_⟩, ?_⟩
  · intro j hj hjm hjpm
    rw [atMost_swap hi hb]
    by_cases hji : j = i
    · rw [hji, Equiv.swap_apply_left, Equiv.swap_apply_of_ne_of_ne (by omega) (by omega)]
      exact h.across (by omega) m hm hp
    · rw [Equiv.swap_apply_of_ne_of_ne hji hjm]
      by_cases hpi : (j - 1) / 2 = i
      · rw [hpi, Equiv.swap_apply_left]
        exact hmin j hj hpi
      · rw [Equiv.swap_apply_of_ne_of_ne hpi hjpm]
        exact h.away j hj hji hpi
  · intro _ j hj hjp
    rw [atMost_swap hi hb, hp, Equiv.swap_apply_left,
      Equiv.swap_apply_of_ne_of_ne (show j ≠ i by omega) (by omega)]
    have := h.away j hj (by omega) (by omega)
    rwa [hjp] at this
  · intro _
    rw [atMost_swap hi hb, hp, Equiv.swap_apply_left, Equiv.swap_apply_right]
    exact hself

theorem siftDown_ordered {fuel : Nat} (h : DownReady key a i) (hfuel : a.length ≤ fuel + i) :
    Ordered key (siftDown less fuel a i) := by
  induction fuel generalizing a i with
  | zero =>
      have := h.bound
      omega
  | succ fuel ih =>
      obtain ⟨hpos, hself, hmin⟩ := smallest_spec hless h.bound
      unfold siftDown
      dsimp only
      split
      · next heq =>
          rw [heq] at hmin
          exact h.toNearly.ordered h.above hmin
      · next hne =>
          obtain heq | ⟨hm, hp, hb⟩ := hpos
          · exact absurd heq hne
          · refine ih (h.down hm hp hb hself hmin) ?_
            rw [length_swap]
            omega

/-! ## The operations keep the order -/

omit hless in
theorem mem_of_dropLast {k : Nat} {y : α} (hy : y ∈ a.dropLast[k]?) : y ∈ a[k]? := by
  rw [List.getElem?_dropLast] at hy
  split at hy
  · exact hy
  · simp at hy

theorem push_ordered (h : Ordered key a) (x : α) : Ordered key (push less a x) := by
  have hold : ∀ k < a.length, ∀ y ∈ (a ++ [x])[k]?, y ∈ a[k]? := by
    intro k hk y hy
    rwa [List.getElem?_append_left hk] at hy
  have hout : ∀ j, a.length < j → ∀ i, AtMost key (a ++ [x]) i j := by
    intro j hj i _ _ y hy
    have := (List.getElem?_eq_some_iff.mp hy).1
    simp only [List.length_append, List.length_singleton] at this
    omega
  refine siftUp_ordered hless ⟨⟨by simp, ?_, ?_⟩, ?_⟩ (by omega)
  · intro j hj hne _
    by_cases hlt : j < a.length
    · exact (h j hj).of_mem (hold _ (by omega)) (hold _ hlt)
    · exact hout j (by omega) _
  · intro _ j _ hp
    exact hout j (by omega) _
  · intro j _ hp
    exact hout j (by omega) _

theorem pop_ordered {x : α} (h : Ordered key a) (hpop : pop less a = some (x, b)) :
    Ordered key b := by
  unfold pop at hpop
  split at hpop
  · simp at hpop
  · next top rest =>
      split at hpop
      · obtain ⟨-, rfl⟩ : top = x ∧ [] = b := by simpa using hpop
        intro j _ y hy
        simp at hy
      · next leaf hlast =>
          obtain ⟨-, rfl⟩ : top = x ∧ _ = b := by simpa using hpop
          have hlen : 0 < rest.length :=
            List.length_pos_of_ne_nil fun hnil => by simp [hnil] at hlast
          have hold : ∀ k, 0 < k → ∀ y ∈ (leaf :: rest.dropLast)[k]?, y ∈ (top :: rest)[k]? := by
            intro k hk y hy
            obtain ⟨k, rfl⟩ := Nat.exists_eq_add_of_le' hk
            simp only [List.getElem?_cons_succ] at hy ⊢
            exact mem_of_dropLast hy
          refine siftDown_ordered hless ⟨⟨by simp, ?_, ?_⟩, ?_⟩ ?_
          · intro j hj _ hp
            exact (h j hj).of_mem (hold _ (by omega)) (hold _ hj)
          · intro hpos
            exact absurd hpos (Nat.lt_irrefl 0)
          · intro hpos
            exact absurd hpos (Nat.lt_irrefl 0)
          · simp only [List.length_cons, List.length_dropLast]
            omega

theorem removeAt_ordered (h : Ordered key a) (hi : i < a.length) :
    Ordered key (removeAt less a i) := by
  unfold removeAt
  dsimp only
  split
  · intro j hj
    exact (h j hj).of_mem (fun _ => mem_of_dropLast) fun _ => mem_of_dropLast
  · next hmid =>
      split
      · next hnone =>
          rw [List.getLast?_eq_none_iff.mp hnone] at hi
          exact absurd hi (Nat.not_lt_zero i)
      · next leaf hlast =>
          have hib : i < a.dropLast.length := by
            simp only [List.length_dropLast] at hmid ⊢
            omega
          have hold : ∀ k, k ≠ i → ∀ y ∈ (a.dropLast.set i leaf)[k]?, y ∈ a[k]? := by
            intro k hk y hy
            rw [List.getElem?_set_ne (Ne.symm hk)] at hy
            exact mem_of_dropLast hy
          have hnear : Nearly key (a.dropLast.set i leaf) i := by
            refine ⟨by simpa using hib, ?_, ?_⟩
            · intro j hj hji hp
              exact (h j hj).of_mem (hold _ hp) (hold _ hji)
            · intro hpos j hj hp
              have hij := h j hj
              rw [hp] at hij
              exact ((h i hpos).trans hi hij).of_mem (hold _ (by omega)) (hold _ (by omega))
          refine siftDown_ordered hless (siftUp_downReady hless hnear (Nat.le_of_lt hi)) ?_
          rw [length_siftUp, List.length_set, List.length_dropLast]
          omega

end Sifts

end Order

/-! ## The loops without fuel -/

section Loops

/-- A loop leaves at `t`: its body is run on `s` as long as it asks for another round, and every
state it visits on the way is safe. -/
inductive Ends {σ : Type v} (next : σ → Option σ) (safe : σ → Prop) : σ → σ → Prop where
  | stop {s} : safe s → next s = none → Ends next safe s s
  | more {s t u} : safe s → next s = some t → Ends next safe t u → Ends next safe s u

/-- The position lies within the array. -/
def InBounds (p : List α × Nat) : Prop := p.2 < p.1.length

/-- A round of the loop that moves an element up. -/
def upNext (p : List α × Nat) : Option (List α × Nat) :=
  if p.2 = 0 then none
  else if lessAt less p.1 p.2 ((p.2 - 1) / 2) then
    some (swap p.1 p.2 ((p.2 - 1) / 2), (p.2 - 1) / 2)
  else none

/-- A round of the loop that moves an element down. -/
def downNext (p : List α × Nat) : Option (List α × Nat) :=
  if smallest less p.1 p.2 = p.2 then none
  else some (swap p.1 p.2 (smallest less p.1 p.2), smallest less p.1 p.2)

theorem siftUp_ends {fuel : Nat} {a : List α} {i : Nat} (hi : i < a.length) (hfuel : i ≤ fuel) :
    Ends (upNext less) InBounds (a, i) (siftUp less fuel a i) := by
  induction fuel generalizing a i with
  | zero => exact .stop hi (if_pos (by omega))
  | succ fuel ih =>
      unfold siftUp
      split
      · next hzero => exact .stop hi (if_pos hzero)
      · next hzero =>
          dsimp only
          split
          · next hl =>
              have hparent : (i - 1) / 2 < (swap a i ((i - 1) / 2)).length := by
                rw [length_swap]
                omega
              exact .more hi ((if_neg hzero).trans (if_pos hl)) (ih hparent (by omega))
          · next hl => exact .stop hi ((if_neg hzero).trans (if_neg hl))

theorem smallest_bound (a : List α) (i : Nat) :
    smallest less a i = i ∨ i < smallest less a i ∧ smallest less a i < a.length := by
  unfold smallest
  dsimp only
  split
  · next hl =>
      split
      · next hr => exact .inr ⟨by omega, hr.1⟩
      · exact .inr ⟨by omega, hl.1⟩
  · split
    · next hr => exact .inr ⟨by omega, hr.1⟩
    · exact .inl rfl

theorem siftDown_ends (fuel : Nat) {a : List α} {i : Nat} (hi : i < a.length)
    (hfuel : a.length ≤ fuel + i) :
    ∃ j, Ends (downNext less) InBounds (a, i) (siftDown less fuel a i, j) := by
  induction fuel generalizing a i with
  | zero => omega
  | succ fuel ih =>
      unfold siftDown
      dsimp only
      split
      · next heq => exact ⟨i, .stop hi (if_pos heq)⟩
      · next hne =>
          obtain heq | ⟨hlt, hb⟩ := smallest_bound less a i
          · exact absurd heq hne
          · have hlen : smallest less a i < (swap a i (smallest less a i)).length := by
              rwa [length_swap]
            obtain ⟨j, hj⟩ := ih hlen (by rw [length_swap]; omega)
            exact ⟨j, .more hi (if_neg hne) hj⟩

theorem push_ends (a : List α) (x : α) :
    ∃ i, Ends (upNext less) InBounds (a ++ [x], a.length) (push less a x, i) :=
  ⟨_, siftUp_ends less (by simp) (by omega)⟩

theorem pop_ends {a b : List α} {x : α} (h : pop less a = some (x, b)) :
    a = [x] ∧ b = [] ∨ ∃ rest leaf i, a = x :: (rest ++ [leaf]) ∧
      Ends (downNext less) InBounds (leaf :: rest, 0) (b, i) := by
  unfold pop at h
  split at h
  · simp at h
  · next top rest =>
      split at h
      · next hlast =>
          obtain ⟨rfl, rfl⟩ : top = x ∧ [] = b := by simpa using h
          exact .inl ⟨by rw [List.getLast?_eq_none_iff.mp hlast], rfl⟩
      · next leaf hlast =>
          obtain ⟨rfl, rfl⟩ : top = x ∧ _ = b := by simpa using h
          have hpos : 0 < rest.length :=
            List.length_pos_of_ne_nil fun hnil => by simp [hnil] at hlast
          obtain ⟨i, hi⟩ := siftDown_ends less rest.length (a := leaf :: rest.dropLast)
            (i := 0) (by simp) (by simp only [List.length_cons, List.length_dropLast]; omega)
          exact .inr ⟨rest.dropLast, leaf, i, by rw [List.dropLast_append_getLast? leaf hlast], hi⟩

theorem removeAt_ends {a : List α} {i : Nat} {x : α} (hx : a[i]? = some x) :
    (∃ rest, a = rest ++ [x] ∧ removeAt less a i = rest) ∨
      ∃ rest leaf b j k, a = rest ++ [leaf] ∧ rest[i]? = some x ∧
        Ends (upNext less) InBounds (rest.set i leaf, i) (b, j) ∧
        Ends (downNext less) InBounds (b, j) (removeAt less a i, k) := by
  obtain ⟨hi, hget⟩ := List.getElem?_eq_some_iff.mp hx
  have hne : a ≠ [] := List.ne_nil_of_length_pos (by omega)
  have hsplit : a.dropLast ++ [a.getLast hne] = a := List.dropLast_append_getLast hne
  have hlen : a.dropLast.length + 1 = a.length := by
    rw [List.length_dropLast]
    omega
  unfold removeAt
  dsimp only
  split
  · next hlast =>
      refine .inl ⟨a.dropLast, ?_, rfl⟩
      have hxlast : a.getLast hne = x := by
        rw [List.getLast_eq_getElem, ← hget]
        congr 1
        omega
      rw [← hxlast, hsplit]
  · next hmid =>
      rw [List.getLast?_eq_some_getLast hne]
      have hib : i < (a.dropLast.set i (a.getLast hne)).length := by
        rw [List.length_set]
        omega
      have hb : a.dropLast[i]? = some x := by
        rw [List.getElem?_eq_getElem (by omega), List.getElem_dropLast, hget]
      obtain ⟨k, hk⟩ := siftDown_ends less a.length
        (a := (siftUp less a.length (a.dropLast.set i (a.getLast hne)) i).1)
        (i := (siftUp less a.length (a.dropLast.set i (a.getLast hne)) i).2)
        (by rw [length_siftUp]; exact siftUp_bound _ hib)
        (by rw [length_siftUp, List.length_set]; omega)
      exact .inr ⟨a.dropLast, a.getLast hne, _, _, k, hsplit.symm, hb,
        siftUp_ends less hib (by omega), hk⟩

end Loops

end Foundation.Heap
