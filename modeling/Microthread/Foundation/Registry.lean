import Microthread.Foundation.LinkedQueue

/-!
# Registries

Objects that are linked through one field, new ones at the front. Taking one out walks
along with a pointer to the link that it may have to rewrite; freeing them all reads the
link of an object before the object goes. Both loops get fuel, and both stop with a fault
where they would read the link of an object that is no longer there.
-/

namespace Foundation

universe u

/-- The first object and the link of every object. -/
structure Registry (α : Type u) where
  head : Option α := none
  next : α → Option α := fun _ => none

namespace Registry

variable {α : Type u} [DecidableEq α]

/-- Enter an object at the front. -/
def register (m : Registry α) (x : α) : Registry α :=
  { head := some x, next := Function.update m.next x m.head }

def read (m : Registry α) : Cell α → Option α
  | .head => m.head
  | .next y => m.next y

def write (m : Registry α) (v : Option α) : Cell α → Registry α
  | .head => { m with head := v }
  | .next y => { m with next := Function.update m.next y v }

/-- The walk of `unregister`. Every object it meets is dereferenced. -/
def unregisterLoop (alive : α → Bool) (x : α) (m : Registry α) : Nat → Cell α → Option (Registry α)
  | 0, _ => none
  | fuel + 1, link =>
    match m.read link with
    | none => some m
    | some y =>
      if alive y then
        if y = x then
          let m := m.write (m.next x) link
          some { m with next := Function.update m.next x none }
        else unregisterLoop alive x m fuel (.next y)
      else none

/-- Take an object out, if it is there. -/
def unregister (alive : α → Bool) (fuel : Nat) (m : Registry α) (x : α) : Option (Registry α) :=
  unregisterLoop alive x m fuel .head

/-- Free those of the objects from `p` on that are to go. -/
def freeLoop (next : α → Option α) (goes : α → Bool) :
    Nat → Option α → (α → Nat) → Option (α → Nat)
  | 0, _, _ => none
  | _ + 1, none, frees => some frees
  | fuel + 1, some y, frees =>
    if frees y = 0 then
      freeLoop next goes fuel (next y) (if goes y then Function.update frees y (frees y + 1) else frees)
    else none

/-- Following the links from the head visits the objects of the list. -/
def Lists (m : Registry α) (xs : List α) : Prop := Links.Segment m.next m.head xs none

end Registry

namespace Links

variable {α : Type u} {next : α → Option α} {p : Option α} {xs ys : List α}

/-- Where a chain that ends is entered decides what it visits. -/
theorem Segment.unique (h : Segment next p xs none) (h' : Segment next p ys none) : xs = ys := by
  induction xs generalizing p ys with
  | nil =>
      cases ys with
      | nil => rfl
      | cons y ys =>
          have hnone : p = none := h
          exact absurd (hnone.symm.trans h'.1) (by simp)
  | cons x xs ih =>
      cases ys with
      | nil =>
          have hnone : p = none := h'
          exact absurd (hnone.symm.trans h.1) (by simp)
      | cons y ys =>
          obtain rfl : x = y := Option.some.inj (h.1.symm.trans h'.1)
          rw [ih h.2 h'.2]

/-- A chain that ends visits nothing twice. -/
theorem Segment.nodup (h : Segment next p xs none) : xs.Nodup := by
  induction xs generalizing p with
  | nil => exact List.nodup_nil
  | cons x xs ih =>
      refine List.nodup_cons.mpr ⟨fun hmem => ?_, ih h.2⟩
      -- from a second occurrence the chain would go on as from the first
      obtain ⟨pre, suf, rfl⟩ := List.append_of_mem hmem
      obtain ⟨v, -, hx, hsuf⟩ := segment_append.mp h.2
      have hlong := h.2.unique hsuf
      have hlen := congrArg List.length hlong
      simp only [List.length_append, List.length_cons] at hlen
      omega

end Links

namespace Registry

open Links

variable {α : Type u} [DecidableEq α] {m : Registry α} {xs : List α} {x : α} {alive : α → Bool}

theorem Lists.register (h : m.Lists xs) (hx : x ∉ xs) : (m.register x).Lists (x :: xs) := by
  refine ⟨rfl, ?_⟩
  rw [show (m.register x).next x = m.head from Function.update_self ..]
  refine Segment.congr h fun y hy => Function.update_of_ne (fun heq => hx ?_) _ _
  exact heq ▸ hy

omit [DecidableEq α] in
theorem Lists.read {pre suf : List α} (h : m.Lists (pre ++ suf)) :
    m.read (cellAfter pre) = suf.head? := by
  obtain ⟨v, hpre, hsuf⟩ := segment_append.mp h
  rw [← hsuf.head_eq]
  rcases List.eq_nil_or_concat' pre with rfl | ⟨ys, y, rfl⟩
  · exact hpre
  · obtain ⟨w, -, -, hv⟩ := segment_append.mp hpre
    have hlink : m.next y = v := hv
    simpa [cellAfter, Registry.read] using hlink

/-- What the code does at the link that points to the object. -/
theorem Lists.unlink {pre rest : List α} (h : m.Lists (pre ++ x :: rest)) :
    Lists { m.write (m.next x) (cellAfter pre) with
      next := Function.update (m.write (m.next x) (cellAfter pre)).next x none } (pre ++ rest) := by
  have hnodup := Segment.nodup h
  obtain ⟨v, hpre, hx, hrest⟩ := segment_append.mp h
  rw [List.nodup_append, List.nodup_cons] at hnodup
  obtain ⟨hpren, ⟨hxrest, -⟩, hapart⟩ := hnodup
  have hxpre : x ∉ pre := fun hmem => hapart x hmem x List.mem_cons_self rfl
  have hkeep : ∀ (f : α → Option α) (zs : List α), x ∉ zs → ∀ z ∈ zs,
      Function.update f x none z = f z := fun f zs hzs z hz =>
    Function.update_of_ne (fun heq : z = x => hzs (heq ▸ hz)) _ _
  rcases List.eq_nil_or_concat' pre with rfl | ⟨ys, y, rfl⟩
  · exact hrest.congr (hkeep m.next rest hxrest)
  · have hy : y ∉ ys := by
      rw [List.nodup_append] at hpren
      exact fun hmem => hpren.2.2 y hmem y (List.mem_singleton_self y) rfl
    have hyrest : y ∉ rest := fun hmem =>
      hapart y (by simp) y (List.mem_cons_of_mem x hmem) rfl
    have hcell : cellAfter (ys ++ [y]) = Cell.next y := by simp [cellAfter]
    rw [hcell]
    refine segment_append.mpr ⟨m.next x, ?_, ?_⟩
    · exact (hpre.relink hy (m.next x)).congr (hkeep _ _ hxpre)
    · refine hrest.congr fun z hz => (hkeep _ _ hxrest z hz).trans ?_
      exact Function.update_of_ne (fun heq : z = y => hyrest (heq ▸ hz)) _ _

theorem Lists.unregisterLoop (halive : ∀ y ∈ xs, alive y = true) (suf : List α) :
    ∀ (fuel : Nat) (pre : List α), m.Lists (pre ++ suf) → xs = pre ++ suf → x ∉ pre →
      suf.length < fuel → ∃ m', unregisterLoop alive x m fuel (cellAfter pre) = some m' ∧
        m'.Lists (pre ++ suf.erase x) := by
  induction suf with
  | nil =>
      intro fuel pre h _ _ hfuel
      obtain ⟨fuel, rfl⟩ := Nat.exists_eq_add_of_lt hfuel
      have hread : m.read (cellAfter pre) = none := by simpa using h.read
      exact ⟨m, by simp [Registry.unregisterLoop, hread], by simpa using h⟩
  | cons y suf ih =>
      intro fuel pre h hxs hpre hfuel
      obtain ⟨fuel, rfl⟩ : ∃ n, fuel = n + 1 := ⟨fuel - 1, by simp at hfuel; omega⟩
      have hread : m.read (cellAfter pre) = some y := by simpa using h.read
      have hy : alive y = true := halive y (by simp [hxs])
      simp only [Registry.unregisterLoop, hread, hy, if_true]
      by_cases hyx : y = x
      · subst hyx
        rw [if_pos rfl, List.erase_cons_head]
        exact ⟨_, rfl, h.unlink⟩
      · rw [if_neg hyx, List.erase_cons_tail (by simpa using hyx)]
        have hstep := ih fuel (pre ++ [y]) (by simpa using h) (by simpa using hxs)
          (by simpa using ⟨hpre, fun heq => hyx heq.symm⟩) (by simp at hfuel; omega)
        simpa [cellAfter] using hstep

/-- Taking an object out of a registry of living objects is not a fault, whether the object
is there or not. -/
theorem Lists.unregister (h : m.Lists xs) (halive : ∀ y ∈ xs, alive y = true) (x : α) {fuel : Nat}
    (hfuel : xs.length < fuel) :
    ∃ m', m.unregister alive fuel x = some m' ∧ m'.Lists (xs.erase x) :=
  Lists.unregisterLoop halive xs fuel [] h rfl (by simp) hfuel

/-- The loop frees what is to go, each object once, and reads no link of a freed one. -/
theorem freeLoop_eq {next : α → Option α} {p : Option α} (h : Segment next p xs none)
    (goes : α → Bool) {fuel : Nat} (hfuel : xs.length < fuel) {frees : α → Nat}
    (hlive : ∀ y ∈ xs, frees y = 0) : freeLoop next goes fuel p frees =
      some fun y => frees y + if y ∈ xs ∧ goes y = true then 1 else 0 := by
  induction xs generalizing p fuel frees with
  | nil =>
      obtain ⟨fuel, rfl⟩ : ∃ n, fuel = n + 1 := ⟨fuel - 1, by simp at hfuel; omega⟩
      obtain rfl : p = none := h
      simp [freeLoop]
  | cons x xs ih =>
      obtain ⟨fuel, rfl⟩ : ∃ n, fuel = n + 1 := ⟨fuel - 1, by simp at hfuel; omega⟩
      have hx := (List.nodup_cons.mp (Segment.nodup h)).1
      obtain ⟨rfl, hrest⟩ := h
      have hzero := hlive x List.mem_cons_self
      simp only [freeLoop, hzero, if_true]
      rw [ih hrest (by simp at hfuel; omega) fun y hy => ?_]
      · refine congrArg some (funext fun y => ?_)
        by_cases hyx : y = x
        · subst hyx
          cases hgo : goes y <;> simp [hx, hzero]
        · cases hgo : goes x <;> simp [hyx]
      · have hne : y ≠ x := fun heq => hx (heq ▸ hy)
        have hold := hlive y (List.mem_cons_of_mem x hy)
        cases goes x <;> simp [hne, hold]

end Registry

end Foundation
