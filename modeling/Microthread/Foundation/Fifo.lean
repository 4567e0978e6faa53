import Mathlib.Data.List.Nodup

/-!
# First come, first served

A queue that elements enter at one end and are served from at the other, and from which
an element may be withdrawn. What has been served, followed by what is still queued, is
what has entered, in its order and without what has been withdrawn.
-/

namespace Foundation.Fifo

universe u

/-- What happens at a queue. -/
inductive Event (α : Type u) where
  | enter (a : α) | withdraw (a : α) | serve (a : α)
  deriving DecidableEq, Repr

variable {α : Type u} [DecidableEq α]

/-- The events take the queue `q` to the queue they end with. -/
inductive Runs (q : List α) : List (Event α) → List α → Prop where
  | nil : Runs q [] q
  | enter (a : α) {es r} : Runs q es r → a ∉ r → Runs q (es ++ [.enter a]) (r ++ [a])
  | withdraw (a : α) {es r} : Runs q es r → a ∈ r → Runs q (es ++ [.withdraw a]) (r.erase a)
  | serve (a : α) {es r} : Runs q es (a :: r) → Runs q (es ++ [.serve a]) r

/-- The elements served, in order. -/
def served (es : List (Event α)) : List α :=
  es.filterMap fun
    | .serve a => some a
    | _ => none

/-- One more event on a list of entries: a withdrawal strikes out the latest entry of its
element. -/
def note (entries : List α) : Event α → List α
  | .enter a => entries ++ [a]
  | .withdraw a => (entries.reverse.erase a).reverse
  | .serve _ => entries

/-- The entries in order, those of `q` first, without the ones withdrawn. -/
def entries (q : List α) (es : List (Event α)) : List α := es.foldl note q

variable {q r q₁ r₁ : List α} {es fs : List (Event α)} {a t u : α}

omit [DecidableEq α] in
@[simp] theorem served_append (es fs : List (Event α)) :
    served (es ++ fs) = served es ++ served fs := List.filterMap_append

theorem entries_snoc (q : List α) (es : List (Event α)) (e : Event α) :
    entries q (es ++ [e]) = note (entries q es) e := by
  simp [entries]

theorem Runs.nodup (h : Runs q es r) (hq : q.Nodup) : r.Nodup := by
  induction h with
  | nil => exact hq
  | enter a _ hnew ih =>
      rw [List.nodup_append]
      exact ⟨ih, List.nodup_singleton a, fun x hx y hy heq => hnew (by simp_all)⟩
  | withdraw a _ _ ih => exact ih.erase a
  | serve a _ ih => exact (List.nodup_cons.mp ih).2

theorem Runs.trans (h : Runs q es r) (h' : Runs r fs r₁) : Runs q (es ++ fs) r₁ := by
  induction h' with
  | nil => simpa using h
  | enter a _ hnew ih => rw [← List.append_assoc]; exact ih.enter a hnew
  | withdraw a _ hmem ih => rw [← List.append_assoc]; exact ih.withdraw a hmem
  | serve a _ ih => rw [← List.append_assoc]; exact ih.serve a

/-- Striking out the latest entry of a queued element takes it from the queue. -/
theorem strike_append (l : List α) (hr : r.Nodup) (ha : a ∈ r) :
    ((l ++ r).reverse.erase a).reverse = l ++ r.erase a := by
  have hrev : (r.reverse.erase a).reverse = r.erase a := by
    rw [(List.nodup_reverse.mpr hr).erase_eq_filter, hr.erase_eq_filter, ← List.filter_reverse,
      List.reverse_reverse]
  rw [List.reverse_append, List.erase_append_left _ (List.mem_reverse.mpr ha),
    List.reverse_append, List.reverse_reverse, hrev]

/-- Elements are served in the order in which they have entered. -/
theorem Runs.in_order (h : Runs q es r) (hq : q.Nodup) : entries q es = served es ++ r := by
  induction h with
  | nil => simp [entries, served]
  | enter a _ hnew ih => rw [entries_snoc, ih]; simp [note, served]
  | withdraw a hrun hmem ih =>
      rw [entries_snoc, ih, note, strike_append _ (hrun.nodup hq) hmem]
      simp [served]
  | serve a _ ih => rw [entries_snoc, ih]; simp [note, served]

/-- An element that was queued is served, withdrawn or still queued. -/
theorem Runs.accounted (h : Runs q es r) (hu : u ∈ q) :
    .serve u ∈ es ∨ .withdraw u ∈ es ∨ u ∈ r := by
  induction h with
  | nil => exact .inr (.inr hu)
  | enter a _ _ ih => simp only [List.mem_append]; grind
  | withdraw a _ _ ih =>
      by_cases hua : u = a
      · exact .inr (.inl (by simp [hua]))
      · simp only [List.mem_append, List.mem_erase_of_ne hua]
        grind
  | serve a _ ih => simp only [List.mem_append, List.mem_cons] at ih ⊢; grind

/-- While `t` waits, only what stands before it is served. -/
theorem Runs.ahead (h : Runs (q ++ t :: r) es r₁) (ht : t ∉ q) (hserve : .serve t ∉ es)
    (hwithdraw : .withdraw t ∉ es) :
    ∃ q₂ r₂, r₁ = q₂ ++ t :: r₂ ∧ (served es ++ q₂).Sublist q ∧
      ∀ u ∈ q, u ∈ served es ∨ u ∈ q₂ ∨ .withdraw u ∈ es := by
  induction h with
  | nil => exact ⟨q, r, rfl, by simp [served], fun u hu => .inr (.inl hu)⟩
  | enter a _ _ ih =>
      obtain ⟨q₂, r₂, rfl, hsub, hall⟩ := ih (by simp_all) (by simp_all)
      refine ⟨q₂, r₂ ++ [a], by simp, by simpa [served] using hsub, fun u hu => ?_⟩
      rcases hall u hu with h | h | h
      · exact .inl (by simp [h])
      · exact .inr (.inl h)
      · exact .inr (.inr (by simp [h]))
  | withdraw a _ hmem ih =>
      obtain ⟨q₂, r₂, rfl, hsub, hall⟩ := ih (by simp_all) (by simp_all)
      have hat : a ≠ t := by
        rintro rfl
        simp at hwithdraw
      by_cases ha : a ∈ q₂
      · refine ⟨q₂.erase a, r₂, List.erase_append_left _ ha, ?_, fun u hu => ?_⟩
        · refine List.Sublist.trans ?_ hsub
          simpa [served] using List.erase_sublist
        · rcases hall u hu with h | h | h
          · exact .inl (by simp [h])
          · by_cases hua : u = a
            · exact .inr (.inr (by simp [hua]))
            · exact .inr (.inl ((List.mem_erase_of_ne hua).mpr h))
          · exact .inr (.inr (by simp [h]))
      · refine ⟨q₂, r₂.erase a, ?_, by simpa [served] using hsub, fun u hu => ?_⟩
        · rw [List.erase_append_right _ ha, List.erase_cons_tail (by simpa using hat.symm)]
        · rcases hall u hu with h | h | h
          · exact .inl (by simp [h])
          · exact .inr (.inl h)
          · exact .inr (.inr (by simp [h]))
  | serve a _ ih =>
      obtain ⟨q₂, r₂, heq, hsub, hall⟩ := ih (by simp_all) (by simp_all)
      cases q₂ with
      | nil =>
          obtain ⟨rfl, -⟩ := List.cons.inj heq
          simp at hserve
      | cons b q₂ =>
          obtain ⟨rfl, rfl⟩ := List.cons.inj heq
          refine ⟨q₂, r₂, rfl, by simpa [served] using hsub, fun u hu => ?_⟩
          rcases hall u hu with h | h | h
          · exact .inl (by simp [h])
          · rcases List.mem_cons.mp h with rfl | h
            · exact .inl (by simp [served])
            · exact .inr (.inl h)
          · exact .inr (.inr (by simp [h]))

/-- Until `t` is served, everything that stood before it is served once or withdrawn. -/
theorem Runs.once (h : Runs (q ++ t :: r) es (t :: r₁)) (hq : (q ++ t :: r).Nodup)
    (hserve : .serve t ∉ es) (hwithdraw : .withdraw t ∉ es) (hu : u ∈ q) :
    (served es).count u = 1 ∨ .withdraw u ∈ es := by
  have ht : t ∉ q := fun hmem => (List.nodup_append.mp hq).2.2 t hmem t (by simp) rfl
  obtain ⟨q₂, r₂, heq, hsub, hall⟩ := h.ahead ht hserve hwithdraw
  have hnil : q₂ = [] := by
    cases q₂ with
    | nil => rfl
    | cons b q₂ =>
        obtain ⟨rfl, -⟩ := List.cons.inj heq
        exact absurd (hsub.subset (by simp)) ht
  subst hnil
  rw [List.append_nil] at hsub
  rcases hall u hu with h | h | h
  · exact .inl (List.count_eq_one_of_mem ((List.nodup_append.mp hq).1.sublist hsub) h)
  · simp at h
  · exact .inr h

end Foundation.Fifo
