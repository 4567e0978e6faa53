import Mathlib.Data.List.Nodup
import Mathlib.Data.List.Perm.Basic

/-!
# Elements placed in the lists their labels name

A family of lists and a label on every element. A placement is in order when
each list holds, without repetition, exactly the live elements whose label names
it; an element without a label is in no list. Intrusive queues keep this
discipline: an element carries the name of the one queue that links it.

Every operation on such queues relabels one element (`Placed.move`) or unlinks
a set of elements at once (`Placed.filter`).
-/

namespace Foundation

universe u v

variable {κ : Type u} {α : Type v}

/-- Each list holds exactly the live elements labelled with its key, once. -/
structure Placed (lists : κ → List α) (live : α → Prop) (label : α → Option κ) : Prop where
  nodup : ∀ k, (lists k).Nodup
  mem : ∀ k x, x ∈ lists k ↔ live x ∧ label x = some k

namespace Placed

variable {lists lists' : κ → List α} {live live' : α → Prop} {label label' : α → Option κ}

theorem congr (h : Placed lists live label) (hlists : ∀ k, lists' k = lists k)
    (hlive : ∀ x, live' x ↔ live x) (hlabel : ∀ x, live x → label' x = label x) :
    Placed lists' live' label' where
  nodup k := by
    rw [hlists]
    exact h.nodup k
  mem k x := by
    rw [hlists, h.mem, hlive]
    exact and_congr_right fun hx => by rw [hlabel x hx]

theorem count_eq_one [BEq α] [LawfulBEq α] (h : Placed lists live label) {k : κ} {x : α}
    (hx : live x) (hlabel : label x = some k) : (lists k).count x = 1 :=
  List.count_eq_one_of_mem (h.nodup k) ((h.mem k x).mpr ⟨hx, hlabel⟩)

/-- Give one live element another label: it leaves the list its old label
named and enters the one the new label names. -/
theorem move [DecidableEq α] (h : Placed lists live label) {x : α} (hx : live x)
    (hlive : ∀ y, live' y ↔ live y)
    (hother : ∀ y, y ≠ x → label' y = label y) (hne : label' x ≠ label x)
    (hin : ∀ k, label' x = some k → (lists' k).Perm (x :: lists k))
    (hout : ∀ k, label x = some k → (lists k).Perm (x :: lists' k))
    (hsame : ∀ k, label x ≠ some k → label' x ≠ some k → lists' k = lists k) :
    Placed lists' live' label' := by
  have hnotin : ∀ k, label x ≠ some k → x ∉ lists k := fun k hk hmem => hk ((h.mem k x).mp hmem).2
  constructor
  · intro k
    by_cases hold : label x = some k
    · exact (List.nodup_cons.mp ((hout k hold).nodup_iff.mp (h.nodup k))).2
    by_cases hnew : label' x = some k
    · exact (hin k hnew).nodup_iff.mpr (List.nodup_cons.mpr ⟨hnotin k hold, h.nodup k⟩)
    · rw [hsame k hold hnew]
      exact h.nodup k
  · intro k y
    rw [hlive]
    by_cases hold : label x = some k
    · have hperm := hout k hold
      have hxk : x ∉ lists' k := (List.nodup_cons.mp (hperm.nodup_iff.mp (h.nodup k))).1
      by_cases hy : y = x
      · subst hy
        have hnew : label' y ≠ some k := fun hnew => hne (hnew.trans hold.symm)
        simp [hxk, hnew]
      · have := hperm.mem_iff (a := y)
        rw [h.mem, List.mem_cons] at this
        rw [hother y hy, this]
        simp [hy]
    · by_cases hnew : label' x = some k
      · rw [(hin k hnew).mem_iff, List.mem_cons, h.mem]
        by_cases hy : y = x
        · subst hy
          simp [hx, hnew]
        · simp [hy, hother y hy]
      · rw [hsame k hold hnew, h.mem]
        by_cases hy : y = x
        · subst hy
          simp [hold, hnew]
        · rw [hother y hy]

/-- An element without a label may become live or stop being so. -/
theorem setLive (h : Placed lists live label) {x : α} (hlists : ∀ k, lists' k = lists k)
    (hlive : ∀ y, y ≠ x → (live' y ↔ live y)) (hlabel : ∀ y, y ≠ x → live y → label' y = label y)
    (hold : ∀ k, x ∉ lists k) (hnew : live' x → label' x = none) : Placed lists' live' label' where
  nodup k := by
    rw [hlists]
    exact h.nodup k
  mem k y := by
    rw [hlists]
    by_cases hy : y = x
    · subst hy
      refine iff_of_false (hold k) ?_
      rintro ⟨hl, hk⟩
      rw [hnew hl] at hk
      cases hk
    · rw [h.mem, hlive y hy]
      exact and_congr_right fun hl => by rw [hlabel y hy hl]

/-- Unlink every element outside `p`, wherever it stands. -/
theorem filter (h : Placed lists live label) (p : α → Prop) [DecidablePred p]
    (hlists : ∀ k, lists' k = (lists k).filter (p ·)) (hlive : ∀ x, live' x ↔ live x ∧ p x)
    (hlabel : ∀ x, live x → p x → label' x = label x) : Placed lists' live' label' where
  nodup k := by
    rw [hlists]
    exact (h.nodup k).filter _
  mem k x := by
    rw [hlists, List.mem_filter, h.mem, hlive, decide_eq_true_iff]
    constructor
    · rintro ⟨⟨hx, hk⟩, hp⟩
      exact ⟨⟨hx, hp⟩, (hlabel x hx hp).trans hk⟩
    · rintro ⟨⟨hx, hp⟩, hk⟩
      exact ⟨⟨hx, (hlabel x hx hp).symm.trans hk⟩, hp⟩

end Placed

end Foundation
