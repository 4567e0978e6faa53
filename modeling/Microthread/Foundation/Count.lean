import Mathlib.Data.List.Nodup
import Mathlib.Logic.Function.Basic

/-!
# Counting after a point update

A counter that agrees with the number of elements of a list in some class stays
exact when one element changes its class and the counter follows.
-/

namespace Foundation

universe u v

variable {α : Type u} {β : Type v} [DecidableEq α] {f : α → β} {x : α} {v : β} {l : List α}

/-- The classes of the other elements are those of before. -/
theorem countP_update_of_not_mem {p : β → Bool} (hx : x ∉ l) :
    (l.countP fun y => p (Function.update f x v y)) = l.countP fun y => p (f y) := by
  refine List.countP_congr fun y hy => ?_
  rw [Function.update_of_ne (ne_of_mem_of_not_mem hy hx)]

theorem countP_update_same {p : β → Bool} (hp : p v = p (f x)) :
    (l.countP fun y => p (Function.update f x v y)) = l.countP fun y => p (f y) := by
  refine List.countP_congr fun y _ => ?_
  by_cases hy : y = x
  · rw [hy, Function.update_self, hp]
  · rw [Function.update_of_ne hy]

/-- One element of a list without repetition changes its class. -/
theorem countP_update {p : β → Bool} (hl : l.Nodup) (hx : x ∈ l) :
    (l.countP fun y => p (Function.update f x v y)) + (if p (f x) then 1 else 0) =
      (l.countP fun y => p (f y)) + if p v then 1 else 0 := by
  induction l with
  | nil => cases hx
  | cons a l ih =>
      obtain ⟨ha, hl⟩ := List.nodup_cons.mp hl
      simp only [List.countP_cons]
      by_cases hax : a = x
      · subst hax
        rw [countP_update_of_not_mem ha, Function.update_self]
        omega
      · have hxl : x ∈ l := (List.mem_cons.mp hx).resolve_left fun h => hax h.symm
        have := ih hl hxl
        rw [Function.update_of_ne hax]
        omega

/-- One element enters the class. -/
theorem countP_update_enter {p : β → Bool} (hl : l.Nodup) (hx : x ∈ l) (hold : p (f x) = false)
    (hnew : p v = true) :
    (l.countP fun y => p (Function.update f x v y)) = (l.countP fun y => p (f y)) + 1 := by
  simpa [hold, hnew] using countP_update (f := f) (v := v) (p := p) hl hx

/-- One element leaves the class. -/
theorem countP_update_leave {p : β → Bool} (hl : l.Nodup) (hx : x ∈ l) (hold : p (f x) = true)
    (hnew : p v = false) :
    (l.countP fun y => p (Function.update f x v y)) + 1 = l.countP fun y => p (f y) := by
  simpa [hold, hnew] using countP_update (f := f) (v := v) (p := p) hl hx

end Foundation
