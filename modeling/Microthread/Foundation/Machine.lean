import Mathlib.Logic.Basic

/-!
# Machines with guarded actions

A machine is a set of initial states and a partial step function. A run may be
restricted by a side condition on the actions it takes, so that one machine
serves many environments: reachability is always relative to such a condition,
and a weaker condition reaches more states.

The only induction on runs is `Reach.invariant`. It hands the reachability of
the source state to the preservation proof, so one invariant may use another.
-/

namespace Foundation

universe u v

/-- Initial states and a partial step function; `none` means not enabled. -/
structure Machine (σ : Type u) (α : Type v) where
  init : σ → Prop
  step : σ → α → Option σ

namespace Machine

variable {σ : Type u} {α : Type v}

/-- States reached by runs all of whose actions meet `ok` where they are taken. -/
inductive Reach (M : Machine σ α) (ok : σ → α → Prop) : σ → Prop where
  | init {s} : M.init s → Reach M ok s
  | step {s a t} : Reach M ok s → ok s a → M.step s a = some t → Reach M ok t

/-- States reached from a given one. -/
inductive Path (M : Machine σ α) (ok : σ → α → Prop) (s : σ) : σ → Prop where
  | refl : Path M ok s s
  | step {t a u} : Path M ok s t → ok t a → M.step t a = some u → Path M ok s u

/-- A run from `s` and its steps: the state before each, and the action. -/
inductive Run (M : Machine σ α) (ok : σ → α → Prop) (s : σ) : List (σ × α) → σ → Prop where
  | nil : Run M ok s [] s
  | snoc {l t a u} : Run M ok s l t → ok t a → M.step t a = some u → Run M ok s (l ++ [(t, a)]) u

/-- Execute a list of actions, stopping at the first one that is not enabled or fails
a test. -/
def replay (M : Machine σ α) (test : σ → α → Bool) (s : σ) : List α → Option σ
  | [] => some s
  | a :: as => if test s a then (M.step s a).bind fun t => M.replay test t as else none

namespace Reach

variable {M : Machine σ α} {ok ok' : σ → α → Prop} {s t : σ}

theorem mono (h : Reach M ok s) (weaken : ∀ s a, ok s a → ok' s a) : Reach M ok' s := by
  induction h with
  | init hi => exact .init hi
  | step _ hok hs ih => exact .step ih (weaken _ _ hok) hs

/-- A further condition that the actions of such a run meet wherever they are taken. -/
theorem strengthen (h : Reach M ok s)
    (hok : ∀ s a t, Reach M ok s → ok s a → M.step s a = some t → ok' s a) : Reach M ok' s := by
  induction h with
  | init hi => exact .init hi
  | step hr ha hs ih => exact .step ih (hok _ _ _ hr ha hs) hs

/-- A predicate that holds initially and is preserved by every step taken from
a reachable state holds in every reachable state. -/
theorem invariant {I : σ → Prop} (h : Reach M ok s) (hinit : ∀ s, M.init s → I s)
    (hstep : ∀ s a t, Reach M ok s → I s → ok s a → M.step s a = some t → I t) : I s := by
  induction h with
  | init hi => exact hinit _ hi
  | step hr hok hs ih => exact hstep _ _ _ hr ih hok hs

theorem path (h : Reach M ok s) (hp : Path M ok s t) : Reach M ok t := by
  induction hp with
  | refl => exact h
  | step _ hok hs ih => exact .step ih hok hs

/-- What a step keeps of the state before it, a run keeps of the state it starts from. -/
theorem path_invariant {R : σ → σ → Prop} (h : Reach M ok s) (hp : Path M ok s t)
    (hrefl : R s s) (hstep : ∀ t a u, Reach M ok t → R s t → ok t a → M.step t a = some u → R s u) :
    R s t := by
  induction hp with
  | refl => exact hrefl
  | step hp hok hs ih => exact hstep _ _ _ (h.path hp) ih hok hs

end Reach

theorem Run.path {M : Machine σ α} {ok : σ → α → Prop} {s t : σ} {l : List (σ × α)}
    (h : Run M ok s l t) : Path M ok s t := by
  induction h with
  | nil => exact .refl
  | snoc _ hok hs ih => exact .step ih hok hs

theorem Path.run {M : Machine σ α} {ok : σ → α → Prop} {s t : σ} (h : Path M ok s t) :
    ∃ l, Run M ok s l t := by
  induction h with
  | refl => exact ⟨[], .nil⟩
  | step _ hok hs ih =>
      obtain ⟨l, hl⟩ := ih
      exact ⟨_, .snoc hl hok hs⟩

theorem Path.mono {M : Machine σ α} {ok ok' : σ → α → Prop} {s t : σ} (h : Path M ok s t)
    (weaken : ∀ s a, ok s a → ok' s a) : Path M ok' s t := by
  induction h with
  | refl => exact .refl
  | step _ hok hs ih => exact .step ih (weaken _ _ hok) hs

/-- A replay whose test implies the condition of the run. -/
theorem Path.replay {M : Machine σ α} {ok : σ → α → Prop} {s t u : σ} {test : σ → α → Bool}
    {as : List α} (h : Path M ok s t) (hok : ∀ s a, test s a = true → ok s a)
    (hrun : M.replay test t as = some u) : Path M ok s u := by
  induction as generalizing t with
  | nil =>
      cases hrun
      exact h
  | cons a as ih =>
      rw [Machine.replay] at hrun
      split at hrun
      · next ha =>
          obtain ⟨v, hs, hrest⟩ := Option.bind_eq_some_iff.mp hrun
          exact ih (.step h (hok t a ha) hs) hrest
      · cases hrun

theorem Reach.replay {M : Machine σ α} {ok : σ → α → Prop} {s t : σ} {test : σ → α → Bool}
    {as : List α} (h : Reach M ok s) (hok : ∀ s a, test s a = true → ok s a)
    (hrun : M.replay test s as = some t) : Reach M ok t :=
  h.path (Path.refl.replay hok hrun)

end Machine

end Foundation
