import Microthread.System.Reachable

/-!
# Concrete runs

Traces are replayed by evaluation. The test of the contract on the way is a
boolean; it lets a trace shut down only a runtime that is running.
-/

namespace Microthread

open Foundation

namespace Sys

variable (s : Sys)

/-- A decidable part of the contract. -/
def promised : Act → Bool
  | .cont a _ =>
    match s.pc a.agent with
    | .called _ .shutdown => s.rt.running
    | .called _ call => decide (call.Valid s.rt)
    | .selectTry _ cases _ i => (cases[i]?).all fun k => decide (s.CaseLive k)
    | .selectReg _ cases _ => cases.all fun k => decide (s.CaseLive k)
    | _ => true
  | _ => true

theorem contract_of_promised {s : Sys} {a : Act} (h : s.promised a = true) : s.Contract a := by
  cases a with
  | cont a env =>
      simp only [promised] at h
      simp only [Contract, SectionOk]
      generalize s.pc a.agent = p at h
      cases p with
      | called c call =>
          cases call with
          | shutdown =>
              intro hr
              simp [hr] at h
          | _ => exact of_decide_eq_true h
      | selectTry c cases plan i =>
          intro k hk
          simpa [Option.mem_def.mp hk] using h
      | selectReg c cases plan => simpa using h
      | _ => trivial
  | _ => trivial

end Sys

/-- A call together with its first `n` sections. -/
def invoke (a : Actor) (call : Api) (n : Nat := 1) : List Act :=
  .api a call :: List.replicate n (.cont a {})

/-- `n` sections of a worker's loop. -/
def works (w : Nat) (n : Nat := 1) : List Act := List.replicate n (.worker w {})

/-- The initial state of a build with the given backend. -/
def start (kind : IoBackendKind := .poll) : Sys := { rt := { ioBackendBuild := kind } }

/-- A state that a trace reaches. -/
theorem reach_of_trace {ok : Sys → Act → Prop} (test : Sys → Act → Bool) (kind : IoBackendKind)
    (as : List Act) (p : Sys → Bool) (hok : ∀ s a, test s a = true → ok s a)
    (h : (machine.replay test (start kind) as).any p = true) :
    ∃ s, machine.Reach ok s ∧ p s = true := by
  cases hs : machine.replay test (start kind) as with
  | none => simp [hs] at h
  | some s =>
      refine ⟨s, Machine.Reach.replay (.init ⟨kind, rfl⟩) hok hs, ?_⟩
      simpa [hs] using h

/-- A state that a trace within the contract reaches. -/
theorem reach_of_promised (kind : IoBackendKind) (as : List Act) (p : Sys → Bool)
    (h : (machine.replay Sys.promised (start kind) as).any p = true) :
    ∃ s, machine.Reach Sys.Contract s ∧ p s = true :=
  reach_of_trace Sys.promised kind as p (fun _ _ => Sys.contract_of_promised) h

/-- A state that a trace within the contract reaches, all of whose steps meet a further
condition. -/
theorem reach_of_trace_under (cond : Sys → Act → Prop) [∀ s a, Decidable (cond s a)]
    (kind : IoBackendKind) (as : List Act) (p : Sys → Bool)
    (h : (machine.replay (fun s a => s.promised a && decide (cond s a)) (start kind) as).any p =
      true) : ∃ s, machine.Reach (Sys.Under cond) s ∧ p s = true := by
  refine reach_of_trace _ kind as p (fun s a hok => ?_) h
  rw [Bool.and_eq_true, decide_eq_true_eq] at hok
  exact ⟨Sys.contract_of_promised hok.1, hok.2⟩

end Microthread
