import Microthread.Model.Paths

/-!
# The discipline of the lock

Every function keeps it on each of its paths, whether a task calls it or a thread, and so does every
interleaving of threads and tasks.
-/

namespace Microthread

open Foundation Foundation.Locking

/-- What is called with the mutex held: `mt_shutdown` closes the descriptors of the back end. -/
def Blocking.locked : Blocking → Bool
  | .closeBackend => true
  | _ => false

namespace Paths

theorem runtime_sound : runtime.Sound Blocking.locked := by
  refine ⟨?_, ?_, ?_⟩
  · decide +kernel
  · decide +kernel
  · decide +kernel

end Paths

/-- In every interleaving of threads that run tasks and call functions of the runtime, and that
switch to no task that is running, since the run queue holds ready tasks only: a thread locks the
mutex only when it does not own it, unlocks it only when it does, and does not own it in code of
the user; a task switches to its scheduler with the mutex owned by the thread that runs it, a
scheduler to a task without; and no thread owns the mutex where it may block, but for
`mt_shutdown` on the descriptors of the back end. -/
theorem lock_discipline {s : State Blocking} (h : Paths.runtime.machine.Reach Paths.runtime.Obeys s)
    (n : Nat) (k : List (Frame Blocking)) :
    (s.stack (s.strand n) = .code Paths.lock :: k → s.owner ≠ some n) ∧
    (s.stack (s.strand n) = .code Paths.unlock :: k → s.owner = some n) ∧
    (s.stack (s.strand n) = .user :: k → s.owner ≠ some n) ∧
    (s.stack (s.strand n) = .code Paths.park :: k → s.owner = some n ∧ (s.task n).isSome = true) ∧
    (s.stack (s.strand n) = .code (.op .dispatch) :: k → s.owner ≠ some n ∧ s.task n = none) ∧
    ∀ call, s.stack (s.strand n) = .code (Paths.block call) :: k → s.owner = some n →
      call = .closeBackend := by
  have hd := Program.disciplined_of_reach Paths.runtime_sound h
  refine ⟨fun hk => ?_, fun hk => ?_, fun hk => hd.user n k hk, fun hk => ?_, fun hk => ?_,
    fun call hk hown => ?_⟩
  · simpa [Op.allowed] using hd.op n .acquire k hk
  · simpa [Op.allowed] using hd.op n .release k hk
  · have hpark := hd.op n .park k hk
    simp only [Op.allowed, Bool.and_eq_true, beq_iff_eq] at hpark
    exact hpark.symm
  · have hdispatch := hd.op n .dispatch k hk
    simpa [Op.allowed, and_comm] using hdispatch
  · have hblock := hd.op n (.block call) k hk
    cases call with
    | closeBackend => rfl
    | _ => simp [Op.allowed, Blocking.locked, hown] at hblock

/-! ## Runs of one thread -/

namespace Paths

def startStack : Strand → List (Frame Blocking)
  | .thread _ => [.user]
  | .task _ => [.user, .code taskEntry]

/-- All threads are the user's. -/
def start : State Blocking := ⟨startStack, fun _ => none, none⟩

/-- What a run of thread 0 is tested for. -/
def solo (s : State Blocking) : Nat × Choice Blocking → Bool
  | (n, .call f) => n == 0 && runtime.api.contains f
  | (n, .task _) => n == 0 && s.task 0 == none
  | (n, _) => n == 0

theorem solo_obeys {s : State Blocking} {a : Nat × Choice Blocking} (h : solo s a = true)
    (hidle : ∀ m, m ≠ 0 → s.task m = none) : a.1 = 0 ∧ runtime.Obeys s a := by
  obtain ⟨n, choice⟩ := a
  cases choice with
  | call f =>
      simp only [solo, Bool.and_eq_true, beq_iff_eq, List.contains_iff_mem] at h
      exact h
  | task t =>
      simp only [solo, Bool.and_eq_true, beq_iff_eq] at h
      refine ⟨h.1, fun m hm => ?_⟩
      by_cases hm0 : m = 0
      · rw [hm0, h.2] at hm
        cases hm
      · rw [hidle m hm0] at hm
        cases hm
  | _ =>
      simp only [solo, beq_iff_eq] at h
      exact ⟨h, trivial⟩

theorem reach_of_solo {trace : List (Nat × Choice Blocking)} {s s' : State Blocking}
    (h : runtime.machine.Reach runtime.Obeys s) (hidle : ∀ m, m ≠ 0 → s.task m = none)
    (hrun : runtime.machine.replay solo s trace = some s') :
    runtime.machine.Reach runtime.Obeys s' := by
  induction trace generalizing s with
  | nil =>
      cases hrun
      exact h
  | cons a trace ih =>
      rw [Machine.replay] at hrun
      split at hrun
      · next ha =>
          obtain ⟨v, hs, hrest⟩ := Option.bind_eq_some_iff.mp hrun
          obtain ⟨n, choice⟩ := a
          obtain ⟨rfl, hobey⟩ := solo_obeys ha hidle
          refine ih (.step h hobey hs) (fun m hm => ?_) hrest
          exact (State.step_task hs hm).trans (hidle m hm)
      · cases hrun

/-- Thread 0 goes on where it has no choice, and then chooses. -/
def pick (k : Nat) (choice : Choice Blocking) : List (Nat × Choice Blocking) :=
  List.replicate k (0, .go) ++ [(0, choice)]

theorem reach_of_trace (trace : List (Nat × Choice Blocking)) (p : State Blocking → Bool)
    (h : (runtime.machine.replay solo start trace).any p = true) :
    ∃ s, runtime.machine.Reach runtime.Obeys s ∧ p s = true := by
  obtain ⟨s, hrun, hp⟩ := (Option.any_eq_true _ _).mp h
  have hinit : runtime.Initial start := ⟨rfl, fun _ => rfl, fun _ => .inl rfl, fun _ => rfl⟩
  exact ⟨s, reach_of_solo (.init hinit) (fun _ _ => rfl) hrun, hp⟩

end Paths

/-- A worker that runs task 3, which yields, owns the mutex when the task switches. -/
theorem lock_discipline_yield : ∃ s : State Blocking,
    Paths.runtime.machine.Reach Paths.runtime.Obeys s ∧
      s.stack (s.strand 0) = [.code Paths.park, .code .skip, .back, .user, .code Paths.taskEntry] ∧
      s.owner = some 0 ∧ (s.task 0).isSome = true := by
  obtain ⟨s, hs, hp⟩ := Paths.reach_of_trace (List.flatten [Paths.pick 0 (.call Paths.run),
      Paths.pick 9 .right, Paths.pick 4 .right, Paths.pick 6 .left, Paths.pick 1 .right,
      Paths.pick 2 .right, Paths.pick 2 .right, Paths.pick 3 (.task 3),
      Paths.pick 0 (.call Paths.yield), List.replicate 7 (0, .go)])
    (fun s => s.stack (s.strand 0) ==
      [.code Paths.park, .code .skip, .back, .user, .code Paths.taskEntry]) (by decide +kernel)
  have hstack := eq_of_beq hp
  exact ⟨s, hs, hstack, (lock_discipline hs 0 _).2.2.2.1 hstack⟩

/-- An idle runtime is shut down with the mutex held over the `close` of the back end's
descriptors. -/
theorem shutdown_closes_locked : ∃ (s : State Blocking) (k : List (Frame Blocking)),
    Paths.runtime.machine.Reach Paths.runtime.Obeys s ∧
      s.stack (s.strand 0) = .code (Paths.block .closeBackend) :: k ∧ s.owner = some 0 := by
  obtain ⟨s, hs, hp⟩ := Paths.reach_of_trace (List.flatten [Paths.pick 0 (.call Paths.shutdown),
      Paths.pick 5 .right, Paths.pick 4 .right, Paths.pick 4 .left])
    (fun s => (s.stack (s.strand 0)).head? == some (.code (Paths.block .closeBackend)) &&
      s.owner == some 0) (by decide +kernel)
  simp only [Bool.and_eq_true, beq_iff_eq] at hp
  obtain ⟨k, hk⟩ := List.head?_eq_some_iff.mp hp.1
  exact ⟨s, k, hs, hk, hp.2⟩

end Microthread
