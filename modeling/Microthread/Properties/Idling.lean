import Microthread.Properties.SingleWorker

/-!
# Workers that wait while work is queued

A worker that finds the run queue empty waits without a time limit only after it has
looked. The readiness poll at the head of the loop comes before that look: when another
worker is inside the backend wait, the poll waits for it without a time limit, whatever
the run queue holds.
-/

namespace Microthread

open Foundation Rt

/-- The worker is in a condition wait without a time limit. -/
def WorkerPc.untimed : WorkerPc → Bool
  | .idleWait => true
  | .pollWait timed _ => !timed
  | _ => false

namespace Sys

variable {s s' : Sys} {w : Nat}

/-- A worker goes into a condition wait without a time limit. -/
def Enters (s s' : Sys) (w : Nat) : Prop :=
  (s'.workers w).untimed = true ∧ s'.workers w ≠ s.workers w

/-- No worker comes to the readiness poll at the head of its loop while another one is
inside the backend wait, a descriptor is waited for and a task is queued. -/
def Diligent (s : Sys) : Act → Prop
  | .worker w env =>
    s.workers w = .top → s.rt.stopping = false →
      let rt := (s.tick env.tape).rt.wakeExpiredTimers env.nowNs
      rt.ioPolling = true → 0 < rt.fdWaitingCount → rt.runq.items = []
  | _ => True

theorem not_enters (hw : s'.workers = s.workers) (v : Nat) : ¬s.Enters s' v := fun h =>
  h.2 (congrFun hw v)

/-- Worker `w` goes to a place that is no such wait. -/
theorem not_enters_of_update {p : WorkerPc} (hw : s'.workers = Function.update s.workers w p)
    (hp : p.untimed = false) (v : Nat) : ¬s.Enters s' v := by
  rintro ⟨hu, hne⟩
  rw [hw] at hu hne
  by_cases hv : v = w
  · subst hv
    simp [hp] at hu
  · simp [hv] at hne

/-- Only a worker's own step takes it to such a wait. -/
theorem Case.not_enters {act : Act} (hc : Case s act s') (ha : ∀ w env, act ≠ .worker w env)
    (hb : ∀ w batch, act ≠ .collect w batch) (v : Nat) : ¬s.Enters s' v := by
  cases hc with
  | parks | finishes | spawns | launches => exact not_enters_of_update rfl rfl v
  | runEnds => exact fun h => by simpa [Sys.ret, Sys.setPc, WorkerPc.untimed] using h.1
  | abortEnds => exact fun h => by simpa [Sys.ret, Sys.setPc, WorkerPc.untimed] using h.1
  | starts w env => exact absurd rfl (ha w env)
  | startFails w env => exact absurd rfl (ha w env)
  | loops w q lock hact =>
      rcases hact with ⟨env, rfl⟩ | ⟨batch, rfl⟩
      · exact absurd rfl (ha w env)
      · exact absurd rfl (hb w batch)
  | exits w env => exact absurd rfl (ha w env)
  | dispatches w env => exact absurd rfl (ha w env)
  | _ => exact Sys.not_enters rfl v

/-! ## The loop -/

theorem pollCont_not_enters (k : PollCont) (hw : s'.workers = s.workers) (v : Nat) :
    ¬s.Enters (s'.pollCont w k) v := by
  cases k with
  | top => exact not_enters_of_update (congrArg (Function.update · w _) hw) rfl v
  | pop => exact not_enters_of_update (congrArg (Function.update · w _) hw) rfl v

/-- The poll waits without a time limit exactly when another worker is in the backend. -/
theorem workerPoll_enters (s : Sys) (w v : Nat) (timed : Bool) (k : PollCont) (rt : Rt) :
    s.Enters (s.workerPoll w timed k rt) v → rt.ioPolling = true ∧
      (s.workerPoll w timed k rt).rt = rt := by
  unfold workerPoll
  split
  · next hp => exact fun _ => ⟨hp, rfl⟩
  · exact fun h => absurd h (not_enters_of_update rfl rfl v)

/-- A worker that has found nothing to run leaves the run queue as it is. -/
theorem workerIdle_runq (s : Sys) (w : Nat) (env : Env) :
    (s.workerIdle w env).rt.runq = s.rt.runq := by
  unfold workerIdle
  split
  · rfl
  split
  · rfl
  split
  · unfold workerPoll
    split <;> rfl
  split
  · split <;> rfl
  · split
    · split <;> rfl
    · rfl

/-- A worker enters an untimed wait from the readiness poll, or with an empty run queue. -/
theorem workerStep_enters {env : Env} {v : Nat} (hs : s.workerStep w env = some s')
    (h : s.Enters s' v) :
    (s.workers w = .top ∧ s.rt.stopping = false ∧
      (s.rt.wakeExpiredTimers env.nowNs).ioPolling = true ∧
      0 < (s.rt.wakeExpiredTimers env.nowNs).fdWaitingCount ∧
      s'.rt = s.rt.wakeExpiredTimers env.nowNs) ∨ s'.rt.runq.items = [] := by
  unfold Sys.workerStep at hs
  split at hs
  · split at hs
    · cases hs
    split at hs <;> cases hs <;> exact absurd h (not_enters_of_update rfl rfl v)
  · next hw =>
      split at hs
      · cases hs
        unfold Sys.workerTop at h ⊢
        split at h
        · exact absurd h (not_enters_of_update rfl rfl v)
        split at h
        · exact absurd h (not_enters_of_update rfl rfl v)
        · next h1 h2 =>
            simp only at h ⊢
            split at h
            · next hfd =>
                obtain ⟨hp, hrt⟩ := workerPoll_enters s w v false .pop _ h
                rw [if_neg h1, if_neg h2, if_pos hfd, hrt]
                exact .inl ⟨hw, by simpa using h2, hp, hfd, rfl⟩
            · exact absurd h (not_enters_of_update rfl rfl v)
      · cases hs
  · split at hs
    · cases hs
      unfold Sys.workerPop at h ⊢
      cases hq : s.rt.runq.pop with
      | some p =>
          simp only [Rt.runqPop, hq, Option.map_some] at h
          split at h <;> exact absurd h (not_enters_of_update rfl rfl v)
      | none =>
          simp only [Rt.runqPop, hq, Option.map_none] at h ⊢
          exact .inr (by rw [workerIdle_runq]; exact Queue.pop_eq_none.mp hq)
    · cases hs
  · split at hs <;> cases hs
    exact absurd h (pollCont_not_enters _ (by rfl) v)
  · split at hs <;> cases hs
    exact absurd h (pollCont_not_enters _ (by rfl) v)
  · split at hs <;> cases hs
    exact absurd h (not_enters_of_update rfl rfl v)
  · split at hs <;> cases hs
    exact absurd h (not_enters_of_update rfl rfl v)
  · cases hs

/-- The readiness poll of a worker that meets another one in the backend. -/
theorem workerTop_enters {env : Env} (hw : s.workers w = .top) (hgo : s.rt.stopping = false)
    (hp : (s.rt.wakeExpiredTimers env.nowNs).ioPolling = true)
    (hfd : 0 < (s.rt.wakeExpiredTimers env.nowNs).fdWaitingCount) :
    s.Enters (s.workerTop w env) w ∧
      (s.workerTop w env).rt = s.rt.wakeExpiredTimers env.nowNs := by
  unfold Sys.workerTop
  simp only [hgo, Bool.false_and, Bool.false_eq_true, if_false]
  rw [if_pos hfd, workerPoll, if_pos hp]
  refine ⟨⟨?_, ?_⟩, rfl⟩
  · simp [Sys.setWorker, WorkerPc.untimed]
  · simp [Sys.setWorker, hw]

/-- In every reachable state and for every step: no worker enters a wait without a time limit
while a task is queued and the runtime is not stopping, if and only if no worker comes to the
readiness poll while another one is inside the backend wait, a descriptor is waited for and a
task is queued. -/
theorem untimed_wait_iff {act : Act} (h : machine.Reach Contract s) (hc : s.Contract act)
    (hs : machine.step s act = some s') :
    (∀ w, s.Enters s' w → s'.rt.runq.items = [] ∨ s'.rt.stopping = true) ↔ s.Diligent act := by
  have hok := ok_of_reach (fun _ _ h => h) h
  cases act with
  | worker w env =>
      have hctrl := fun s₀ : Sys => fun hok₀ : s₀.Ok => (control_fields
        (Moves.control_eq (Shifts.moves (Ticks.shifts (hok₀.rest.inv.wakeExpiredTimers
          env.nowNs))))).2.1
      have hstop : ((s.tick env.tape).rt.wakeExpiredTimers env.nowNs).stopping = s.rt.stopping :=
        hctrl _ (hok.tick env.tape)
      constructor
      · intro hno hw hgo rt hp hfd
        have hlock : s.lock = some w := (hok.lock w).mpr (by simp [hw, WorkerPc.locked])
        have hs' : s' = (s.tick env.tape).workerTop w env := by
          change (s.tick env.tape).workerStep w env = some s' at hs
          have hw' : (s.tick env.tape).workers w = .top := hw
          have hl' : (s.tick env.tape).lock = some w := hlock
          simp only [Sys.workerStep, hw', hl', if_true, Option.some.injEq] at hs
          exact hs.symm
        obtain ⟨hen, hrt⟩ := workerTop_enters (s := s.tick env.tape) hw hgo hp hfd
        rw [← hs'] at hen hrt
        rcases hno w hen with hq | hst
        · rw [hrt] at hq
          exact hq
        · rw [hrt, hstop, hgo] at hst
          cases hst
      · intro hd v hen
        rcases workerStep_enters (s := s.tick env.tape) hs hen with
          ⟨hw, hgo, hp, hfd, hrt⟩ | hq
        · exact .inl (hrt ▸ hd hw hgo hp hfd)
        · exact .inl hq
  | collect w batch =>
      refine iff_of_true (fun v hen => ?_) trivial
      simp only [machine, Sys.step] at hs
      split at hs
      · cases hs
        exact absurd hen (not_enters_of_update rfl rfl v)
      · cases hs
  | _ =>
      refine iff_of_true (fun v hen => ?_) trivial
      obtain ⟨s₀, hp, hcase⟩ := hok.step_cases hc hs
      have hw : s₀.workers = s.workers := by
        obtain ⟨tape, rfl | rfl⟩ := hp <;> rfl
      refine absurd ?_ (hcase.not_enters (by simp) (by simp) v)
      exact ⟨hen.1, by rw [hw]; exact hen.2⟩

/-- A task waits for a descriptor, worker 0 is in the backend wait, and the task of worker 1
has yielded. -/
def pollTrace : List Act := List.flatten [[.osOpen (.ext 0) 5 0],
  invoke (.ext 0) (.go true 0 false), invoke (.ext 0) (.go true 0 false),
  invoke (.ext 0) (.run 2 true) 4, works 0 3, works 1 3,
  invoke (.task 0 0) (.fdWait 5 1 1000), works 0 1, invoke (.task 1 1) .yield]

/-- With nobody in the backend the worker whose task yields goes on to the backend wait. -/
theorem untimed_wait_iff_alone : ∃ s s' act, machine.Reach Contract s ∧ s.Contract act ∧
    machine.step s act = some s' ∧ s.Diligent act ∧
    ∀ w, s.Enters s' w → s'.rt.runq.items = [] ∨ s'.rt.stopping = true := by
  obtain ⟨s, hs, hp⟩ := reach_of_promised .poll (List.flatten [[.osOpen (.ext 0) 5 0],
      invoke (.ext 0) (.go true 0 false), invoke (.ext 0) (.run 1 true) 2, works 0 3,
      invoke (.task 0 0) (.fdWait 5 1 1000)])
    (fun s => !((s.tick []).rt.wakeExpiredTimers 0).ioPolling &&
      (machine.step s (.worker 0 {})).isSome) (by decide +kernel)
  simp only [Bool.and_eq_true, Bool.not_eq_true', Option.isSome_iff_exists] at hp
  obtain ⟨hpoll, s', hstep⟩ := hp
  have hd : s.Diligent (.worker 0 {}) := fun _ _ hrt => by
    have hset : ((s.tick []).rt.wakeExpiredTimers 0).ioPolling = true := hrt
    rw [hpoll] at hset
    cases hset
  have hc : s.Contract (.worker 0 {}) := trivial
  exact ⟨s, s', .worker 0 {}, hs, hc, hstep, hd, (untimed_wait_iff hs hc hstep).mpr hd⟩

/-- Worker 1 waits without a time limit while the task it has just put into the run queue
is the only one there. -/
theorem worker_waits_with_queued_task : ∃ s s', machine.Reach Contract s ∧
    machine.step s (.worker 1 {}) = some s' ∧ s.Enters s' 1 ∧ s'.rt.runq.items = [1] ∧
    s'.rt.stopping = false := by
  obtain ⟨s, hs, hp⟩ := reach_of_promised .poll pollTrace
    (fun s => s.workers 1 == .top && (machine.step s (.worker 1 {})).any fun s' =>
      s'.workers 1 == .pollWait false .pop && s'.rt.runq.items == [1] && !s'.rt.stopping)
    (by decide +kernel)
  simp only [Bool.and_eq_true, beq_iff_eq, Option.any_eq_true, Bool.not_eq_true'] at hp
  obtain ⟨hw, s', hstep, ⟨hw', hq⟩, hst⟩ := hp
  exact ⟨s, s', hs, hstep, ⟨by simp [hw', WorkerPc.untimed], by simp [hw, hw']⟩, hq, hst⟩

end Sys

end Microthread
