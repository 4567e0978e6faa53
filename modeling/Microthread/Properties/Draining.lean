import Microthread.Properties.Completion
import Microthread.Properties.Interest
import Microthread.Properties.Scheduling
import Microthread.Properties.Waits

/-!
# Shutting down while a run is in progress

`mt_shutdown` in the middle of a run wakes the tasks that wait for descriptors and tells the
workers to stop. The workers go on until the run queue is empty, without a look at the
timers or the backend, and the run returns `MT_ERR_CANCELLED`.
-/

namespace Microthread

open Foundation Rt

namespace Sys

variable {s s' m m' : Sys} {w : Nat} {t : TaskId} {act : Act}

/-- `mt_shutdown` has told the workers to stop. -/
structure Draining (s : Sys) : Prop where
  stopping : s.rt.stopping = true
  result : s.rt.runResult = .cancelled

/-- What `mt_run_internal` needs to go on from here does not fail. -/
def startsUp (env : Env) : Pc → Bool
  | .runAlloc _ _ => env.tape.head? != some false
  | .runSpawn _ _ _ => env.osOk
  | _ => true

/-- No worker fails to start. -/
def StartsUp (s : Sys) : Act → Prop
  | .cont a env => startsUp env (s.pc a.agent) = true
  | .worker w env => s.workers w = .start → w = 0 ∨ env.osOk = true
  | _ => True

instance (s : Sys) (act : Act) : Decidable (s.StartsUp act) := by
  induction act using Act.casesOn with
  | cont a env => exact inferInstanceAs (Decidable (_ = true))
  | worker w env => exact inferInstanceAs (Decidable (_ → _))
  | _ => exact instDecidableTrue

/-- The steps of a run that is in progress and none of whose workers fails to start. -/
structure Ongoing (s : Sys) (act : Act) : Prop where
  contract : s.Contract act
  startsUp : s.StartsUp act
  running : s.rt.running = true

/-- `mt_task_cancel` is called with the handle of the task. -/
def CancelsTask (s : Sys) (t : TaskId) (act : Act) : Prop :=
  ∃ a env c x, act = .cont a env ∧ s.pc a.agent = .called c (.cancel x) ∧
    (s.rt.handle x).task = some t

/-- What a step does while the runtime is draining. -/
structure Drains (s : Sys) (act : Act) (s' : Sys) : Prop where
  /-- a worker leaves its loop only when the run queue is empty -/
  leaves : ∀ w, s.workers w ≠ .exited → s'.workers w = .exited → s.rt.runq.items = []
  /-- no backend wait begins -/
  polls : ∀ w k, s'.workers w = .polling k → s.workers w = .polling k
  /-- the head of the worker loop does not look at the timers -/
  timers : ∀ w env, act = .worker w env → s.workers w = .top →
    s'.rt.timers = s.rt.timers ∧ s'.rt.task = s.rt.task
  /-- the thread in `mt_run_internal` returns `MT_ERR_CANCELLED` -/
  returns : ∀ n, (s.pc (.ext n)).inRun = true → (s'.pc (.ext n)).inRun = false →
    ∃ d, s.pc (.ext n) = .runLoop d ∧
      s'.rt.log = s.rt.log ++ [.done d .neither .cancelled, .ret d .cancelled]
  /-- and its return is the end of the run, which waits for every worker -/
  ends : s'.rt.running = false →
    (∃ n, (s.pc (.ext n)).inRun = true ∧ (s'.pc (.ext n)).inRun = false) ∧
      ∀ w < s.rt.workerCount, s.workers w = .exited ∨ s.workers w = .off

/-! ## The worker loop -/

/-- The flags by which a run is ended, and its result. -/
def verdict (s : Sys) : Bool × Bool × Rc := (s.rt.running, s.rt.stopping, s.rt.runResult)

theorem verdict_of_control {r : Rt} (hr : s'.rt.control = r.control)
    (h : (r.running, r.stopping, r.runResult) = s.verdict) : s'.verdict = s.verdict := by
  obtain ⟨h1, h2, h3, -⟩ := control_fields hr
  exact (congrArg₂ Prod.mk h1 (congrArg₂ Prod.mk h2 h3)).trans h

theorem pollCont_workers (s : Sys) (w : Nat) (k : PollCont) :
    (s.pollCont w k).workers w = .top ∨ (s.pollCont w k).workers w = .pop := by
  cases k with
  | top => exact .inl (by simp [Sys.pollCont, Sys.setWorker])
  | pop => exact .inr (by simp [Sys.pollCont, Sys.setWorker])

theorem workerTop_of_draining (hd : s.Draining) (env : Env) :
    s.workerTop w env = s.workerExit w s.rt ∧ s.rt.runq.items = [] ∨
      s.workerTop w env = s.setWorker w .pop := by
  cases hq : s.rt.runq.items with
  | nil => exact .inl ⟨by simp [Sys.workerTop, hd.stopping, hq], rfl⟩
  | cons t ts => exact .inr (by simp [Sys.workerTop, hd.stopping, hd.result, hq])

theorem workerPop_of_draining (hd : s.Draining) (env : Env) :
    s.workerPop w env = s.workerExit w s.rt ∧ s.rt.runq.items = [] ∨
      ∃ t, (s.workerPop w env).workers w = .running t := by
  unfold Sys.workerPop
  cases hq : s.rt.runq.pop with
  | none =>
      refine .inl ⟨?_, Queue.pop_eq_none.mp hq⟩
      simp [Rt.runqPop, hq, Sys.workerIdle, hd.stopping]
  | some tq =>
      obtain ⟨t, q⟩ := tq
      refine .inr ⟨t, ?_⟩
      simp only [Rt.runqPop, hq, Option.map_some]
      split <;> simp [Sys.setWorker, Sys.setPc]

/-- What a worker does after `mt_shutdown`. -/
theorem workerStep_of_draining (env : Env) (hd : s.Draining)
    (hup : s.workers w = .start → w = 0 ∨ env.osOk = true) (hs : s.workerStep w env = some s') :
    (s'.workers w = .exited → s.rt.runq.items = [] ∧ s'.verdict = s.verdict) ∧
      (∀ k, s'.workers w ≠ .polling k) ∧
      (s.workers w = .top → s'.rt.timers = s.rt.timers ∧ s'.rt.task = s.rt.task) := by
  have exit : (s.workerExit w s.rt).workers w = .exited := by
    simp [Sys.workerExit, Sys.setWorker]
  unfold Sys.workerStep at hs
  split at hs
  · next hw =>
      split at hs
      · cases hs
      · split at hs
        · next hno =>
            rcases hup hw with h0 | hok
            · exact absurd h0 hno.1
            · exact absurd hok hno.2
        · cases hs
          simp [Sys.setWorker, hw]
  · next hw =>
      split at hs
      · cases hs
        rcases workerTop_of_draining (w := w) hd env with ⟨heq, hq⟩ | heq
        · rw [heq]
          exact ⟨fun _ => ⟨hq, rfl⟩, fun k => by rw [exit]; simp, fun _ => ⟨rfl, rfl⟩⟩
        · rw [heq]
          simp [Sys.setWorker]
      · cases hs
  · next hw =>
      split at hs
      · cases hs
        rcases workerPop_of_draining (w := w) hd env with ⟨heq, hq⟩ | ⟨t, heq⟩
        · rw [heq]
          exact ⟨fun _ => ⟨hq, rfl⟩, fun k => by rw [exit]; simp, fun _ => ⟨rfl, rfl⟩⟩
        · simp [heq, hw]
      · cases hs
  · next k batch hw =>
      split at hs
      · cases hs
      · cases hs
        rcases pollCont_workers { s with
          rt := { s.rt.backendDispatch batch with ioPolling := false }
          lock := some w } w k with h | h <;> simp [h, hw]
  · next k hw =>
      split at hs
      · cases hs
      · cases hs
        rcases pollCont_workers { s with lock := some w } w k with h | h <;> simp [h, hw]
  · next hw =>
      split at hs
      · cases hs
      · cases hs
        simp [Sys.setWorker, hw]
  · next hw =>
      split at hs
      · cases hs
      · cases hs
        simp [Sys.setWorker, hw]
  · cases hs

/-! ## The thread in `mt_run_internal` -/

theorem step_runAlloc {n k : Nat} {c : CallId} {env : Env} (hpc : s.pc (.ext n) = .runAlloc c k)
    (hup : s.StartsUp (.cont (.ext n) env)) (hs : machine.step s (.cont (.ext n) env) = some s') :
    s'.rt.running = s.rt.running := by
  have hask : (s.tick env.tape).rt.ask.1 = true := by
    simp only [StartsUp, Actor.agent, hpc, Sys.startsUp] at hup
    cases htape : env.tape with
    | nil => simp [Rt.ask, Sys.tick]
    | cons b rest => simpa [Rt.ask, Sys.tick, htape] using hup
  obtain ⟨b, tape, heq⟩ := (s.tick env.tape).rt.ask_eq
  obtain rfl : b = true := by simpa [heq] using hask
  simp only [machine, Sys.step, Sys.enabled, if_true] at hs
  change (s.tick env.tape).continueCall (.ext n) env = some s' at hs
  have hpc' : (s.tick env.tape).pc (Actor.ext n).agent = .runAlloc c k := hpc
  simp only [Sys.continueCall, hpc', heq] at hs
  split at hs
  · cases hs
  · split at hs
    · cases hs
      rfl
    · cases hs
      rfl

theorem step_runSpawn {n k j : Nat} {c : CallId} {env : Env}
    (hpc : s.pc (.ext n) = .runSpawn c k j) (hup : s.StartsUp (.cont (.ext n) env))
    (hs : machine.step s (.cont (.ext n) env) = some s') :
    ∀ d, s'.pc (.ext n) ≠ .runAbort d := by
  have hok : env.osOk = true := by
    simpa only [StartsUp, Actor.agent, hpc, Sys.startsUp] using hup
  simp only [machine, Sys.step, Sys.enabled, if_true] at hs
  change (s.tick env.tape).continueCall (.ext n) env = some s' at hs
  have hpc' : (s.tick env.tape).pc (Actor.ext n).agent = .runSpawn c k j := hpc
  simp only [Sys.continueCall, hpc', hok, if_true] at hs
  intro d
  split at hs
  · cases hs
  · split at hs
    · cases hs
      simp [Sys.setPc, Sys.setWorker, Actor.agent]
    · cases hs
      simp [Sys.setPc, Sys.setWorker, Actor.agent]

/-- A run that is being aborted has its verdict. -/
def Aborting (s : Sys) : Prop := ∀ a c, s.pc a = .runAbort c → s.rt.stopping = true

theorem Case.aborting (hc : Case s act s') (hok : s.Ok) (h : s.Aborting) : s'.Aborting := by
  have keep : (∀ a c, s'.pc a = .runAbort c → s.pc a = .runAbort c) →
      (s.rt.stopping = true → s'.rt.stopping = true) → s'.Aborting :=
    fun hpc hst a c ha => hst (h a c (hpc a c ha))
  have pass : ∀ {r : Rt}, r.control = s.rt.control → s.rt.stopping = true → r.stopping = true :=
    fun hr hst => (control_fields hr).2.1.trans hst
  -- the thread in `mt_run_internal` is the only one there
  have alone : ∀ {n : Nat} {p : Pc}, (s.pc (.ext n)).inRun = true → (∀ c, p ≠ .runAbort c) →
      (∀ c, s.pc (.ext n) ≠ .runAbort c) → s'.pc = Function.update s.pc (.ext n) p →
      s'.Aborting := fun {n p} hin hp hno hpc a c ha => by
    have hold := place_of_update .runAbort hp a c (hpc ▸ ha)
    obtain rfl := hok.run.single a (.ext n) (by simp [hold, Pc.inRun]) hin
    exact absurd hold (hno c)
  cases hc with
  | calls a call hen hpc =>
      have hback := place_of_update (s := s) (g := a.agent) (p := .called s.nextCall call)
        .runAbort (by simp)
      cases a with
      | task w t => exact keep hback id
      | ext n => exact keep hback id
  | acts a env c o p es os sel hen hcall hp hr _ hs hon =>
      exact keep (place_of_update .runAbort fun d => Onward.ne_inRun hon rfl)
        (pass (hs.passes hok.rest).control)
  | resumesFd w t env c v use o p es hw hpc ho hon =>
      exact keep (place_of_update .runAbort fun d => Onward.ne_inRun hon rfl) id
  | returns | goesOn => exact keep (place_of_update .runAbort (by simp)) id
  | parks w t env c p hw hl hcall hnp hp hm =>
      have hws := hok.rest.noWaiters t ((hok.runs t).mpr ⟨w, hw⟩)
      have hleave := control_fields (Moves.control_eq (Shifts.moves hm.shifts))
      have hpark := control_fields (hp.frame hws).2.2
      refine keep (place_of_update .runAbort fun d hd => ?_)
        fun hst => hleave.2.1.trans (hpark.2.1.trans hst)
      subst hd
      cases hp
  | finishes w t hw hl hpc hb =>
      exact keep (place_of_update .runAbort (by simp))
        fun hst => (control_fields hb.control_eq).2.1.trans hst
  | writes | descriptors => exact h
  | runBegins n env c k sleep hpc hk hinit hr =>
      intro a d ha
      have hold := place_of_update (s := s) .runAbort (by simp) a d ha
      have hon := hok.run.runner a (by simp [hold, Pc.inRun])
      simp [hr] at hon
  | runPrepares n env c k tape hpc =>
      exact alone (by simp [hpc, Pc.inRun]) (by simp) (by simp [hpc]) rfl
  | runFails n env c k tape hpc =>
      exact alone (by simp [hpc, Pc.inRun]) (p := .user) (by simp) (by simp [hpc]) rfl
  | spawns n env c k j hpc =>
      exact alone (by simp [hpc, Pc.inRun]) (by simp) (by simp [hpc]) rfl
  | launches n env c hpc =>
      rcases hpc with ⟨k, hpc⟩ | ⟨k, j, hpc, -⟩
      · exact alone (by simp [hpc, Pc.inRun]) (by simp) (by simp [hpc]) rfl
      · exact alone (by simp [hpc, Pc.inRun]) (by simp) (by simp [hpc]) rfl
  | aborts => exact fun _ _ _ => rfl
  | runEnds n env c hpc hl hall =>
      exact fun a d ha => absurd ha (hok.no_runner (by simp [hpc, Pc.inRun]) rfl)
  | abortEnds n env c hpc hl hall =>
      exact fun a d ha => absurd ha (hok.no_runner (by simp [hpc, Pc.inRun]) rfl)
  | halts n env c hpc hr hm =>
      exact keep (place_of_update .runAbort (by simp)) fun _ =>
        (control_fields (Moves.control_eq (Shifts.moves (FdShifts.shifts hm)))).2.1
  | shutsDown n env c hpc hinit hr halone hd =>
      intro a d ha
      have hold := place_of_update (s := s) .runAbort (by simp) a d ha
      have hon := hok.run.runner a (by simp [hold, Pc.inRun])
      simp [hr] at hon
  | starts w env hw hl => exact keep (fun _ _ => id) id
  | startFails w env hw => exact keep (fun _ _ => id) fun _ => rfl
  | loops w q lock _ hl hm =>
      exact keep (fun _ _ => id) (pass (Moves.control_eq (Shifts.moves (Ticks.shifts hm))))
  | exits w env rc hw hl hrc => exact keep (fun _ _ => id) fun _ => rfl
  | dispatches w env t q hw hl hq hm =>
      exact keep (place_of_update .runAbort fun d => hok.dispatched_place rfl)
        fun hst => (control_fields (Moves.control_eq (Shifts.moves hm.shifts))).2.1.trans hst

/-- Where the thread in `mt_run_internal` stands in a run under the contract. -/
theorem run_places (h : machine.Reach Sys.Contract s) : s.Started ∧ s.Aborting := by
  have hunder : machine.Reach (Under fun _ _ => True) s := h.mono fun _ _ hc => ⟨hc, trivial⟩
  refine invariant_of_cases (I := fun s => s.Started ∧ s.Aborting) (fun kind => ⟨?_, ?_⟩)
    (fun s s₀ hok hp hi => ?_) (fun _ _ _ _ _ h => h)
    (fun s a s' hok hi _ hc => ⟨hc.started hok hi.1, hc.aborting hok hi.2⟩) hunder
  · intro a c ha
    cases a <;> cases ha
  · intro a c ha
    cases a <;> cases ha
  · rcases hp.cases hok with ⟨tape, rfl⟩ | ⟨hinit, -, rt, hb, rfl⟩
    · exact hi
    · refine ⟨hi.1, fun a c ha => ?_⟩
      have hon := hok.run.runner a (by simp [show s.pc a = _ from ha, Pc.inRun])
      simp [(hok.off hinit).2] at hon

/-! ## The steps of the drain -/

/-- A place that a step does not take into or out of `mt_run_internal`. -/
def KeepsRun (s s' : Sys) : Prop :=
  ∀ a, s'.pc a = s.pc a ∨ (s'.pc a).inRun = (s.pc a).inRun ∧ ∀ c, s'.pc a ≠ .runAbort c

theorem KeepsRun.of_update {g : Agent} {p : Pc} (hpc : s'.pc = Function.update s.pc g p)
    (hp : p.inRun = (s.pc g).inRun) (hno : ∀ c, p ≠ .runAbort c) : s.KeepsRun s' := by
  intro a
  rw [hpc]
  by_cases hag : a = g
  · subst hag
    rw [Function.update_self]
    exact .inr ⟨hp, hno⟩
  · rw [Function.update_of_ne hag]
    exact .inl rfl

theorem KeepsRun.inRun_eq (h : s.KeepsRun s') (a : Agent) : (s'.pc a).inRun = (s.pc a).inRun := by
  rcases h a with h | h
  · rw [h]
  · exact h.1

/-- The runtime drains, and the run is not being aborted. -/
structure Drain (s : Sys) : Prop where
  draining : s.Draining
  noAbort : ∀ a c, s.pc a ≠ .runAbort c

theorem Drain.verdict (h : s.Drain) (hv : s'.verdict = s.verdict) : s'.Draining := by
  simp only [Sys.verdict, Prod.mk.injEq] at hv
  exact ⟨hv.2.1.trans h.draining.stopping, hv.2.2.trans h.draining.result⟩

theorem Drain.next (h : s.Drain) (hk : s.KeepsRun s') (hd : s'.Draining) : s'.Drain := by
  refine ⟨hd, fun a c ha => ?_⟩
  rcases hk a with hold | ⟨-, hno⟩
  · exact h.noAbort a c (hold ▸ ha)
  · exact hno c ha

/-- A step of no worker that keeps the run going. -/
theorem Drain.others (h : s.Drain) (hact : ∀ w env, act ≠ .worker w env)
    (hw : ∀ w p, p = .exited ∨ (∃ k, p = .polling k) → s'.workers w = p → s.workers w = p)
    (hk : s.KeepsRun s') (hrun : s'.rt.running = true) (hd : s'.Draining) :
    s.Drains act s' ∧ s'.Drain := by
  refine ⟨⟨?_, ?_, ?_, ?_, ?_⟩, h.next hk hd⟩
  · exact fun w hne hex => absurd (hw w _ (.inl rfl) hex) hne
  · exact fun w k hp => hw w _ (.inr ⟨k, rfl⟩) hp
  · exact fun w env ha => absurd ha (hact w env)
  · intro n hin hout
    rw [hk.inRun_eq, hin] at hout
    cases hout
  · intro hoff
    simp [hrun] at hoff

theorem update_workers {f : Nat → WorkerPc} {q : WorkerPc} {v : Nat} (hex : q ≠ .exited)
    (hpoll : ∀ k, q ≠ .polling k) (w : Nat) (p : WorkerPc)
    (hp : p = .exited ∨ (∃ k, p = .polling k)) (hw : Function.update f v q w = p) : f w = p := by
  by_cases hwv : w = v
  · subst hwv
    rw [Function.update_self] at hw
    subst hw
    rcases hp with hp | ⟨k, hp⟩
    · exact absurd hp hex
    · exact absurd hp (hpoll k)
  · rwa [Function.update_of_ne hwv] at hw

/-- A step of a worker. -/
theorem Drain.worker (h : s.Drain) {env : Env} (hrun : s.rt.running = true)
    (hup : s.StartsUp (.worker w env)) (hs : machine.step s (.worker w env) = some s')
    (hk : s.KeepsRun s') (hw : ∀ v, v ≠ w → s'.workers v = s.workers v)
    (hv : s'.workers w ≠ .exited → s'.verdict = s.verdict) :
    s.Drains (.worker w env) s' ∧ s'.Drain := by
  have hstep := workerStep_of_draining (s := s.tick env.tape) (w := w) env
    ⟨h.draining.stopping, h.draining.result⟩ hup hs
  obtain ⟨hexit, hpoll, htop⟩ := hstep
  have hverdict : s'.verdict = s.verdict := by
    by_cases hex : s'.workers w = .exited
    · exact (hexit hex).2
    · exact hv hex
  have hrun' : s'.rt.running = true := by
    simp only [Sys.verdict, Prod.mk.injEq] at hverdict
    exact hverdict.1.trans hrun
  refine ⟨⟨?_, ?_, ?_, ?_, ?_⟩, h.next hk (h.verdict hverdict)⟩
  · intro v hne hex
    by_cases hvw : v = w
    · subst hvw
      exact (hexit hex).1
    · exact absurd (hw v hvw ▸ hex) hne
  · intro v k hp
    by_cases hvw : v = w
    · subst hvw
      exact absurd hp (hpoll k)
    · exact hw v hvw ▸ hp
  · intro v env' ha hv'
    cases ha
    exact htop hv'
  · intro n hin hout
    rw [hk.inRun_eq, hin] at hout
    cases hout
  · intro hoff
    simp [hrun'] at hoff

/-- The return of the thread in `mt_run_internal`. -/
theorem Ok.drain_ends (hok : s.Ok) {n : Nat} {c : CallId} {env : Env}
    (hpc : s.pc (.ext n) = .runLoop c) (hpc' : s'.pc = Function.update s.pc (.ext n) .user)
    (hall : ∀ w < s.rt.workerCount, s.workers w = .exited ∨ s.workers w = .off)
    (hw : ∀ w, s'.workers w = .off)
    (hlog : s'.rt.log = s.rt.log ++ [.done c .neither .cancelled, .ret c .cancelled]) :
    s.Drains (.cont (.ext n) env) s' := by
  have hin : (s.pc (.ext n)).inRun = true := by simp [hpc, Pc.inRun]
  have hout : (s'.pc (.ext n)).inRun = false := by simp [hpc', Pc.inRun]
  refine ⟨?_, ?_, ?_, ?_, ?_⟩
  · intro w _ hex
    simp [hw w] at hex
  · intro w k hp
    simp [hw w] at hp
  · intro w env' ha
    cases ha
  · intro j hj _
    obtain rfl : j = n := by simpa using hok.run.single _ _ hj hin
    exact ⟨c, hpc, hlog⟩
  · exact fun _ => ⟨⟨n, hin, hout⟩, hall⟩

/-- The steps of the thread in `mt_run_internal` by which a run fails, is aborted or ends. -/
inductive Stops (s : Sys) : Act → Sys → Prop where
  | fails (n env c k) {s'} : s.pc (.ext n) = .runAlloc c k → s'.rt.running = false →
      Stops s (.cont (.ext n) env) s'
  | aborts (n env c k j) {s'} : s.pc (.ext n) = .runSpawn c k j → s'.pc (.ext n) = .runAbort c →
      Stops s (.cont (.ext n) env) s'
  | abortEnds (n env c) {s'} : s.pc (.ext n) = .runAbort c → Stops s (.cont (.ext n) env) s'
  | ends (n env c) {s'} : s.pc (.ext n) = .runLoop c →
      (∀ w < s.rt.workerCount, s.workers w = .exited ∨ s.workers w = .off) →
      s'.rt.running = false → s'.pc = Function.update s.pc (.ext n) .user →
      (∀ w, s'.workers w = .off) →
      s'.rt.log = s.rt.log ++ [.done c .neither s.rt.runResult, .ret c s.rt.runResult] →
      Stops s (.cont (.ext n) env) s'

theorem Stops.of_tick {tape : List Bool} (h : (s.tick tape).Stops act s') : s.Stops act s' := by
  cases h with
  | fails n env c k hpc hoff => exact .fails n env c k hpc hoff
  | aborts n env c k j hpc hpc' => exact .aborts n env c k j hpc hpc'
  | abortEnds n env c hpc => exact .abortEnds n env c hpc
  | ends n env c hpc hall hoff hpc' hw hlog => exact .ends n env c hpc hall hoff hpc' hw hlog

theorem Stops.of_runLoop {n : Nat} {c : CallId} {env : Env} (hpc : s.pc (.ext n) = .runLoop c)
    (hall : ∀ w < s.rt.workerCount, s.workers w = .exited ∨ s.workers w = .off) :
    s.Stops (.cont (.ext n) env) ({ s with workers := fun _ => .off }.ret (.ext n) c .neither
      s.rt.runResult { s.rt with running := false, stopping := false }) := by
  refine .ends n env c hpc hall rfl rfl (fun _ => rfl) ?_
  rw [ret_eq]
  rfl

/-- Nobody else enters or leaves `mt_run_internal` while a run is in progress. -/
theorem Case.keepsRun (hc : Case s act s') (hok : s.Ok) (hrun : s.rt.running = true) :
    s.KeepsRun s' ∨ s.Stops act s' := by
  have inside : ∀ {n : Nat} {p q : Pc}, s.pc (.ext n) = q → q.inRun = true → p.inRun = true →
      p.inRun = (s.pc (.ext n)).inRun := fun hpc hq hp => by rw [hpc, hq, hp]
  cases hc with
  | calls a call hen hpc =>
      refine .inl (.of_update (g := a.agent) (p := .called s.nextCall call) ?_ ?_ (by simp))
      · cases a <;> rfl
      · rw [hpc]
        rfl
  | acts a env c o p es os sel hen hcall hp hr _ hsec hon =>
      exact .inl (.of_update rfl (hon.single.2.trans hr.symm) fun d => Onward.ne_inRun hon rfl)
  | resumesFd w t env c v use o p es hw hpc ho hon =>
      exact .inl (.of_update rfl (hon.single.2.trans (hok.run.task t).symm)
        fun d => Onward.ne_inRun hon rfl)
  | returns w t | goesOn w t | finishes w t =>
      exact .inl (.of_update rfl (hok.run.task t).symm (by simp))
  | parks w t env c p hw hl hcall hnp hp hm =>
      have hplace : p.inRun = false := by cases hp <;> rfl
      refine .inl (.of_update rfl (hplace.trans (hok.run.task t).symm) ?_)
      rintro d rfl
      cases hplace
  | writes | descriptors | starts | startFails | exits | loops => exact .inl fun _ => .inl rfl
  | runBegins n env c k b hpc hk hinit hr | shutsDown n env c hpc hinit hr =>
      simp [hrun] at hr
  | runPrepares n env c k tape hpc =>
      exact .inl (.of_update rfl (inside hpc rfl rfl) (by simp))
  | spawns n env c k j hpc => exact .inl (.of_update rfl (inside hpc rfl rfl) (by simp))
  | launches n env c hpc =>
      refine .inl (.of_update rfl ?_ (by simp))
      rcases hpc with ⟨k, hpc⟩ | ⟨k, j, hpc, -⟩
      · exact inside hpc rfl rfl
      · exact inside hpc rfl rfl
  | halts n env c hpc =>
      exact .inl (.of_update rfl (.trans rfl (congrArg Pc.inRun hpc).symm) (by simp))
  | dispatches w env t q =>
      exact .inl (.of_update rfl (hok.dispatched_inRun.trans (hok.run.task t).symm)
        fun c => hok.dispatched_place rfl)
  | runFails n env c k tape hpc => exact .inr (.fails n env c k hpc rfl)
  | aborts n env c k j hpc => exact .inr (.aborts n env c k j hpc (Function.update_self ..))
  | runEnds n env c hpc hl hall => exact .inr (.of_runLoop hpc hall)
  | abortEnds n env c hpc => exact .inr (.abortEnds n env c hpc)

/-- Only a worker that leaves changes the verdict of a run that has been told to stop. -/
theorem Case.keepsVerdict (hc : Case s act s') (hok : s.Ok) (hrun : s.rt.running = true)
    (hd : s.Draining) : s'.verdict = s.verdict ∨
      (∃ w env, act = .worker w env ∧ s'.workers w = .exited) ∨ s.Stops act s' := by
  cases hc with
  | calls a call => exact .inl (by cases a <;> rfl)
  | acts a env c o p es os sel hen hcall hp hr _ hsec hon =>
      exact .inl (verdict_of_control (hsec.passes hok.rest).control rfl)
  | resumesFd | returns | goesOn | writes | descriptors | runPrepares | spawns | launches | starts =>
      exact .inl rfl
  | parks w t env c p hw hl hcall hnp hp hm =>
      have hws := hok.rest.noWaiters t ((hok.runs t).mpr ⟨w, hw⟩)
      have hleave := Moves.control_eq (Shifts.moves hm.shifts)
      obtain ⟨h1, h2, h3, -⟩ := control_fields (hp.frame hws).2.2
      exact .inl (verdict_of_control hleave (congrArg₂ Prod.mk h1 (congrArg₂ Prod.mk h2 h3)))
  | finishes w t hw hl hpc hb => exact .inl (verdict_of_control hb.control_eq rfl)
  | runBegins n env c k b hpc hk hinit hr | shutsDown n env c hpc hinit hr =>
      simp [hrun] at hr
  | halts n env c hpc hr hm =>
      have hctrl := Moves.control_eq (Shifts.moves (FdShifts.shifts hm))
      obtain ⟨h1, h2, h3, -⟩ := control_fields hctrl
      refine .inl (congrArg₂ Prod.mk h1 (congrArg₂ Prod.mk (h2.trans ?_) (h3.trans ?_)))
      · exact hd.stopping.symm
      · exact hd.result.symm
  | startFails w env | exits w env =>
      exact .inr (.inl ⟨w, env, rfl, Function.update_self ..⟩)
  | loops w q lock hact hl hm =>
      exact .inl (verdict_of_control (Moves.control_eq (Shifts.moves (Ticks.shifts hm))) rfl)
  | dispatches w env t q hw hl hq hm =>
      exact .inl (verdict_of_control (Moves.control_eq (Shifts.moves hm.shifts)) rfl)
  | runFails n env c k tape hpc => exact .inr (.inr (.fails n env c k hpc rfl))
  | aborts n env c k j hpc =>
      exact .inr (.inr (.aborts n env c k j hpc (Function.update_self ..)))
  | runEnds n env c hpc hl hall => exact .inr (.inr (.of_runLoop hpc hall))
  | abortEnds n env c hpc => exact .inr (.inr (.abortEnds n env c hpc))

/-- No other step takes a worker out of its loop or to a wait of the back end. -/
theorem Case.keepsWorkers (hc : Case s act s') (hact : ∀ w env, act ≠ .worker w env)
    (hcollect : ∀ w batch, act ≠ .collect w batch) :
    (∀ w p, p = .exited ∨ (∃ k, p = .polling k) → s'.workers w = p → s.workers w = p) ∨
      s.Stops act s' := by
  have same : ∀ w p, p = .exited ∨ (∃ k, p = .polling k) → s.workers w = p → s.workers w = p :=
    fun _ _ _ => id
  cases hc with
  | calls a call => exact .inl (by cases a <;> exact same)
  | acts | resumesFd | returns | goesOn | writes | descriptors | runBegins | runPrepares | halts
  | shutsDown => exact .inl same
  | parks | finishes | spawns | launches =>
      exact .inl (update_workers (by simp) (by simp))
  | runFails n env c k tape hpc => exact .inr (.fails n env c k hpc rfl)
  | aborts n env c k j hpc => exact .inr (.aborts n env c k j hpc (Function.update_self ..))
  | runEnds n env c hpc hl hall => exact .inr (.of_runLoop hpc hall)
  | abortEnds n env c hpc => exact .inr (.abortEnds n env c hpc)
  | starts w env | startFails w env | exits w env | dispatches w env => exact absurd rfl (hact w env)
  | loops w q lock h =>
      rcases h with ⟨env, rfl⟩ | ⟨batch, rfl⟩
      · exact absurd rfl (hact w env)
      · exact absurd rfl (hcollect w batch)

theorem Case.other_workers {env : Env} (hc : Case s (.worker w env) s') {v : Nat} (hv : v ≠ w) :
    s'.workers v = s.workers v := by
  cases hc with
  | descriptors os interest filters hact => simp at hact
  | loops u q lock hact =>
      obtain ⟨e, rfl, -⟩ | ⟨batch, h⟩ := hact
      · exact Function.update_of_ne hv _ _
      · cases h
  | starts | startFails | exits | dispatches => exact Function.update_of_ne hv _ _

/-- A step that stops the run ends it with the verdict of the shutdown. -/
theorem Stops.drains (hstop : s.Stops act s') (hok : s.Ok) (h : s.Drain) (hg : s.Ongoing act)
    (hs : machine.step s act = some s') : s.Drains act s' ∧ (s'.rt.running = true → s'.Drain) := by
  cases hstop with
  | fails n env c k hpc hoff =>
      have hon := (step_runAlloc hpc hg.startsUp hs).trans hg.running
      simp [hoff] at hon
  | aborts n env c k j hpc hpc' => exact absurd hpc' (step_runSpawn hpc hg.startsUp hs c)
  | abortEnds n env c hpc => exact absurd hpc (h.noAbort _ c)
  | ends n env c hpc hall hoff hpc' hw hlog =>
      refine ⟨hok.drain_ends hpc hpc' hall hw (h.draining.result ▸ hlog), fun hon => ?_⟩
      simp [hoff] at hon

/-- A batch of events comes in. -/
theorem workers_of_collect {batch : List ReadyEvent}
    (hs : machine.step s (.collect w batch) = some s') : ∀ v p,
      p = .exited ∨ (∃ k, p = .polling k) → s'.workers v = p → s.workers v = p := by
  simp only [machine, Sys.step] at hs
  split at hs
  · rw [← Option.some.inj hs]
    exact update_workers (by simp) (by simp)
  · cases hs

theorem Ok.drain_step (hok : s.Ok) (h : s.Drain) (hg : s.Ongoing act)
    (hs : machine.step s act = some s') :
    s.Drains act s' ∧ (s'.rt.running = true → s'.Drain) := by
  obtain ⟨s₀, hp, hc⟩ := hok.step_cases hg.contract hs
  obtain ⟨tape, rfl⟩ : ∃ tape, s₀ = s.tick tape := by
    rcases hp.cases hok with htick | ⟨hinit, -⟩
    · exact htick
    · have hon := hg.running
      simp [(hok.off hinit).2] at hon
  have stops : (s.tick tape).Stops act s' → s.Drains act s' ∧ (s'.rt.running = true → s'.Drain) :=
    fun hstop => hstop.of_tick.drains hok h hg hs
  rcases hc.keepsRun (hok.tick tape) hg.running with hkeep | hstop
  case inr => exact stops hstop
  rcases hc.keepsVerdict (hok.tick tape) hg.running ⟨h.draining.stopping, h.draining.result⟩ with
    hverdict | hleaves | hstop
  case inr.inr => exact stops hstop
  · by_cases hact : ∃ w env, act = .worker w env
    · obtain ⟨w, env, rfl⟩ := hact
      obtain ⟨hstep, hd⟩ := h.worker hg.running hg.startsUp hs hkeep
        (fun v hv => hc.other_workers hv) fun _ => hverdict
      exact ⟨hstep, fun _ => hd⟩
    · have hother : ∀ w env, act ≠ .worker w env := fun w env heq => hact ⟨w, env, heq⟩
      have hon : s'.rt.running = true := (congrArg Prod.fst hverdict).trans hg.running
      have hworkers : (∀ w p, p = .exited ∨ (∃ k, p = .polling k) → s'.workers w = p →
          s.workers w = p) ∨ (s.tick tape).Stops act s' := by
        by_cases hcollect : ∃ w batch, act = .collect w batch
        · obtain ⟨w, batch, rfl⟩ := hcollect
          exact .inl (workers_of_collect hs)
        · exact hc.keepsWorkers hother fun w batch heq => hcollect ⟨w, batch, heq⟩
      rcases hworkers with hworkers | hstop
      · obtain ⟨hstep, hd⟩ := h.others hother hworkers hkeep hon (h.verdict hverdict)
        exact ⟨hstep, fun _ => hd⟩
      · exact stops hstop
  · obtain ⟨w, env, rfl, hex⟩ := hleaves
    obtain ⟨hstep, hd⟩ := h.worker hg.running hg.startsUp hs hkeep
      (fun v hv => hc.other_workers hv) fun hne => absurd hex hne
    exact ⟨hstep, fun _ => hd⟩

/-! ## The run of the drain -/

/-- A ready task stays so until it gets a processor or is cancelled. -/
theorem Ok.ready_step (h : s.Ok) (hg : s.Ongoing act) (hs : machine.step s act = some s')
    (hr : s.rt.Ready t) : s'.rt.Ready t ∨ s.Resumes t act ∨ s.CancelsTask t act := by
  obtain ⟨es, hes⟩ := h.turned hg.contract hs
  have hi := h.rest.inv
  obtain ⟨s₀, hp, hc⟩ := h.step_cases hg.contract hs
  have hi' := (hc.ok (hp.ok h)).rest.inv
  rcases hes.scheduled.queue.accounted (hi.ready_iff.mp hr) with hserve | hwithdraw | hmem
  · exact .inr (.inl (hes.served t hserve))
  · obtain ⟨-, -, hkill⟩ := hes.withdrawn t hwithdraw
    cases hkill with
    | cancel a env c x hpc htask => exact .inr (.inr ⟨a, env, c, x, rfl, hpc, htask⟩)
    | shutdown n env c hpc hinit hoff =>
        have hon := hg.running
        simp [hoff] at hon
  · exact .inl (hi'.ready_iff.mpr hmem)

/-- In one of these steps the task gets a processor or is cancelled. -/
def Handled (l : List (Sys × Act)) (t : TaskId) : Prop :=
  ∃ x ∈ l, x.1.Resumes t x.2 ∨ x.1.CancelsTask t x.2

theorem Handled.snoc {l : List (Sys × Act)} {x : Sys × Act} (h : Handled l t) :
    Handled (l ++ [x]) t := by
  obtain ⟨y, hy, hdone⟩ := h
  exact ⟨y, List.mem_append_left _ hy, hdone⟩

/-- What holds after a run from the state in which the shutdown leaves the runtime. -/
structure Drained (s : Sys) (l : List (Sys × Act)) (s' : Sys) : Prop where
  drain : s'.rt.running = true → s'.Drain
  ready : ∀ t, s.rt.Ready t → s'.rt.Ready t ∨ Handled l t
  exited : ∀ w, s'.workers w = .exited → ∀ t, s.rt.Ready t → Handled l t

theorem Drained.step {l : List (Sys × Act)} (h : s.Drained l m) (hok : m.Ok) (hg : m.Ongoing act)
    (hs : machine.step m act = some m') : s.Drained (l ++ [(m, act)]) m' := by
  obtain ⟨hstep, hnext⟩ := hok.drain_step (h.drain hg.running) hg hs
  refine ⟨hnext, fun t ht => ?_, fun w hw t ht => ?_⟩
  · rcases h.ready t ht with hready | hdone
    · rcases hok.ready_step hg hs hready with hstill | hhandled
      · exact .inl hstill
      · exact .inr ⟨(m, act), by simp, hhandled⟩
    · exact .inr hdone.snoc
  · by_cases hold : m.workers w = .exited
    · exact (h.exited w hold t ht).snoc
    · -- the run queue was empty when the worker left
      have hq := hstep.leaves w hold hw
      rcases h.ready t ht with hready | hdone
      · have hmem := hok.rest.inv.ready_iff.mp hready
        simp [hq] at hmem
      · exact hdone.snoc

theorem drained_of_run {s : Sys} {l : List (Sys × Act)} (h : machine.Reach Sys.Contract s)
    (hd : s.Drain) (hw : ∀ w, s.workers w ≠ .exited) (hp : machine.Run Ongoing s l m) :
    s.Drained l m := by
  induction hp with
  | nil => exact ⟨fun _ => hd, fun t ht => .inl ht, fun w hex => absurd hex (hw w)⟩
  | snoc hp hg hs ih =>
      have hm := ok_of_reach (fun _ _ hc => hc) (h.path (hp.path.mono fun _ _ hg => hg.contract))
      exact ih.step hm hg hs

/-- `mt_shutdown` during a run completes every wait for a descriptor. -/
theorem shutdownRunning_cancels {r : Rt} (h : r.Inv) {v : FdWaiterId} (hv : v ∈ r.fdWaiters)
    (hact : (r.fdw v).state = .active) :
    (r.shutdownRunning.fdw v).state ≠ .active ∧ r.shutdownRunning.Ready (r.fdw v).task ∧
      (r.shutdownRunning.task (r.fdw v).task).fdResult = .cancelled := by
  have hinv : r.halt.Inv := h.congr (by constructor <;> rfl) rfl rfl rfl rfl
  have hshifts := h.shutdownRunning
  have hidle := h.shutdownRunning_idle hv
  obtain ⟨hmem, hlink, -, hwaits⟩ := h.fd.owner v hv
  have hends := Ticks.answers (FdShifts.ticks hshifts) hinv (fun batch hk => by cases hk) hmem
    (hwaits.mp hact) hlink
  have hall := Moves.allTasks_eq (Shifts.moves (FdShifts.shifts hshifts))
  rcases hends with ⟨-, hsame⟩ | ⟨rc, ready, ⟨rfl, -⟩, htask⟩
  · exact absurd ((congrArg FdWaiter.state hsame).trans hact) hidle
  · refine ⟨hidle, ⟨hall.symm ▸ hmem, ?_⟩, ?_⟩ <;> rw [htask] <;> rfl

/-- It leaves the ready tasks ready. -/
theorem Ok.shutdown_wakes (h : s.Ok) {n : Nat} {c : CallId} {env : Env}
    (hpc : s.pc (.ext n) = .called c .shutdown) (hrun : s.rt.running = true)
    (hs : machine.step s (.cont (.ext n) env) = some s') :
    (∀ v ∈ s.rt.fdWaiters, (s.rt.fdw v).state = .active →
      (s'.rt.fdw v).state ≠ .active ∧ s'.rt.Ready (s.rt.fdw v).task ∧
        (s'.rt.task (s.rt.fdw v).task).fdResult = .cancelled) ∧
    (∀ t, s.rt.Ready t → s'.rt.Ready t) ∧ s'.Draining ∧ s'.workers = s.workers ∧
      s'.pc = Function.update s.pc (.ext n) .user := by
  have h₀ := h.tick env.tape
  have hi := h₀.rest.inv
  obtain ⟨us, hus⟩ := hi.shutdownRunning_wakes
  have hmoves := Shifts.moves (FdShifts.shifts hi.shutdownRunning)
  have hi' : (s.tick env.tape).rt.shutdownRunning.Inv :=
    Moves.inv hmoves (hi.congr (by constructor <;> rfl) rfl rfl rfl rfl)
  obtain ⟨-, hstop, hres, -⟩ := control_fields (Moves.control_eq hmoves)
  have hcancels := fun v hv => shutdownRunning_cancels hi (v := v) hv
  rw [callApi_of_step (a := .ext n) hpc hs, callApi_shutdown h₀ hrun, ret_eq]
  generalize (s.tick env.tape).rt.shutdownRunning = r at *
  refine ⟨hcancels, fun t ht => ?_, ⟨hstop, hres⟩, rfl, rfl⟩
  have hmem : t ∈ r.runq.items := by
    rw [hus.runq]
    exact List.mem_append_left _ (hi.ready_iff.mp ht)
  exact hi'.ready_iff.mpr hmem

/-- `mt_shutdown` is called while a run is in progress that has no verdict yet. The waits
for descriptors end with `MT_ERR_CANCELLED`, and from then on the workers drain: every task
that is ready now gets a processor before the run ends, unless it is cancelled. -/
theorem shutdown_drains {s₁ : Sys} (h : machine.Reach Sys.Contract s) {n : Nat} {c : CallId}
    {env : Env} (hpc : s.pc (.ext n) = .called c .shutdown) (hrun : s.rt.running = true)
    (hgo : s.rt.stopping = false) (hs : machine.step s (.cont (.ext n) env) = some s₁) :
    (∀ v ∈ s.rt.fdWaiters, (s.rt.fdw v).state = .active →
      (s₁.rt.fdw v).state ≠ .active ∧ s₁.rt.Ready (s.rt.fdw v).task ∧
        (s₁.rt.task (s.rt.fdw v).task).fdResult = .cancelled) ∧
    (∀ t, s.rt.Ready t → s₁.rt.Ready t) ∧
    ∀ l m act m', machine.Run Ongoing s₁ l m → m.Ongoing act → machine.step m act = some m' →
      m.Drains act m' ∧ (m'.rt.running = false → ∀ t, s₁.rt.Ready t → Handled l t) := by
  have hok := ok_of_reach (fun _ _ hc => hc) h
  obtain ⟨hcancelled, hready, hdrain, hworkers, hplaces⟩ := hok.shutdown_wakes hpc hrun hs
  refine ⟨hcancelled, hready, fun l m act m' hp hg hstep => ?_⟩
  have hc : s.Contract (.cont (.ext n) env) := by
    simp [Sys.Contract, Sys.SectionOk, Actor.agent, hpc, hrun]
  have h₁ : machine.Reach Sys.Contract s₁ := .step h hc hs
  have hd : s₁.Drain := by
    refine ⟨hdrain, fun a d ha => ?_⟩
    have hold := place_of_update (s := s) .runAbort (by simp) a d (hplaces ▸ ha)
    have hstop := (run_places h).2 a d hold
    simp [hgo] at hstop
  have hw : ∀ w, s₁.workers w ≠ .exited := fun w hex => by
    have hstop := hok.run.exited w (hworkers ▸ hex)
    simp [hgo] at hstop
  have hdrained := drained_of_run h₁ hd hw hp
  have hm := h₁.path (hp.path.mono fun _ _ hg => hg.contract)
  have hokm := ok_of_reach (fun _ _ hc => hc) hm
  obtain ⟨hdrains, -⟩ := hokm.drain_step (hdrained.drain hg.running) hg hstep
  refine ⟨hdrains, fun hoff => ?_⟩
  -- worker 0 has left its loop
  obtain ⟨⟨j, hin, hout⟩, hall⟩ := hdrains.ends hoff
  obtain ⟨d, hloop, -⟩ := hdrains.returns j hin hout
  have hne : m.workers 0 ≠ .off := (run_places hm).1 _ d hloop
  exact hdrained.exited 0 ((hall 0 (hokm.run.bound 0 hne).1).resolve_right hne)

/-- A task waits for a descriptor and the worker polls when another thread shuts down. The
task is resumed, and the run returns `MT_ERR_CANCELLED`. -/
theorem shutdown_drains_waiter : ∃ s s₁ l m m' v, machine.Reach Sys.Contract s ∧
    v ∈ s.rt.fdWaiters ∧ (s.rt.fdw v).state = .active ∧ (s.rt.fdw v).task = 0 ∧
    machine.step s (.cont (.ext 1) {}) = some s₁ ∧ (s₁.rt.task 0).fdResult = .cancelled ∧
    machine.Run Ongoing s₁ l m ∧ machine.step m (.cont (.ext 0) {}) = some m' ∧
    Handled l 0 ∧ m.Drains (.cont (.ext 0) {}) m' := by
  let test : Sys → Act → Bool := fun s a => s.promised a && decide (s.StartsUp a) && s.rt.running
  have htest : ∀ s a, test s a = true → Ongoing s a := fun s a ha => by
    simp only [test, Bool.and_eq_true, decide_eq_true_eq] at ha
    exact ⟨contract_of_promised ha.1.1, ha.1.2, ha.2⟩
  obtain ⟨s, hs, hp⟩ := reach_of_promised .poll (List.flatten [waitingTrace 1,
      [.cont (.task 0 0) {}], works 0, [.api (.ext 1) .shutdown]])
    (fun s => s.pc (.ext 1) == .called 3 .shutdown && s.rt.running && !s.rt.stopping &&
      s.rt.fdWaiters.contains 1 && (s.rt.fdw 1).state == .active && (s.rt.fdw 1).task == 0 &&
      (machine.step s (.cont (.ext 1) {})).any fun s₁ : Sys =>
        (machine.replay test s₁ (List.flatten [[.collect 0 []], works 0 2, [.cont (.task 0 0) {},
            .finish 0 0], works 0])).any fun m : Sys =>
          test m (.cont (.ext 0) {}) && (machine.step m (.cont (.ext 0) {})).any fun m' : Sys =>
            !m'.rt.running) (by decide +kernel)
  simp only [Bool.and_eq_true, beq_iff_eq, Option.any_eq_true, Bool.not_eq_true',
    List.contains_iff_mem] at hp
  obtain ⟨⟨⟨⟨⟨⟨hpc, hrun⟩, hgo⟩, hv⟩, hact⟩, htask⟩, s₁, hstep, m, hreplay, hm, m', hend, hoff⟩ := hp
  have hpath : machine.Path Ongoing s₁ m := Machine.Path.refl.replay htest hreplay
  obtain ⟨l, hl⟩ := hpath.run
  obtain ⟨hcancelled, -, hdrains⟩ := shutdown_drains hs hpc hrun hgo hstep
  obtain ⟨-, hready, hres⟩ := hcancelled 1 hv hact
  obtain ⟨hlast, hhandled⟩ := hdrains l m _ m' hl (htest m _ hm) hend
  rw [htask] at hready hres
  exact ⟨s, s₁, l, m, m', 1, hs, hv, hact, htask, hstep, hres, hl, hend, hhandled hoff 0 hready,
    hlast⟩

end Sys

end Microthread
