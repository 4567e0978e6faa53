import Microthread.Properties.Counters

/-!
# Runs with one worker

All calls are made by the tasks and by one external thread, and `mt_run` gets one
worker. In these runs the worker loop decides exactly: it never enters the
untimed wait of its idle branch, and it stops when nothing can happen any more.
-/

namespace Microthread

open Foundation Rt

/-- The places of the external thread that runs at most one worker. -/
def Pc.Single : Pc → Prop
  | .called _ (.run k _) => k = 1
  | .runAlloc _ k => k = 1
  | .runSpawn .. | .runAbort _ => False
  | _ => True

theorem Onward.single {c : CallId} {q p : Pc} {r : Rt} {o : Option (Role × Rc)} {es : List Event}
    (hon : Onward c q r o p es) : p.Single ∧ p.inRun = false := by
  cases hon with
  | on _ hc hp hr _ hfol =>
      refine ⟨?_, hr⟩
      cases p with
      | called => exact hfol.elim
      | runAlloc => cases hr
      | runSpawn => cases hr
      | runAbort => cases hr
      | _ => trivial
  | out => exact ⟨trivial, rfl⟩

namespace Sys

variable {s s' : Sys} {w : Nat} {t : TaskId}

/-- Every `mt_run` gets one worker. -/
def Lone (_ : Sys) : Act → Prop
  | .api (.ext _) (.run k _) => k = 1
  | _ => True

/-- Only one external thread calls the API, and it runs one worker. -/
def Solo (_ : Sys) : Act → Prop
  | .api (.ext n) (.run k _) => n = 0 ∧ k = 1
  | .api (.ext n) _ => n = 0
  | _ => True

instance (s : Sys) (a : Act) : Decidable (s.Lone a) := by
  unfold Lone
  split <;> infer_instance

instance (s : Sys) (a : Act) : Decidable (s.Solo a) := by
  unfold Solo
  split <;> infer_instance

theorem Lone.single {n : Nat} {call : Api} (h : s.Lone (.api (.ext n) call)) (c : CallId) :
    (Pc.called c call).Single := by
  cases call with
  | run k b => exact h
  | _ => trivial

theorem Solo.lone {act : Act} (h : s.Solo act) : s.Lone act := by
  cases act with
  | api a call =>
      cases a with
      | ext n =>
          cases call with
          | run k b => exact h.2
          | _ => trivial
      | task w t => trivial
  | _ => trivial

theorem Solo.ext {n : Nat} {call : Api} (h : s.Solo (.api (.ext n) call)) (c : CallId) :
    n = 0 ∧ (Pc.called c call).Single := by
  cases call with
  | run k b => exact h
  | _ => exact ⟨h, trivial⟩

theorem control_fields {r r' : Rt} (h : r'.control = r.control) : r'.running = r.running ∧
    r'.stopping = r.stopping ∧ r'.runResult = r.runResult ∧ r'.workerCount = r.workerCount := by
  simp only [Rt.control, Prod.mk.injEq] at h
  exact ⟨h.2.1, h.2.2.1, h.2.2.2.1, h.2.2.2.2.1⟩

/-! ## One worker, and other threads that call the API -/

/-- A running runtime has one worker. -/
structure Manned (s : Sys) : Prop where
  place : ∀ n, (s.pc (.ext n)).Single
  count : s.rt.running = true → s.rt.workerCount = 1

theorem Manned.at (h : s.Manned) {n : Nat} {p : Pc} (hpc : s.pc (.ext n) = p) : p.Single :=
  hpc ▸ h.place n

/-- In a run of one worker every worker that is not off is worker 0. -/
theorem Manned.worker (h : s.Manned) (hok : s.Ok) (hw : s.workers w ≠ .off) : w = 0 := by
  obtain ⟨hlt, hr⟩ := hok.run.bound w hw
  have := h.count hr
  omega

/-- One agent goes to `p`. -/
theorem Manned.moves (h : s.Manned) {g : Agent} {p : Pc} (hpc : s'.pc = Function.update s.pc g p)
    (hp : ∀ n, g = .ext n → p.Single)
    (hcount : s'.rt.running = true → s'.rt.workerCount = 1) : s'.Manned := by
  refine ⟨fun n => ?_, hcount⟩
  by_cases hg : Agent.ext n = g
  · rw [hpc, ← hg, Function.update_self]
    exact hp n hg.symm
  · rw [hpc, Function.update_of_ne hg]
    exact h.place n

theorem Case.manned {act : Act} (hc : Case s act s') (hok : s.Ok) (h : s.Manned)
    (hone : s.Lone act) : s'.Manned := by
  have counted : ∀ {r b : Rt}, r.control = b.control → b.running = s.rt.running →
      b.workerCount = s.rt.workerCount → r.running = true → r.workerCount = 1 :=
    fun hctrl hrun hcount hr => by
      obtain ⟨h1, -, -, h3⟩ := control_fields hctrl
      exact (h3.trans hcount).trans (h.count (hrun ▸ h1 ▸ hr))
  cases hc with
  | calls a call =>
      cases a with
      | ext n => exact h.moves rfl (fun _ _ => hone.single s.nextCall) h.count
      | task w t => exact h.moves rfl (fun _ hg => by cases hg) h.count
  | acts a env c o p es os sel hen hcall hp hr _ hs hon =>
      exact h.moves rfl (fun _ _ => hon.single.1) (counted (hs.passes hok.rest).control rfl rfl)
  | resumesFd | returns | goesOn => exact h.moves rfl (fun _ hg => by cases hg) h.count
  | parks w t env c p hw hl hcall hnp hp hm =>
      have hws := hok.rest.noWaiters t ((hok.runs t).mpr ⟨w, hw⟩)
      obtain ⟨h1, -, -, h3⟩ := control_fields (hp.frame hws).2.2
      exact h.moves rfl (fun _ hg => by cases hg)
        (counted (Moves.control_eq (Shifts.moves hm.shifts)) h1 h3)
  | finishes w t hw hl hpc hb =>
      exact h.moves rfl (fun _ hg => by cases hg) (counted hb.control_eq rfl rfl)
  | dispatches w env t q hw hl hq hm =>
      exact h.moves rfl (fun _ hg => by cases hg)
        (counted (Moves.control_eq (Shifts.moves hm.shifts)) rfl rfl)
  | loops w q lock _ hl hm =>
      exact ⟨h.place, counted (Moves.control_eq (Shifts.moves (Ticks.shifts hm))) rfl rfl⟩
  | writes | descriptors | starts | startFails | exits => exact ⟨h.place, h.count⟩
  -- `mt_run_internal` and `mt_shutdown`
  | runBegins n env c k sleep hpc =>
      have hone : k = 1 := h.at hpc
      exact h.moves rfl (fun _ _ => hone) fun _ => hone
  | runPrepares n env c k tape hpc hk =>
      obtain rfl : k = 1 := h.at hpc
      exact absurd hk (lt_irrefl 1)
  | spawns n env c k j hpc => exact (h.at hpc).elim
  | aborts n env c k j hpc => exact (h.at hpc).elim
  | abortEnds n env c hpc => exact (h.at hpc).elim
  | launches => exact h.moves rfl (fun _ _ => trivial) h.count
  | runFails | runEnds => exact h.moves rfl (fun _ _ => trivial) fun hr => by cases hr
  | halts n env c hpc hr hm =>
      have hctrl : _ = s.rt.halt.control := Moves.control_eq (Shifts.moves (FdShifts.shifts hm))
      obtain ⟨-, -, -, h3⟩ := control_fields hctrl
      exact h.moves rfl (fun _ _ => trivial) fun _ => h3.trans (h.count hr)
  | @shutsDown n env c rt hpc hinit hr halone hd =>
      have hnot : rt.running = true → rt.workerCount = 1 := fun hrun => by
        simp [hd.running] at hrun
      exact h.moves rfl (fun _ _ => trivial) hnot

theorem manned_of_reach {cond : Sys → Act → Prop} (hcond : ∀ s a, cond s a → s.Lone a)
    (h : machine.Reach (Under cond) s) : s.Manned := by
  refine invariant_of_cases (C := Lone) (fun kind => ?_) (fun s s₀ hok hp hs => ?_)
    (fun _ _ _ _ _ hc => hc) (fun s a s' hok hs hc hcase => hcase.manned hok hs hc)
    (h.mono fun s a hc => ⟨hc.1, hcond s a hc.2⟩)
  · exact ⟨fun _ => trivial, nofun⟩
  · rcases hp.cases hok with ⟨tape, rfl⟩ | ⟨-, -, rt, hb, rfl⟩
    · exact ⟨hs.place, hs.count⟩
    · exact ⟨hs.place, fun hr => by simp [hb.running] at hr⟩

/-! ## One worker, and one thread that calls the API -/

/-- What holds in runs with one worker. -/
structure Single (s : Sys) : Prop extends Manned s where
  others : ∀ n, n ≠ 0 → s.pc (.ext n) = .user
  runner : s.rt.running = true → (s.pc (.ext 0)).inRun = true
  going : s.rt.running = true → s.rt.stopping = true → s.workers 0 = .exited

theorem Single.zero (h : s.Single) {n : Nat} (hn : s.pc (.ext n) ≠ .user) : n = 0 := by
  by_contra hne
  exact hn (h.others n hne)

/-- The worker that has not left its loop has not been told to stop. -/
theorem Single.not_stopping (h : s.Single) (hok : s.Ok) (hw : s.workers w ≠ .off)
    (hne : s.workers w ≠ .exited) : s.rt.stopping = false := by
  obtain rfl := h.worker hok hw
  have hr := (hok.run.bound 0 hw).2
  cases hs : s.rt.stopping with
  | false => rfl
  | true => exact absurd (h.going hr hs) hne

theorem moves_others {pc : Agent → Pc} (h : ∀ n, n ≠ 0 → pc (.ext n) = .user) {g : Agent} {p : Pc}
    (hp : ∀ n, g = .ext n → n ≠ 0 → p = .user) :
    ∀ n, n ≠ 0 → Function.update pc g p (.ext n) = .user := by
  intro n hn
  rw [Function.update_apply]
  split
  · next heq => exact hp n heq.symm hn
  · exact h n hn

theorem Case.others {act : Act} (hc : Case s act s') (h : s.Single) (hsolo : s.Solo act) :
    ∀ n, n ≠ 0 → s'.pc (.ext n) = .user := by
  have task : ∀ (t : TaskId) (p : Pc) n, n ≠ 0 →
      Function.update s.pc (.task t) p (.ext n) = .user := fun t p =>
    moves_others h.others fun n hn => by cases hn
  -- an external thread inside a function is thread 0
  have inside : ∀ (m : Nat) (p : Pc), s.pc (.ext m) ≠ .user →
      ∀ n, n ≠ 0 → Function.update s.pc (.ext m) p (.ext n) = .user := fun m p hpc =>
    moves_others h.others fun n heq hn => by
      obtain rfl := Agent.ext.inj heq
      exact absurd (h.others _ hn) hpc
  cases hc with
  | calls a call =>
      refine moves_others h.others fun n hn hne => ?_
      cases a with
      | task w t => cases hn
      | ext m =>
          obtain rfl := Agent.ext.inj hn
          exact absurd (hsolo.ext s.nextCall).1 hne
  | acts a env c o p es os sel hen hcall =>
      refine moves_others h.others fun n hn hne => ?_
      rw [hn, h.others n hne] at hcall
      cases hcall
  | resumesFd w t env c v use o p => exact task t p
  | returns w t | goesOn w t => exact task t .user
  | parks w t env c p => exact task t p
  | finishes w t => exact task t .finished
  | dispatches w env t => exact task t (if s.pc (.task t) = .fresh then .user else s.pc (.task t))
  | runBegins n env c k b hpc | runPrepares n env c k tape hpc | spawns n env c k j hpc
  | aborts n env c k j hpc => exact inside n _ (by simp [hpc])
  | launches n env c hpc =>
      exact inside n _ (by rcases hpc with ⟨k, hk⟩ | ⟨k, j, hk, -⟩ <;> simp [hk])
  | runFails | runEnds | abortEnds | halts | shutsDown =>
      exact moves_others h.others fun _ _ _ => rfl
  | _ => exact h.others

theorem Case.runner {act : Act} (hc : Case s act s') (hok : s.Ok) (h : s.Single)
    (hr : s'.rt.running = true) : (s'.pc (.ext 0)).inRun = true := by
  have stays : ∀ (t : TaskId) (p : Pc), s.rt.running = true →
      (Function.update s.pc (.task t) p (.ext 0)).inRun = true := fun t p hr => by
    rw [Function.update_of_ne (by simp)]
    exact h.runner hr
  have moves : ∀ {n : Nat} {p : Pc}, s.pc (.ext n) ≠ .user → p.inRun = true →
      (Function.update s.pc (.ext n) p (.ext 0)).inRun = true := fun hpc hp => by
    rw [h.zero hpc, Function.update_self]
    exact hp
  have control : ∀ {r b : Rt}, r.control = b.control → b.running = s.rt.running →
      r.running = true → s.rt.running = true :=
    fun hctrl hb hr => hb ▸ (control_fields hctrl).1 ▸ hr
  cases hc with
  | calls a call hen hpc =>
      have hrun : s.rt.running = true := by cases a <;> exact hr
      cases a with
      | task w t => exact stays t (.called s.nextCall call) hrun
      | ext n =>
          -- thread 0 is in `mt_run`
          have hin := h.runner hrun
          have hne : Agent.ext 0 ≠ .ext n := fun heq => by
            rw [heq, show s.pc (.ext n) = .user from hpc] at hin
            cases hin
          exact (congrArg Pc.inRun (Function.update_of_ne hne _ _)).trans hin
  | acts a env c o p es os sel hen hcall hp hnr _ hs hon =>
      have hrun := control (hs.passes hok.rest).control rfl hr
      cases a with
      | task w t => exact stays t p hrun
      | ext n =>
          have hn := h.zero (n := n) fun hu => by simp [Actor.agent, hu, Pc.call?] at hcall
          subst hn
          exact absurd (h.runner hrun) (by rw [show (s.pc (.ext 0)).inRun = false from hnr]; simp)
  | resumesFd w t env c v use o p => exact stays t p hr
  | returns w t | goesOn w t => exact stays t .user hr
  | parks w t env c p hw hl hcall hnp hp hm =>
      have hws := hok.rest.noWaiters t ((hok.runs t).mpr ⟨w, hw⟩)
      have hrun := control (Moves.control_eq (Shifts.moves hm.shifts))
        (control_fields (hp.frame hws).2.2).1 hr
      exact stays t p hrun
  | finishes w t hw hl hpc hb => exact stays t .finished (control hb.control_eq rfl hr)
  | dispatches w env t q hw hl hq hm =>
      exact stays t (if s.pc (.task t) = .fresh then .user else s.pc (.task t))
        (control (Moves.control_eq (Shifts.moves hm.shifts)) rfl hr)
  | loops w q lock _ hl hm =>
      exact h.runner (control (Moves.control_eq (Shifts.moves (Ticks.shifts hm))) rfl hr)
  | writes | descriptors | starts | startFails | exits => exact h.runner hr
  | runBegins n env c k b hpc | runPrepares n env c k tape hpc | spawns n env c k j hpc
  | aborts n env c k j hpc => exact moves (by simp [hpc]) rfl
  | launches n env c hpc =>
      exact moves (by rcases hpc with ⟨k, hk⟩ | ⟨k, j, hk, -⟩ <;> simp [hk]) rfl
  | runFails | runEnds | abortEnds => cases hr
  | halts n env c hpc hrun hm =>
      have hn := h.zero (n := n) (by simp [hpc])
      subst hn
      exact absurd (h.runner hrun) (by simp [hpc, Pc.inRun])
  | shutsDown n env c hpc hinit hnr halone hd => exact absurd (hd.running.symm.trans hr) (by simp)

theorem Case.going {act : Act} (hc : Case s act s') (hok : s.Ok) (h : s.Single)
    (hr : s'.rt.running = true) (hstop : s'.rt.stopping = true) : s'.workers 0 = .exited := by
  -- a worker that takes a step has not been told to stop
  have told : ∀ {w : Nat} {r b : Rt}, s.workers w ≠ .off → s.workers w ≠ .exited →
      r.control = b.control → b.stopping = s.rt.stopping → r.stopping = true →
      s'.workers 0 = .exited := fun hoff hex hctrl hb hs => by
    have hno := h.not_stopping hok hoff hex
    rw [(control_fields hctrl).2.1, hb, hno] at hs
    cases hs
  cases hc with
  | calls a call => cases a <;> exact h.going hr hstop
  | acts a env c o p es os sel hen hcall hp hnr _ hs hon =>
      obtain ⟨h1, h2, -, -⟩ := control_fields (hs.passes hok.rest).control
      exact h.going (h1 ▸ hr) (h2 ▸ hstop)
  | resumesFd | returns | goesOn | writes | descriptors => exact h.going hr hstop
  | parks w t env c p hw hl hcall hnp hp hm =>
      have hws := hok.rest.noWaiters t ((hok.runs t).mpr ⟨w, hw⟩)
      exact told (w := w) (by simp [hw]) (by simp [hw]) (Moves.control_eq (Shifts.moves hm.shifts))
        (control_fields (hp.frame hws).2.2).2.1 hstop
  | finishes w t hw hl hpc hb =>
      exact told (w := w) (by simp [hw]) (by simp [hw]) hb.control_eq rfl hstop
  | dispatches w env t q hw hl hq hm =>
      exact told (w := w) (by simp [hw]) (by simp [hw])
        (Moves.control_eq (Shifts.moves hm.shifts)) rfl hstop
  | starts w env hw => exact told (w := w) (by simp [hw]) (by simp [hw]) rfl rfl hstop
  | loops w q lock _ hl hm =>
      have hact := hl.facts.1
      exact told (active_ne_off hact) (fun he => by simp [he, WorkerPc.active] at hact)
        (Moves.control_eq (Shifts.moves (Ticks.shifts hm))) rfl hstop
  | startFails w env hw =>
      obtain rfl := h.worker hok (w := w) (by simp [hw])
      simp [Sys.setWorker]
  | exits w env rc hw =>
      obtain rfl := h.worker hok (w := w) (active_ne_off (locked_active hw).1)
      simp [Sys.workerExit, Sys.setWorker]
  | runBegins => cases hstop
  | runPrepares n env c k tape hpc hk =>
      obtain rfl : k = 1 := h.at hpc
      exact absurd hk (lt_irrefl 1)
  | spawns n env c k j hpc => exact (h.at hpc).elim
  | aborts n env c k j hpc => exact (h.at hpc).elim
  | launches n env c hpc =>
      rcases hpc with ⟨k, hk⟩ | ⟨k, j, hk, -⟩
      · have hgone := h.going hr hstop
        rw [hok.run.alloc _ _ _ hk 0] at hgone
        cases hgone
      · exact (h.at hk).elim
  | runFails | runEnds | abortEnds => cases hr
  | halts n env c hpc hrun =>
      have hn := h.zero (n := n) (by simp [hpc])
      subst hn
      exact absurd (h.runner hrun) (by simp [hpc, Pc.inRun])
  | shutsDown n env c hpc hinit hnr halone hd => exact absurd (hd.running.symm.trans hr) (by simp)

theorem Case.single {act : Act} (hc : Case s act s') (hok : s.Ok) (h : s.Single)
    (hsolo : s.Solo act) : s'.Single where
  toManned := hc.manned hok h.toManned hsolo.lone
  others := hc.others h hsolo
  runner := hc.runner hok h
  going := hc.going hok h

theorem single_of_reach {cond : Sys → Act → Prop} (hcond : ∀ s a, cond s a → s.Solo a)
    (hprep : ∀ s s₀ a, s.Ok → s.Prepared s₀ → cond s a → cond s₀ a)
    (h : machine.Reach (Under cond) s) : s.Single := by
  refine invariant_of_cases (fun kind => ?_) (fun s s₀ hok hp hs => ?_) hprep
    (fun s a s' hok hs hc hcase => hcase.single hok hs (hcond s a hc)) h
  · exact ⟨⟨fun _ => trivial, nofun⟩, fun _ _ => rfl, nofun, nofun⟩
  · rcases hp.cases hok with ⟨tape, rfl⟩ | ⟨-, -, rt, hb, rfl⟩
    · exact ⟨⟨hs.place, hs.count⟩, hs.others, hs.runner, hs.going⟩
    · have hnot : ∀ {P : Prop}, rt.running = true → P := fun hr => by simp [hb.running] at hr
      exact ⟨⟨hs.place, fun hr => hnot hr⟩, hs.others, fun hr => hnot hr, fun hr => hnot hr⟩

/-! ## The untimed wait of the idle branch -/

theorem update_ne_idleWait {f : Nat → WorkerPc} {p : WorkerPc} (h : ∀ u, f u ≠ .idleWait)
    (hp : p ≠ .idleWait) (w v : Nat) : Function.update f w p v ≠ .idleWait := by
  by_cases hv : v = w
  · simpa [hv] using hp
  · simpa [hv] using h v

theorem workerPoll_ne_idleWait (s : Sys) (w v : Nat) (timed : Bool) (k : PollCont) (rt : Rt)
    (h : ∀ u, s.workers u ≠ .idleWait) : (s.workerPoll w timed k rt).workers v ≠ .idleWait := by
  unfold workerPoll
  split <;> exact update_ne_idleWait h (by simp) w v

theorem workerIdle_idleWait {env : Env} {v : Nat} (h : ∀ u, s.workers u ≠ .idleWait)
    (hv : (s.workerIdle w env).workers v = .idleWait) : s.rt.liveCount ≠ 0 ∧
      s.rt.fdWaitingCount = 0 ∧ s.rt.timerPeek = none ∧ ¬(s.rt.runningTasks = 0 ∧
        (0 < s.rt.channelWaitingCount ∨ 0 < s.rt.joinWaitingCount)) := by
  unfold workerIdle at hv
  split at hv
  · exact absurd hv (update_ne_idleWait h (by simp) w v)
  split at hv
  · exact absurd hv (update_ne_idleWait h (by simp) w v)
  next hlive =>
  split at hv
  · exact absurd hv (workerPoll_ne_idleWait s w v _ _ _ h)
  next hfd =>
  split at hv
  · next htimer =>
    split at hv
    · exact absurd hv (update_ne_idleWait h (by simp) w v)
    · next hcond =>
        refine ⟨hlive, by omega, htimer, fun hall => hcond ?_⟩
        simp [hall.1, hall.2]
  · split at hv
    · split at hv
      · exact absurd hv (update_ne_idleWait h (by simp) w v)
      · exact absurd hv (update_ne_idleWait h (by simp) w v)
    · exact absurd hv (update_ne_idleWait h (by simp) w v)

theorem workerStep_idleWait {env : Env} {v : Nat} (hs : s.workerStep w env = some s')
    (h : ∀ u, s.workers u ≠ .idleWait) (hv : s'.workers v = .idleWait) :
    s.workers w = .pop ∧ s.rt.runq.items = [] ∧ s.rt.liveCount ≠ 0 ∧
      s.rt.fdWaitingCount = 0 ∧ s.rt.timerPeek = none ∧ ¬(s.rt.runningTasks = 0 ∧
        (0 < s.rt.channelWaitingCount ∨ 0 < s.rt.joinWaitingCount)) := by
  have hpoll : ∀ (r : Sys) k, (∀ u, r.workers u ≠ .idleWait) →
      (r.pollCont w k).workers v ≠ .idleWait := fun r k hr => by
    cases k <;> exact update_ne_idleWait hr (by simp) w v
  unfold Sys.workerStep at hs
  split at hs
  · split at hs
    · cases hs
    split at hs <;> cases hs
    · exact absurd hv (update_ne_idleWait h (by simp) w v)
    · exact absurd hv (update_ne_idleWait h (by simp) w v)
  · split at hs
    · cases hs
      unfold Sys.workerTop at hv
      split at hv
      · exact absurd hv (update_ne_idleWait h (by simp) w v)
      split at hv
      · exact absurd hv (update_ne_idleWait h (by simp) w v)
      simp only at hv
      split at hv
      · exact absurd hv (workerPoll_ne_idleWait s w v _ _ _ h)
      · exact absurd hv (update_ne_idleWait h (by simp) w v)
    · cases hs
  · next hw =>
    split at hs
    · cases hs
      unfold Sys.workerPop at hv
      cases hq : s.rt.runq.pop with
      | some p =>
          simp only [Rt.runqPop, hq, Option.map_some] at hv
          split at hv <;>
            exact absurd hv (update_ne_idleWait h (by simp) w v)
      | none =>
          simp only [Rt.runqPop, hq, Option.map_none] at hv
          exact ⟨hw, Queue.pop_eq_none.mp hq, workerIdle_idleWait h hv⟩
    · cases hs
  · split at hs <;> cases hs
    exact absurd hv (hpoll _ _ h)
  · split at hs <;> cases hs
    exact absurd hv (hpoll _ _ h)
  · split at hs <;> cases hs
    exact absurd hv (update_ne_idleWait h (by simp) w v)
  · split at hs <;> cases hs
    exact absurd hv (update_ne_idleWait h (by simp) w v)
  · cases hs

/-- Only a worker's own step takes it to the untimed wait. -/
theorem Case.not_idleWait {act : Act} (hc : Case s act s') (h : ∀ u, s.workers u ≠ .idleWait)
    (hw : ∀ w env, act ≠ .worker w env) (hb : ∀ w batch, act ≠ .collect w batch) (v : Nat) :
    s'.workers v ≠ .idleWait := by
  cases hc with
  | parks | finishes | spawns | launches => exact update_ne_idleWait h (by simp) _ v
  | runEnds => simp [Sys.ret, Sys.setPc]
  | abortEnds => simp [Sys.ret, Sys.setPc]
  | starts w env => exact absurd rfl (hw w env)
  | startFails w env => exact absurd rfl (hw w env)
  | loops w q lock hact =>
      rcases hact with ⟨env, rfl⟩ | ⟨batch, rfl⟩
      · exact absurd rfl (hw w env)
      · exact absurd rfl (hb w batch)
  | exits w env => exact absurd rfl (hw w env)
  | dispatches w env => exact absurd rfl (hw w env)
  | _ => exact h v

/-- The steps of a run with one worker that cancels no task waiting for a channel or for
a join. -/
def SoloGentle (s : Sys) (a : Act) : Prop := s.Solo a ∧ s.Gentle a

instance (s : Sys) (a : Act) : Decidable (s.SoloGentle a) := inferInstanceAs (Decidable (_ ∧ _))

theorem SoloGentle.prepared {s₀ : Sys} {a : Act} (hg : s.SoloGentle a) (h : s.Ok)
    (hp : s.Prepared s₀) : s₀.SoloGentle a :=
  ⟨hg.1, hg.2.prepared h hp⟩

/-- While the only worker is in its loop without a task, no task runs. -/
theorem Single.runningTasks_eq_zero (h : s.Single) (hok : s.Ok) (hw : s.workers w ≠ .off)
    (hne : ∀ t, s.workers w ≠ .running t) : s.rt.runningTasks = 0 := by
  obtain rfl := h.worker hok hw
  rw [hok.rest.running, List.countP_eq_zero]
  intro t ht hrun
  obtain ⟨v, hv⟩ := (hok.runs t).mp ⟨ht, by simpa using hrun⟩
  obtain rfl := h.worker hok (w := v) (by simp [hv])
  exact hne t hv

/-- In a deadlock the counters of waiting tasks are not both zero. -/
theorem Deadlocked.counted_pos (h : s.Deadlocked) (hk : s.rt.Counted) :
    0 < s.rt.channelWaitingCount ∨ 0 < s.rt.joinWaitingCount := by
  obtain ⟨t, ht⟩ := List.exists_mem_of_ne_nil _ h.somebody
  rcases h.tasks t ht with hs | ⟨hs, -⟩ | hs
  · exact .inl (hk.chan_pos ht (by simp [hs, TaskState.onChannel]))
  · exact .inl (hk.chan_pos ht (by simp [hs, TaskState.onChannel]))
  · exact .inr (hk.join_pos ht hs)

theorem never_idleWait (h : machine.Reach (Under SoloGentle) s) (v : Nat) :
    s.workers v ≠ .idleWait := by
  refine h.invariant (I := fun s => ∀ v, s.workers v ≠ .idleWait) (fun s hs => ?_)
    (fun s a s' hr ih ha hstep v hv => ?_) v
  · obtain ⟨kind, rfl⟩ := hs
    simp
  · have hok := ok_of_under hr
    have hsingle := single_of_reach (fun _ _ hc => hc.1) (fun _ _ _ hok hp hc => hc.prepared hok hp)
      hr
    have hcount := counted_of_reach (hr.mono fun _ _ hc => ⟨hc.1, hc.2.2⟩)
    cases a with
    | worker w env =>
        obtain ⟨hpop, hq, hlive, hfd, htimer, hcond⟩ :=
          workerStep_idleWait (s := s.tick env.tape) hstep ih hv
        replace hpop : s.workers w = .pop := hpop
        have hrun := hsingle.runningTasks_eq_zero hok (w := w) (by simp [hpop]) (by simp [hpop])
        have hdead : s.Deadlocked := hok.deadlocked hq hrun htimer hfd hlive
        exact hcond ⟨hrun, hdead.counted_pos hcount⟩
    | collect w batch =>
        simp only [machine, Sys.step] at hstep
        split at hstep
        · cases hstep
          exact absurd hv (update_ne_idleWait ih (by simp) w v)
        · cases hstep
    | _ =>
        obtain ⟨s₀, hp, hcase⟩ := hok.step_cases ha.1 hstep
        have hw : s₀.workers = s.workers := by
          obtain ⟨tape, rfl | rfl⟩ := hp <;> rfl
        exact hcase.not_idleWait (hw ▸ ih) (by simp) (by simp) v hv

theorem step_workerIdle {env : Env} (hw : s.workers w = .pop) (hl : s.lock = some w)
    (hq : s.rt.runq.pop = none) :
    machine.step s (.worker w env) = some ((s.tick env.tape).workerIdle w env) := by
  have hw' : (s.tick env.tape).workers w = .pop := hw
  have hl' : (s.tick env.tape).lock = some w := hl
  have hq' : (s.tick env.tape).rt.runqPop = none := by
    change s.rt.runq.pop.map _ = none
    rw [hq, Option.map_none]
  change (s.tick env.tape).workerStep w env = _
  simp only [Sys.workerStep, hw', hl', if_true, Sys.workerPop, hq']

theorem workerIdle_none_left {env : Env} (hgo : s.rt.stopping = false) (hlive : s.rt.liveCount = 0) :
    s.workerIdle w env = s.workerExit w { s.rt with stopping := true } := by
  rw [workerIdle, if_neg (by simp [hgo]), if_pos hlive]

theorem workerIdle_deadlock {env : Env} (hgo : s.rt.stopping = false) (hlive : s.rt.liveCount ≠ 0)
    (hfd : s.rt.fdWaitingCount = 0) (htimer : s.rt.timerPeek = none) (hrun : s.rt.runningTasks = 0)
    (hpos : 0 < s.rt.channelWaitingCount ∨ 0 < s.rt.joinWaitingCount) :
    s.workerIdle w env = s.workerVerdict w .state := by
  rw [workerIdle, if_neg (by simp [hgo]), if_neg hlive, if_neg (by simp [hfd]), htimer]
  simp only
  rw [if_pos (by simpa [hrun, hfd] using hpos)]

/-- In every run with one worker that cancels no task waiting for a channel or for a join,
the worker never enters its untimed wait, and when nothing is ready, asleep or waiting for a
descriptor it stops: with `MT_OK` if no task is left, and with `MT_ERR_STATE` otherwise, all
tasks being parked for good. -/
theorem single_worker_verdict (h : machine.Reach (Under SoloGentle) s) :
    (∀ w, s.workers w ≠ .idleWait) ∧
    (s.rt.runq.items = [] → s.rt.timers.items = [] →
      (∀ v ∈ s.rt.fdWaiters, (s.rt.fdw v).state ≠ .active) → ∀ env,
      (s.workers 0 = .top → ∃ s', machine.step s (.worker 0 env) = some s' ∧ s'.workers 0 = .pop ∧
        s'.rt = { s.rt with tape := env.tape }) ∧
      (s.workers 0 = .pop → ∃ s', machine.step s (.worker 0 env) = some s' ∧
        s'.workers 0 = .exited ∧ s'.rt.stopping = true ∧
        s'.rt.runResult = (if s.rt.allTasks = [] then .ok else .state) ∧
        (s.rt.allTasks ≠ [] → s.Deadlocked))) := by
  have hok := ok_of_under h
  have hsingle := single_of_reach (fun _ _ hc => hc.1) (fun _ _ _ hok hp hc => hc.prepared hok hp) h
  have hcount := counted_of_reach (h.mono fun _ _ hc => ⟨hc.1, hc.2.2⟩)
  refine ⟨never_idleWait h, fun hq htimers hactive env => ?_⟩
  have hfd : s.rt.fdWaitingCount = 0 := by
    rw [hok.rest.inv.fd.count, List.countP_eq_zero]
    exact fun v hv => by simpa using hactive v hv
  refine ⟨fun hw => ?_, fun hw => ?_⟩
  · have hstop := hsingle.not_stopping hok (w := 0) (by simp [hw]) (by simp [hw])
    have hlock := (hok.lock 0).mpr (by simp [hw, WorkerPc.locked])
    refine ⟨{ s with rt := { s.rt with tape := env.tape } }.setWorker 0 .pop, ?_, by
      simp [Sys.setWorker], rfl⟩
    simp only [machine, Sys.step, Sys.workerStep, hw, hlock, if_true, Sys.workerTop, hstop,
      Bool.false_and, Bool.false_eq_true, if_false, Rt.wakeExpiredTimers, htimers,
      List.length_nil, Rt.wakeExpiredTimersLoop, hfd]
    simp
  · have hstop := hsingle.not_stopping hok (w := 0) (by simp [hw]) (by simp [hw])
    have hlock := (hok.lock 0).mpr (by simp [hw, WorkerPc.locked])
    have hrun := hsingle.runningTasks_eq_zero hok (w := 0) (by simp [hw]) (by simp [hw])
    have hpop : s.rt.runq.pop = none := Queue.pop_eq_none.mpr hq
    have hpeek : s.rt.timerPeek = none := List.head?_eq_none_iff.mpr htimers
    have hon := (hok.run.bound 0 (by simp [hw])).2
    have hundecided := undecided_of_reach (fun _ _ _ hok hp hc => hc.prepared hok hp) h hon hstop
    by_cases hlive : s.rt.liveCount = 0
    · have hnone : s.rt.allTasks = [] := hok.allTasks_eq_nil hlive
      refine ⟨_, step_workerIdle hw hlock hpop, ?_⟩
      rw [workerIdle_none_left (s := s.tick env.tape) hstop hlive, if_pos hnone]
      exact ⟨by simp [Sys.workerExit, Sys.setWorker], rfl, hundecided, fun hne => absurd hnone hne⟩
    · have hdead := hok.deadlocked hq hrun hpeek hfd hlive
      have hpos := hdead.counted_pos hcount
      refine ⟨_, step_workerIdle hw hlock hpop, ?_⟩
      rw [workerIdle_deadlock (s := s.tick env.tape) hstop hlive hfd hpeek hrun hpos,
        if_neg hdead.somebody]
      exact ⟨by simp [Sys.workerVerdict, Sys.workerExit, Sys.setWorker], rfl, rfl, fun _ => hdead⟩

/-- A task waits for a value and nothing else is left. -/
theorem single_worker_verdict_deadlock : ∃ s s', machine.Reach (Under SoloGentle) s ∧
    machine.step s (.worker 0 {}) = some s' ∧ s'.rt.runResult = .state ∧ s.Deadlocked := by
  obtain ⟨s, hs, hp⟩ := reach_of_trace_under SoloGentle .poll (List.flatten [
      invoke (.ext 0) (.go true 0 false), invoke (.ext 0) (.chanCreate 4 0),
      invoke (.ext 0) (.run 1 true) 2, works 0 3,
      invoke (.task 0 0) (.chanRecv (some 1) (some 100)), works 0 1])
    (fun s => s.rt.runq.items.isEmpty && s.rt.timers.items.isEmpty && s.rt.fdWaiters.isEmpty &&
      s.workers 0 == .pop && !s.rt.allTasks.isEmpty) (by decide +kernel)
  simp only [Bool.and_eq_true, List.isEmpty_iff, beq_iff_eq, Bool.not_eq_true',
    List.isEmpty_eq_false_iff] at hp
  obtain ⟨⟨⟨⟨hq, htimers⟩, hfd⟩, hw⟩, hne⟩ := hp
  obtain ⟨s', hstep, -, -, hres, hdead⟩ :=
    ((single_worker_verdict hs).2 hq htimers (by simp [hfd]) {}).2 hw
  exact ⟨s, s', hs, hstep, by rw [hres, if_neg hne], hdead hne⟩

/-- After the cancellation of one of two waiting tasks the worker waits for ever for the
other one. -/
theorem single_worker_hangs : ∃ s, machine.Reach (Under Solo) s ∧ s.workers 0 = .idleWait ∧
    s.rt.allTasks = [2] ∧ s.Deadlocked := by
  obtain ⟨s, hs, hp⟩ := reach_of_trace_under Solo .poll (List.flatten [cancelTrace,
      invoke (.task 0 3) (.cancel 0), [.finish 0 3], works 0 2,
      [.cont (.task 0 1) {}, .finish 0 1], works 0 2])
    (fun s => s.workers 0 == .idleWait && s.rt.runq.items.isEmpty && s.rt.runningTasks == 0 &&
      s.rt.timerPeek.isNone && s.rt.fdWaitingCount == 0 && s.rt.allTasks == [2] &&
      s.rt.liveCount != 0) (by decide +kernel)
  simp only [Bool.and_eq_true, List.isEmpty_iff, beq_iff_eq, bne_iff_ne,
    Option.isNone_iff_eq_none] at hp
  obtain ⟨⟨⟨⟨⟨⟨hw, hq⟩, hrun⟩, htimer⟩, hfd⟩, hall⟩, hlive⟩ := hp
  exact ⟨s, hs, hw, hall, (ok_of_under hs).deadlocked hq hrun htimer hfd hlive⟩

end Sys

end Microthread
