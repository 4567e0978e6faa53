import Microthread.System.Records

/-!
# Who is closing what

Only the sections of `mt_fd_close` take a call into a close or out of it, and nobody else
disturbs an agent in between: a task that runs keeps its worker until it acts itself, and the
runtime stays initialised until an external thread shuts it down on its own.
-/

namespace Microthread

open Foundation Rt

/-- The descriptor that the agent is closing, between the first and the last section of its
`mt_fd_close`. -/
def Pc.closes : Pc → Option Nat
  | .fdClosing _ fd _ | .fdClosed _ fd _ => some fd
  | _ => none

namespace Sys

variable {s s' : Sys} {a : Actor} {c : CallId} {p : Pc} {rt : Rt} {env : Env} {fd : Nat}

/-! ## Who closes what -/

theorem closes_setPc (s : Sys) (a : Agent) (p : Pc) : ((s.setPc a p).pc a).closes = p.closes := by
  simp [setPc]

theorem closes_ret (s : Sys) (a : Actor) (c : CallId) (role : Role) (rc : Rc) (rt : Rt) :
    ((s.ret a c role rc rt).pc a.agent).closes = none :=
  closes_setPc _ _ _

theorem closes_switch (s : Sys) (w : Nat) (t : TaskId) (rt : Rt) (p : Pc) :
    ((s.switch w t rt p).pc (.task t)).closes = p.closes :=
  closes_setPc _ _ _

theorem closes_conclude (s : Sys) (a : Actor) (c : CallId) (role : Role) (o : Outcome × Rt)
    (hp : p.closes = none) : ((s.conclude a c role p o).pc a.agent).closes = none := by
  obtain ⟨o, rt⟩ := o
  cases o with
  | ret rc => exact closes_ret ..
  | park =>
      cases a with
      | task w t => exact (closes_switch ..).trans hp
      | ext n => exact closes_ret ..

theorem closes_adoptFailed (s : Sys) (a : Actor) (c : CallId) (fd : Nat) (rc : Rc) (rt : Rt)
    (use : AdoptUse) : ((s.adoptFailed a c fd rc rt use).pc a.agent).closes = none := by
  cases use with
  | adopt | io => exact closes_ret ..
  | accepted => exact closes_setPc ..

theorem closes_adoptFcntl (s : Sys) (a : Actor) (c : CallId) (fd : Nat) (use : AdoptUse)
    (env : Env) : ((s.adoptFcntl a c fd use env).pc a.agent).closes = none := by
  unfold adoptFcntl
  split
  · exact closes_adoptFailed ..
  · split
    · exact closes_setPc ..
    · exact closes_adoptFailed ..

theorem closes_adoptSection (s : Sys) (a : Actor) (c : CallId) (fd flags : Nat) (use : AdoptUse)
    (env : Env) : ((s.adoptSection a c fd flags use env).pc a.agent).closes = none := by
  unfold adoptSection
  split
  · cases use with
    | adopt | accepted => exact closes_ret ..
    | io => exact closes_setPc ..
  · exact closes_adoptFailed ..

theorem closes_waitReturn (s : Sys) (a : Actor) (c : CallId) (rc : Rc) (rt : Rt) (use : WaitUse) :
    ((s.waitReturn a c rc rt use).pc a.agent).closes = none := by
  cases use with
  | wait => exact closes_ret ..
  | io op =>
      simp only [waitReturn]
      split
      · exact closes_setPc ..
      · exact closes_ret ..

theorem closes_waitSection (s : Sys) (a : Actor) (c : CallId) (fd events timeoutMs nowNs : Nat)
    (use : WaitUse) (env : Env) :
    ((s.waitSection a c fd events timeoutMs nowNs use env).pc a.agent).closes = none := by
  cases a with
  | ext n => exact closes_waitReturn ..
  | task w t =>
      simp only [waitSection]
      split
      · exact closes_waitReturn s (.task w t) ..
      · exact closes_switch ..

theorem closes_ensureInit {k fail : Rt → Sys} {g : Agent} (hk : ∀ rt, ((k rt).pc g).closes = none)
    (hf : ∀ rt, ((fail rt).pc g).closes = none) : ((s.ensureInit k fail).pc g).closes = none := by
  unfold ensureInit
  split
  · exact hk _
  · exact hf _

/-- Only `mt_fd_close` takes a call into a close. -/
theorem closes_callApi (s : Sys) (a : Actor) (c : CallId) (env : Env) (call : Api)
    (hc : ∀ fd, call ≠ .fdClose fd) : ((s.callApi a c env call).pc a.agent).closes = none := by
  have ext : ∀ {rc : Rc} {rt : Rt}, ((s.ret a c .neither rc rt).pc a.agent).closes = none :=
    closes_ret ..
  cases call with
  | go fn n b => exact closes_ensureInit (fun rt => closes_ret ..) fun rt => closes_ret ..
  | chanCreate e k => exact closes_ensureInit (fun rt => closes_ret ..) fun rt => closes_ret ..
  | yield =>
      cases a with
      | task w t =>
          simp only [callApi]
          exact closes_conclude s (.task w t) _ _ _ rfl
      | ext n => exact ext
  | sleep ms =>
      cases a with
      | task w t => exact closes_conclude s (.task w t) _ _ _ rfl
      | ext n => exact ext
  | join x => exact closes_conclude _ _ _ _ _ rfl
  | cancelled =>
      cases a with
      | task w t => exact closes_ret s (.task w t) ..
      | ext n => exact ext
  | cancel | status | release | chanClose | chanDestroy => exact closes_ret ..
  | chanSend ch value =>
      cases ch with
      | none => exact ext
      | some ch =>
          cases value with
          | none => exact ext
          | some value => exact closes_conclude _ _ _ _ _ rfl
  | chanRecv ch value =>
      cases ch with
      | none => exact ext
      | some ch =>
          cases value with
          | none => exact ext
          | some value => exact closes_conclude _ _ _ _ _ rfl
  | chanTrySend ch value =>
      cases ch with
      | none => exact ext
      | some ch =>
          cases value with
          | none => exact ext
          | some value => exact closes_ret ..
  | chanTryRecv ch value =>
      cases ch with
      | none => exact ext
      | some ch =>
          cases value with
          | none => exact ext
          | some value => exact closes_ret ..
  | select cases =>
      simp only [callApi]
      split
      · exact ext
      · split
        · exact ext
        · exact closes_setPc ..
  | fdAdopt fd => exact closes_adoptFcntl ..
  | fdRelease fd =>
      simp only [callApi, releaseSection]
      split
      · exact closes_setPc ..
      · exact closes_ret ..
      · exact ext
  | fdWait fd events ms =>
      simp only [callApi]
      split
      · exact closes_waitSection ..
      · exact ext
  | fdRead fd len ms | fdWrite fd len ms =>
      simp only [callApi]
      split
      · exact ext
      · exact closes_adoptFcntl ..
  | netAccept fd ms => exact closes_adoptFcntl ..
  | fdClose fd => exact absurd rfl (hc fd)
  | run k b =>
      simp only [callApi]
      split
      · exact ext
      · refine closes_ensureInit (fun rt => ?_) fun rt => closes_ret ..
        split
        · exact ext
        · exact closes_setPc ..
  | shutdown =>
      cases a with
      | task w t => exact ext
      | ext n =>
          simp only [callApi]
          split
          · exact ext
          · split
            · exact ext
            · exact ext

theorem closes_selectTrial (s : Sys) (a : Actor) (c : CallId) (cases : List SelectCase)
    (plan : SelectPlan) (i : Nat) (k : SelectCase) :
    ((s.selectTrial a c cases plan i k).pc a.agent).closes = none := by
  unfold selectTrial
  split
  · split
    · exact closes_setPc ..
    · exact closes_ret ..
  · exact closes_setPc ..

theorem closes_selectAfterTrials (s : Sys) (a : Actor) (c : CallId) (cases : List SelectCase)
    (plan : SelectPlan) : ((s.selectAfterTrials a c cases plan).pc a.agent).closes = none := by
  rcases s.selectAfterTrials_cases a c cases plan with ⟨d, heq⟩ | heq <;> rw [heq]
  · exact closes_ret ..
  · exact closes_setPc ..

theorem closes_releaseFcntl (s : Sys) (a : Actor) (c : CallId) (fd flags : Nat) (env : Env) :
    ((s.releaseFcntl a c fd flags env).pc a.agent).closes = none := by
  unfold releaseFcntl
  split
  · exact closes_ret ..
  · split
    · exact closes_setPc ..
    · exact closes_ret ..

theorem closes_ioStep {op : IoOp} (h : s.ioStep a c op env = some s') :
    (s'.pc a.agent).closes = none := by
  unfold ioStep at h
  split at h
  · cases h
    exact closes_setPc ..
  · cases h
    exact closes_ret ..
  · cases h
    exact closes_ret ..
  · split at h
    · cases h
      exact closes_setPc ..
    · cases h
      exact closes_ret ..
  · split at h
    · cases h
    · cases h
      exact closes_setPc ..

/-- The sections of `mt_run_internal`. -/
theorem closes_run (hrun : (s.pc a.agent).inRun = true) (h : s.continueCall a env = some s') :
    (s'.pc a.agent).closes = none := by
  cases a with
  | task w t => cases hq : s.pc (.task t) <;> simp_all [continueCall, Actor.agent, Pc.inRun]
  | ext n =>
      cases hq : s.pc (.ext n) with
      | runAlloc c k =>
          simp only [continueCall, Actor.agent, hq] at h
          split at h
          · cases h
          · split at h
            · split at h
              · cases h
                exact closes_setPc ..
              · cases h
                exact closes_ret s (.ext n) ..
            · cases h
              exact closes_setPc ..
      | runSpawn c k j =>
          simp only [continueCall, Actor.agent, hq] at h
          split at h
          · cases h
          · split at h
            · split at h
              · cases h
                exact closes_setPc ..
              · cases h
                exact closes_setPc ..
            · cases h
              exact closes_setPc ..
      | runLoop c | runAbort c =>
          simp only [continueCall, Actor.agent, hq] at h
          split at h
          · cases h
          · split at h
            · cases h
              exact closes_setPc ..
            · cases h
      | _ => simp [Actor.agent, hq, Pc.inRun] at hrun

/-- A call that had switched to the scheduler. -/
theorem closes_parked (hp : (s.pc a.agent).parked = true) (h : s.continueCall a env = some s') :
    (s'.pc a.agent).closes = none := by
  cases a with
  | ext n => cases hq : s.pc (.ext n) <;> simp_all [continueCall, Actor.agent, Pc.parked]
  | task w t =>
      cases hq : s.pc (.task t) with
      | chanPark | selectPark | joinPark | switchPark =>
          simp only [continueCall, Actor.agent, hq] at h
          cases h
          exact closes_setPc ..
      | fdPark c v use =>
          simp only [continueCall, Actor.agent, hq] at h
          split at h
          · cases h
          · cases h
            exact closes_waitReturn s (.task w t) ..
      | _ => simp [Actor.agent, hq, Pc.parked] at hp

/-- No section outside `mt_fd_close` begins a close. -/
theorem closes_continueCall (h : s.continueCall a env = some s')
    (hnone : (s.pc a.agent).closes = none)
    (hcall : ∀ c fd, s.pc a.agent ≠ .called c (.fdClose fd)) :
    (s'.pc a.agent).closes = none := by
  cases hq : s.pc a.agent with
  | called c call =>
      simp only [continueCall, hq] at h
      split at h
      · cases h
        exact closes_callApi s a c env call fun fd heq => hcall c fd (heq ▸ hq)
      · cases h
  | fdClosing c fd i | fdClosed c fd rc => simp [hq, Pc.closes] at hnone
  | selectTry c cases p i =>
      simp only [continueCall, hq] at h
      split at h
      · cases h
      · split at h
        · cases h
          exact closes_selectTrial ..
        · cases h
          exact closes_selectAfterTrials ..
  | selectReg c cases p =>
      simp only [continueCall, hq] at h
      split at h
      · cases h
      · cases h
        exact closes_conclude _ _ _ _ _ rfl
  | chanPark | selectPark | joinPark | switchPark | fdPark =>
      exact closes_parked (by rw [hq]; rfl) h
  | fdAdopt c fd use =>
      simp only [continueCall, hq] at h
      cases h
      exact closes_adoptFcntl ..
  | fdAdopting c fd flags use =>
      simp only [continueCall, hq] at h
      split at h
      · cases h
      · cases h
        exact closes_adoptSection ..
  | fdRestoring c fd flags =>
      simp only [continueCall, hq] at h
      cases h
      exact closes_releaseFcntl ..
  | ioCall c op =>
      simp only [continueCall, hq] at h
      exact closes_ioStep h
  | ioWait c op =>
      simp only [continueCall, hq] at h
      split at h
      · cases h
      · cases h
        exact closes_waitSection ..
  | acceptDrop c fd =>
      simp only [continueCall, hq] at h
      cases h
      exact closes_ret ..
  | runAlloc | runSpawn | runLoop | runAbort => exact closes_run (by rw [hq]; rfl) h
  | fresh | user | finished => simp [continueCall, hq] at h

/-- The sections of `mt_fd_close`; no other section begins or ends one. -/
theorem close_sections (hs : machine.step s (.cont a env) = some s') :
    (∃ c fd, s.pc a.agent = .called c (.fdClose fd) ∧
      s' = (s.tick env.tape).callApi a c env (.fdClose fd)) ∨
    (∃ c fd i, s.pc a.agent = .fdClosing c fd i ∧ s' = (s.tick env.tape).closeStep a c fd env) ∨
    (∃ c fd rc, s.pc a.agent = .fdClosed c fd rc ∧
      s' = (s.tick env.tape).ret a c .neither rc ((s.tick env.tape).rt.fdCloseEnd fd)) ∨
    ((∀ c fd, s.pc a.agent ≠ .called c (.fdClose fd)) ∧ (s.pc a.agent).closes = none ∧
      (s'.pc a.agent).closes = none) := by
  simp only [machine, Sys.step] at hs
  split at hs
  · change (s.tick env.tape).continueCall a env = some s' at hs
    have hpc : (s.tick env.tape).pc a.agent = s.pc a.agent := rfl
    generalize s.tick env.tape = r at hs hpc
    rw [← hpc]
    by_cases hcall : ∃ c fd, r.pc a.agent = .called c (.fdClose fd)
    · obtain ⟨c, fd, hq⟩ := hcall
      simp only [continueCall, hq] at hs
      split at hs
      · exact .inl ⟨c, fd, hq, (Option.some.inj hs).symm⟩
      · cases hs
    · have hother : ∀ c fd, r.pc a.agent ≠ .called c (.fdClose fd) := fun c fd heq =>
        hcall ⟨c, fd, heq⟩
      cases hcl : (r.pc a.agent).closes with
      | none => exact .inr (.inr (.inr ⟨hother, rfl, closes_continueCall hs hcl hother⟩))
      | some fd =>
          cases hq : r.pc a.agent with
          | fdClosing c fd i =>
              simp only [continueCall, hq] at hs
              exact .inr (.inl ⟨c, fd, i, rfl, (Option.some.inj hs).symm⟩)
          | fdClosed c fd rc =>
              simp only [continueCall, hq] at hs
              split at hs
              · cases hs
              · exact .inr (.inr (.inl ⟨c, fd, rc, rfl, (Option.some.inj hs).symm⟩))
          | _ => simp [hq, Pc.closes] at hcl
  · cases hs

/-! ## Nobody is disturbed -/

/-- A task that runs keeps its worker until it acts itself. -/
theorem Case.running_kept {act : Act} {w : Nat} {t : TaskId} (hc : Case s act s') (h : s.Ok)
    (hw : s.workers w = .running t) :
    (∃ a env, act = .cont a env ∧ a.agent = .task t) ∨ s.pc (.task t) = .user ∨
      s'.workers w = .running t := by
  have moves : ∀ {v : Nat} {q : WorkerPc}, s.workers v ≠ .running t →
      Function.update s.workers v q w = .running t := fun {v q} hv => by
    have hne : w ≠ v := fun heq => hv (heq ▸ hw)
    rw [Function.update_of_ne hne, hw]
  cases hc with
  | parks v u env c p hv =>
      by_cases hut : u = t
      · exact .inl ⟨.task v u, env, rfl, by rw [hut]; rfl⟩
      · exact .inr (.inr (moves (by simp [hv, hut])))
  | finishes v u hv hl hpc =>
      by_cases hut : u = t
      · exact .inr (.inl (hut ▸ hpc))
      · exact .inr (.inr (moves (by simp [hv, hut])))
  | spawns n env c k j hpc =>
      exact .inr (.inr (moves (by simp [(h.run.spawn _ c k j hpc).2.2.2.2 j le_rfl])))
  | launches n env c hpc =>
      refine .inr (.inr (moves ?_))
      rcases hpc with ⟨k, hpc⟩ | ⟨k, j, hpc, -⟩
      · simp [h.run.alloc _ c k hpc 0]
      · simp [(h.run.spawn _ c k j hpc).2.2.2.1]
  | runEnds n env c hpc hl hall =>
      have hbound := (h.run.bound w (by simp [hw])).1
      have hgone := hall w hbound
      simp [hw] at hgone
  | abortEnds n env c hpc hl hall =>
      have hbound := (h.run.bound w (by simp [hw])).1
      have hgone := hall w hbound
      simp [hw] at hgone
  | starts v env hv => exact .inr (.inr (moves (by simp [hv])))
  | startFails v env hv => exact .inr (.inr (moves (by simp [hv])))
  | exits v env rc hv =>
      refine .inr (.inr (moves fun heq => ?_))
      simp [heq, WorkerPc.locked] at hv
  | dispatches v env u q hv => exact .inr (.inr (moves (by simp [hv])))
  | loops v q lock hact hl =>
      refine .inr (.inr (moves fun heq => ?_))
      rw [heq] at hl
      generalize s.lock = l at hl
      cases hl with
      | keep hp => cases hp
      | drop hp => cases hp
      | take _ _ hp => exact hp t rfl
  | _ => exact .inr (.inr hw)

/-- Others move an agent only by dispatching it for the first time. -/
theorem Case.pc_other {act : Act} {g : Agent} (hc : Case s act s') (hg : act.agent? ≠ some g) :
    s'.pc g = s.pc g ∨ s.pc g = .fresh ∧ s'.pc g = .user := by
  by_cases hf : s.pc g = .fresh
  · cases hc with
    | dispatches w env u q hw =>
        by_cases hgu : g = .task u
        · subst hgu
          exact .inr ⟨hf, (Function.update_self ..).trans (if_pos hf)⟩
        · exact .inl (Function.update_of_ne hgu _ _)
    | calls a call | acts a env | resumesFd w u | returns w u | goesOn w u | parks w u | finishes w u
    | runBegins n | runPrepares n | runFails n | spawns n | launches n | aborts n | runEnds n
    | abortEnds n | halts n | shutsDown n =>
        have hne : g ≠ _ := fun heq => hg (congrArg some heq.symm)
        exact .inl (Function.update_of_ne hne _ _)
    | _ => exact .inl rfl
  · exact .inl ((hc.pc_kept hf).resolve_left hg)

/-- How an agent moves in a step that is no section of a call. -/
inductive Idles (p : Pc) : Pc → Prop where
  | stays : Idles p p
  | starts : p = .fresh → Idles p .user
  | calls (c call) : p = .user → Idles p (.called c call)
  | finishes : p = .user → Idles p .finished

theorem Case.idles {act : Act} (hc : Case s act s') (hact : ∀ a env, act ≠ .cont a env)
    (g : Agent) : Idles (s.pc g) (s'.pc g) := by
  by_cases hg : act.agent? = some g
  · cases hc with
    | calls a call hen hpc =>
        cases hg
        change Idles _ (Function.update s.pc a.agent _ a.agent)
        rw [Function.update_self]
        exact .calls _ _ hpc
    | finishes w t hw hl hpc =>
        cases hg
        change Idles _ (Function.update s.pc (.task t) Pc.finished (.task t))
        rw [Function.update_self]
        exact .finishes hpc
    | writes | descriptors => exact .stays
    | loops w q lock hkind =>
        rcases hkind with ⟨env, rfl⟩ | ⟨batch, rfl⟩
        · cases hg
        · cases hg
    | acts a env | resumesFd w t env | returns w t env | goesOn w t env | parks w t env
    | runBegins n env | runPrepares n env | runFails n env | spawns n env | launches n env
    | aborts n env | runEnds n env | abortEnds n env | halts n env | shutsDown n env =>
        exact absurd rfl (hact _ env)
    | starts | startFails | exits | dispatches => cases hg
  · rcases hc.pc_other hg with heq | ⟨hf, hu⟩
    · rw [heq]
      exact .stays
    · rw [hu]
      exact .starts hf

/-- Nobody else begins or ends a close. -/
theorem Case.closes_kept {act : Act} {g : Agent} (hc : Case s act s') (hg : act.agent? ≠ some g) :
    (s'.pc g).closes = (s.pc g).closes := by
  rcases hc.pc_other hg with heq | ⟨hf, hu⟩
  · rw [heq]
  · rw [hf, hu]
    rfl

/-- A step that is no section of a call begins and ends no close. -/
theorem Case.closes_eq {act : Act} (hc : Case s act s') (hact : ∀ a env, act ≠ .cont a env)
    (g : Agent) : (s'.pc g).closes = (s.pc g).closes := by
  have hidle := hc.idles hact g
  generalize s.pc g = p, s'.pc g = q at hidle
  cases hidle with
  | stays => rfl
  | starts hp | calls c call hp | finishes hp =>
      rw [hp]
      rfl

/-- The runtime stays initialised until an external thread shuts it down on its own. -/
theorem Case.initialized_kept {act : Act} (hc : Case s act s') (h : s.Ok) :
    s'.rt.initialized = s.rt.initialized ∨ ∃ n c, s.pc (.ext n) = .called c .shutdown ∧
      s.rt.running = false ∧ s.Alone (.ext n) := by
  have fields : ∀ {r r' : Rt}, r'.control = r.control → r'.initialized = r.initialized := by
    intro r r' heq
    exact congrArg Prod.fst heq
  cases hc with
  | calls a call =>
      cases a with
      | ext n => exact .inl rfl
      | task w t => exact .inl rfl
  | acts a env c o p es os sel hen hcall hp hr _ hs hon =>
      exact .inl (fields (hs.passes h.rest).control)
  | parks w t env c p hw hl hcall hnp hp hm =>
      have hws := h.rest.noWaiters t ((h.runs t).mpr ⟨w, hw⟩)
      have hmark := fields (Moves.control_eq (Shifts.moves hm.shifts))
      have hpark := fields (hp.frame hws).2.2
      exact .inl (hmark.trans hpark)
  | finishes w t hw hl hpc hb =>
      have hburies := fields hb.control_eq
      exact .inl hburies
  | halts n env c hpc hr hm =>
      have hhalt := fields (Moves.control_eq (Shifts.moves (FdShifts.shifts hm)))
      exact .inl hhalt
  | shutsDown n env c hpc hinit hr halone hd => exact .inr ⟨n, c, hpc, hr, halone⟩
  | loops w q lock _ hl hm =>
      exact .inl (fields (Moves.control_eq (Shifts.moves (Ticks.shifts hm))))
  | dispatches w env t q hw hl hq hm =>
      have hmark := fields (Moves.control_eq (Shifts.moves hm.shifts))
      exact .inl hmark
  | _ => exact .inl rfl

end Sys

end Microthread
