import Microthread.System.Files
import Microthread.System.Ledger
import Microthread.Properties.Mirror
import Microthread.Properties.Solitude
import Microthread.Properties.Waits

/-!
# Readiness and the reuse of descriptor numbers

A backend wait reports numbers. Between the wait and the dispatch of what it has reported, the
lock is free, and another worker may close a descriptor, get its number for a new one and wait
there. The generation of a waiter is compared with the table at the time of the dispatch, so it
does not tell which opening of the number the report was for.
-/

namespace Microthread

open Foundation Rt

namespace Os

variable {o : Os} {fd fd' flags : Nat}

theorem inst_issue (h : fd ≠ fd') : (o.issue fd' flags).inst fd = o.inst fd := by
  simp [inst, issue, Function.update_of_ne h]

theorem inst_close (h : fd ≠ fd') : (o.close fd').inst fd = o.inst fd := by
  simp [inst, close, Function.update_of_ne h]

/-- A change of a descriptor that keeps its opening. -/
theorem inst_modify {g : OpenFile → OpenFile} (hg : ∀ f, (g f).inst = f.inst) :
    { o with file := Function.update o.file fd' ((o.file fd').map g) }.inst fd = o.inst fd := by
  dsimp only [inst]
  by_cases h : fd = fd'
  · subst h
    rw [Function.update_self, Option.map_map]
    exact congrFun (congrArg Option.map (funext hg)) _
  · rw [Function.update_of_ne h]

theorem inst_setFlags : (o.setFlags fd' flags).inst fd = o.inst fd := inst_modify fun _ => rfl

theorem inst_noteAdopt : (o.noteAdopt fd' flags).inst fd = o.inst fd := inst_modify fun _ => rfl

theorem inst_noteRelease : (o.noteRelease fd').inst fd = o.inst fd := inst_modify fun _ => rfl

end Os

namespace Sys

variable {s s' : Sys} {a : Actor} {act : Act} {env : Env} {w : FdWaiterId} {fd events v : Nat}
  {t : TaskId}

/-! ## Who waits for which opening -/

/-- A wait for a descriptor goes through its first section. -/
theorem waitSection_of_step (hs : machine.step s (.cont (.task v t) env) = some s')
    (hwaits : (s.pc (.task t)).waitsFor = some (fd, events)) :
    ∃ c timeoutMs nowNs use, s' =
      (s.tick env.tape).waitSection (.task v t) c fd events timeoutMs nowNs use env := by
  generalize hp : s.pc (.task t) = p at hwaits
  have hpc : (s.tick env.tape).pc (.task t) = p := hp
  cases p with
  | called c call =>
      cases call with
      | fdWait fd' events' timeoutMs =>
          simp only [Pc.waitsFor] at hwaits
          split at hwaits
          · next hvalid =>
              cases hwaits
              have heq := callApi_of_step (a := .task v t) hp hs
              simp only [callApi, hvalid] at heq
              exact ⟨c, timeoutMs, env.nowNs, .wait, heq⟩
          · cases hwaits
      | _ => cases hwaits
  | ioWait c op =>
      cases hwaits
      simp only [machine, step] at hs
      split at hs
      · change (s.tick env.tape).continueCall (.task v t) env = some s' at hs
        have hpc' : (s.tick env.tape).pc (Actor.task v t).agent = .ioWait c op := hpc
        simp only [continueCall, hpc'] at hs
        split at hs <;> cases hs
        exact ⟨c, _, env.nowNs2, .io op, rfl⟩
      · cases hs
  | _ => cases hwaits

/-- Nobody waits under a number that is not open. -/
theorem fdWait_closed (s : Rt) (timeoutMs nowNs : Nat) (inst : Option Nat) :
    (s.fdWait t fd events timeoutMs nowNs (.revents pollNval) inst).1 ≠ .park := by
  unfold Rt.fdWait
  split
  · simp
  · split
    · simp
    · simp [pollNval]

theorem waitReturn_fdWaiters (s : Sys) (a : Actor) (c : CallId) (rc : Rc) (rt : Rt)
    (use : WaitUse) : (s.waitReturn a c rc rt use).rt.fdWaiters = rt.fdWaiters := by
  obtain ⟨es, heq⟩ := s.waitReturn_rt a c rc rt use
  rw [heq]

theorem handleSetStatus_fd (s : Rt) (t : TaskId) (status : TaskStatus) :
    (s.handleSetStatus t status).fdWaiters = s.fdWaiters ∧
      (s.handleSetStatus t status).fdw = s.fdw := by
  unfold Rt.handleSetStatus
  split
  · exact ⟨rfl, rfl⟩
  · dsimp only
    split
    · exact ⟨rfl, rfl⟩
    · exact ⟨rfl, rfl⟩

/-- A switch to the scheduler leaves the waiters alone. -/
theorem switch_fd (rt : Rt) {p : Pc} (hst : (rt.task t).state = .waitingFd) :
    (s.switch v t rt p).rt.fdWaiters = rt.fdWaiters ∧ (s.switch v t rt p).rt.fdw = rt.fdw := by
  change (rt.taskAfterSwitch t).fdWaiters = _ ∧ (rt.taskAfterSwitch t).fdw = _
  have heq : rt.taskAfterSwitch t = ({ rt with runningTasks := rt.runningTasks - 1 }.guarded
      rt.runningTasks).handleSetStatus t .waitingFd := by
    simp [Rt.taskAfterSwitch, Rt.guarded, hst]
  rw [heq]
  exact handleSetStatus_fd ..

/-- A new waiter carries the opening that is current under its number. -/
theorem waitSection_inst (h : s.Ok) (hfd : (s.rt.task t).fdWaiter = none) {c : CallId}
    {timeoutMs nowNs : Nat} {use : WaitUse}
    (hs : s' = s.waitSection (.task v t) c fd events timeoutMs nowNs use env)
    (hold : w ∉ s.rt.fdWaiters) (hw : w ∈ s'.rt.fdWaiters) :
    (s'.rt.fdw w).fd = fd ∧ ∃ i, (s'.rt.fdw w).inst = some i ∧ s.os.inst fd = some i := by
  have hwait := h.rest.inv.fdWait (t := t) hfd fd events timeoutMs nowNs (s.pollAnswer fd env)
    (s.os.inst fd)
  have hopen : s.os.file fd = none → (s.rt.fdWait t fd events timeoutMs nowNs
      (s.pollAnswer fd env) (s.os.inst fd)).1 ≠ .park := fun hnone => by
    rw [pollAnswer, if_pos (by simp [hnone])]
    exact fdWait_closed s.rt timeoutMs nowNs _
  simp only [waitSection] at hs
  generalize s.rt.fdWait t fd events timeoutMs nowNs (s.pollAnswer fd env) (s.os.inst fd) = r
    at hwait hs hopen
  obtain ⟨o, ready, rt⟩ := r
  simp only at hwait hs hopen
  subst hs
  cases hwait with
  | answered rc tape =>
      simp only [waitReturn_fdWaiters] at hw
      exact absurd hw hold
  | refused rc gen gens interest filters tape =>
      simp only [waitReturn_fdWaiters] at hw
      exact absurd hw hold
  | parked gen gens tape timers wakeNs =>
      have hsw := fun p => switch_fd (s := s) (v := v) (t := t) (p := p) (({ s.rt with
        fdGenerations := gens, interest := s.rt.interestWith fd events
        filters := s.rt.filtersWith fd events, tape := tape } : Rt).parkFd t timers wakeNs
          (waiterFor t fd events gen (s.os.inst fd))) (by simp [Rt.parkFd])
      change w ∈ (s.switch v t _ _).rt.fdWaiters at hw
      change ((s.switch v t _ _).rt.fdw w).fd = fd ∧
        ∃ i, ((s.switch v t _ _).rt.fdw w).inst = some i ∧ _
      rw [(hsw _).1] at hw
      rw [(hsw _).2]
      obtain rfl : w = s.rt.nextAddr := (List.mem_cons.mp hw).resolve_right hold
      cases hfile : s.os.file fd with
      | none => exact absurd rfl (hopen hfile)
      | some f => exact ⟨by simp [Rt.parkFd, waiterFor], f.inst,
          by simp [Rt.parkFd, waiterFor, Os.inst, hfile], by simp [Os.inst, hfile]⟩

theorem Pc.unparked_of_waitsFor {p : Pc} (hp : p.waitsFor = some (fd, events)) :
    p.parked = false := by
  cases p with
  | called | ioWait => rfl
  | _ => cases hp

theorem registered_inst (h : s.Ok) (hs : machine.step s (.cont (.task v t) env) = some s')
    (hwaits : (s.pc (.task t)).waitsFor = some (fd, events)) (hold : w ∉ s.rt.fdWaiters)
    (hw : w ∈ s'.rt.fdWaiters) : (s'.rt.fdw w).fd = fd ∧
      ∃ i, (s'.rt.fdw w).inst = some i ∧ s.os.inst fd = some i := by
  have hr := h.runs_of_enabled (enabled_of_step hs)
  have hfd := h.fdWaiter_eq_none hr (Pc.unparked_of_waitsFor hwaits)
  obtain ⟨c, timeoutMs, nowNs, use, heq⟩ := waitSection_of_step hs hwaits
  exact waitSection_inst (s := s.tick env.tape) (h.tick env.tape) hfd heq hold hw

/-! ## Who is active after a step -/

end Sys

section Active

variable {s s' : Rt} {w : FdWaiterId}

theorem Rt.FdSame.active (h : FdSame s s') (hw : w ∈ s'.fdWaiters) :
    w ∈ s.fdWaiters ∧ s'.fdw w = s.fdw w := by
  have hmem : w ∈ s.fdWaiters := h.list ▸ hw
  exact ⟨hmem, h.record w hmem⟩

theorem Rt.Drift.active (h : Drift s s') (hw : w ∈ s'.fdWaiters)
    (ha : (s'.fdw w).state = .active) : w ∈ s.fdWaiters ∧ s'.fdw w = s.fdw w := by
  cases h with
  | same hs => exact hs.active hw
  | insert => exact ⟨hw, rfl⟩
  | wake v =>
      refine ⟨hw, Function.update_of_ne ?_ _ _⟩
      rintro rfl
      simp [reserve] at ha
  | unlink v => exact ⟨List.mem_of_mem_erase hw, rfl⟩

theorem Rt.Drifts.active (h : Drifts s s') (hw : w ∈ s'.fdWaiters)
    (ha : (s'.fdw w).state = .active) : w ∈ s.fdWaiters ∧ s'.fdw w = s.fdw w := by
  induction h with
  | refl => exact ⟨hw, rfl⟩
  | tail _ hd ih =>
      obtain ⟨hmem, heq⟩ := hd.active hw ha
      obtain ⟨hmem', heq'⟩ := ih hmem (heq ▸ ha)
      exact ⟨hmem', heq.trans heq'⟩

theorem Rt.FdOp.active {does : Op → Prop} (ho : FdOp does s s') (h : s.Inv)
    (hw : w ∈ s'.fdWaiters) (ha : (s'.fdw w).state = .active) :
    w ∈ s.fdWaiters ∧ s'.fdw w = s.fdw w := by
  have quiet : ∀ {r : Rt}, Regen s r → r.fdWaiters = s.fdWaiters ∧ r.fdw = s.fdw := by
    rintro r ⟨gens, tape, rfl⟩
    exact ⟨rfl, rfl⟩
  have same : ∀ {r : Rt}, Regen s r → w ∈ r.fdWaiters → w ∈ s.fdWaiters ∧ r.fdw w = s.fdw w :=
    fun hr hw => ⟨(quiet hr).1 ▸ hw, by rw [(quiet hr).2]⟩
  cases ho with
  | tape => exact ⟨hw, rfl⟩
  | adopt fd flags => exact same (s.fdAdopt_regen fd flags) hw
  | release fd => exact same (s.fdRelease_regen fd) hw
  | close fd =>
      obtain ⟨a, hr, hm⟩ := h.fdCloseBegin fd
      obtain ⟨hmem, heq⟩ := Drifts.active (FdShifts.drifts hm) hw ha
      obtain ⟨hmem', heq'⟩ := same hr hmem
      exact ⟨hmem', heq.trans heq'⟩
  | unmark fd => exact same (s.fdCloseEnd_regen fd) hw
  | forget fd => exact ⟨hw, rfl⟩

end Active

namespace Sys

variable {s s' : Sys} {a : Actor} {act : Act} {env : Env} {w : FdWaiterId} {fd i v : Nat}
  {t : TaskId}

/-- An active waiter was active before with the same request, or a task has just registered it. -/
theorem Watch.active {r : Rt} (hw : s.Watch act r) (h : s.rt.Inv) (hmem : w ∈ r.fdWaiters)
    (ha : (r.fdw w).state = .active) : (w ∈ s.rt.fdWaiters ∧ r.fdw w = s.rt.fdw w) ∨
      (s.rt.made (.fdWaiter w) = false ∧ ∃ v t env fd events, act = .cont (.task v t) env ∧
        s.workers v = .running t ∧ (s.pc (.task t)).waitsFor = some (fd, events)) := by
  cases hw with
  | drifts hd _ => exact .inl (Drifts.active hd hmem ha)
  | op a env _ ho hs _ =>
      obtain ⟨hmem', heq⟩ := hs.active hmem
      obtain ⟨hold, heq'⟩ := ho.active h hmem' (heq ▸ ha)
      exact .inl ⟨hold, heq.trans heq'⟩
  | refuse v t env fd events inst rc _ _ _ hwait hs =>
      obtain ⟨hmem', heq⟩ := hs.active hmem
      cases hwait with
      | answered => exact .inl ⟨hmem', heq⟩
      | refused =>
          refine .inl ⟨hmem', heq.trans (Function.update_of_ne ?_ _ _)⟩
          exact ne_of_mem_of_not_mem hmem' h.fd_fresh
  | park v t env fd events inst hact hv _ hwaits hwait hs =>
      obtain ⟨hmem', heq⟩ := hs.active hmem
      cases hwait with
      | parked =>
          by_cases hnew : w = s.rt.nextAddr
          · subst hnew
            refine .inr ⟨?_, v, t, env, fd, events, hact, hv, hwaits⟩
            by_contra hmade
            have hlt := h.heap.fresh (.fdWaiter s.rt.nextAddr) (by simpa using hmade)
            exact absurd hlt (lt_irrefl _)
          · refine .inl ⟨(List.mem_cons.mp hmem').resolve_left hnew, heq.trans ?_⟩
            exact Function.update_of_ne hnew _ _
  | osClose a fd _ hs => exact .inl (hs.active hmem)
  | reset hl =>
      rw [hl] at hmem
      cases hmem

theorem active_of_step (h : s.Ok) (hc : s.Contract act) (hs : machine.step s act = some s')
    (hmem : w ∈ s'.rt.fdWaiters) (ha : (s'.rt.fdw w).state = .active) :
    (w ∈ s.rt.fdWaiters ∧ s'.rt.fdw w = s.rt.fdw w) ∨
      (s.rt.made (.fdWaiter w) = false ∧ ∃ v t env, act = .cont (.task v t) env ∧
        s.workers v = .running t ∧
        (s.pc (.task t)).waitsFor.isSome ∧
        ∃ i, (s'.rt.fdw w).inst = some i ∧ s.os.inst (s'.rt.fdw w).fd = some i) := by
  obtain ⟨s₀, hp, hcase⟩ := h.step_cases hc hs
  have hactive := (hcase.watch (hp.ok h)).active (hp.ok h).rest.inv hmem ha
  rcases hp.cases h with ⟨tape, rfl⟩ | ⟨-, hoff, rt, hb, rfl⟩
  · refine hactive.imp_right ?_
    rintro ⟨hnew, v, t, env, fd, events, rfl, hv, hwaits⟩
    have hold : w ∉ s.rt.fdWaiters := fun hmem => by
      have hmade := h.rest.inv.heap.fdWaiter w hmem
      exact absurd (hmade.symm.trans hnew) (by simp)
    obtain ⟨hfd, i, hi, hos⟩ := registered_inst h hs hwaits hold hmem
    exact ⟨hnew, v, t, env, rfl, hv, Option.isSome_iff_exists.mpr ⟨_, hwaits⟩, i, hi, hfd ▸ hos⟩
  · rcases hactive with ⟨hold, -⟩ | ⟨hnew, v, t, env, fd, events, rfl, hv, hwaits⟩
    · rw [hb.off.fdWaiters] at hold
      cases hold
    · have hold : w ∉ s.rt.fdWaiters := by simp [hoff.fdWaiters]
      obtain ⟨hfd, i, hi, hos⟩ := registered_inst h hs hwaits hold hmem
      have hmade : s.rt.made (.fdWaiter w) = false := congrFun hb.made _ ▸ hnew
      exact .inr ⟨hmade, v, t, env, rfl, hv, Option.isSome_iff_exists.mpr ⟨_, hwaits⟩, i, hi,
        hfd ▸ hos⟩

/-! ## Which opening is current -/

/-- The step closes the descriptor. -/
def Closes (s : Sys) (fd : Nat) : Act → Prop
  | .osClose _ fd' => fd' = fd
  | .cont a _ => Pc.Does a.agent (s.pc a.agent) (.osClose fd)
  | _ => False

theorem idle_of_closes (hc : s.Closers) (hresp : s.Respectful act) (h : s.Closes fd act) :
    s.rt.Idle fd := by
  cases act with
  | osClose a fd' =>
      obtain rfl := h
      exact hresp
  | cont a env => exact idle_of_osClose hc hresp h
  | _ => exact h.elim

/-- An open descriptor stays the same opening until it is closed. -/
theorem inst_of_step (hs : machine.step s act = some s') (hi : s.os.inst fd = some i)
    (hopen : ¬s.Closes fd act) : s'.os.inst fd = some i := by
  have hfile : ∀ {fd'}, s.os.file fd' = none → fd ≠ fd' := by
    rintro fd' hnone rfl
    simp [Os.inst, hnone] at hi
  cases filed_of_step hs with
  | same _ _ hos => rw [hos, hi]
  | opens a fd' flags hnone hos => rw [hos, Os.inst_issue (hfile hnone), hi]
  | shuts a fd' hos => rw [hos, Os.inst_close (Ne.symm hopen), hi]
  | cont a env hf =>
      cases hf with
      | same hos | restoring _ _ _ _ _ hos => rw [hos, hi]
      | accepts c op fd' _ _ _ hnone hos => rw [hos, Os.inst_issue (hfile hnone), hi]
      | closes fd' hd hos =>
          rw [hos, Os.inst_close, hi]
          rintro rfl
          exact hopen hd
      | adopting c fd' f use _ _ hos => rw [hos, Os.inst_setFlags, hi]
      | adopted c fd' flags use _ hos => rw [hos, Os.inst_noteAdopt, hi]
      | restored c fd' flags _ hos => rw [hos, Os.inst_noteRelease, Os.inst_setFlags, hi]
      | released c fd' _ hos => rw [hos, Os.inst_noteRelease, hi]

/-! ## The waiters and the openings -/

/-- Every active waiter waits for the opening that is current under its number. -/
def Attached (s : Sys) : Prop := ∀ w ∈ s.rt.fdWaiters, (s.rt.fdw w).state = .active →
  ∃ i, (s.rt.fdw w).inst = some i ∧ s.os.inst (s.rt.fdw w).fd = some i

theorem attached_of_reach (h : machine.Reach (Under Careful) s) : s.Attached := by
  refine h.invariant (fun s hs => ?_) fun s act s' hr ih hact hs w hmem ha => ?_
  · obtain ⟨kind, rfl⟩ := hs
    exact fun w hw => by simp at hw
  · have hok := ok_of_under hr
    have hclosers := closers_of_reach (hr.mono fun _ _ hc => ⟨hc.1, hc.2.1⟩)
    rcases active_of_step hok hact.1 hs hmem ha with ⟨hold, heq⟩ | ⟨-, v, t, env, rfl, hv, hwaits,
      i, hi, hos⟩
    · rw [heq] at ha ⊢
      obtain ⟨i, hi, hos⟩ := ih w hold ha
      refine ⟨i, hi, inst_of_step hs hos fun hcl => ?_⟩
      exact idle_of_closes hclosers hact.2.2 hcl w hold ha rfl
    · refine ⟨i, hi, inst_of_step hs hos ?_⟩
      rintro (⟨c, inst, hpc⟩ | ⟨c, hpc⟩)
      · have hpc : s.pc (.task t) = _ := hpc
        simp [hpc, Pc.waitsFor] at hwaits
      · have hpc : s.pc (.task t) = _ := hpc
        simp [hpc, Pc.waitsFor] at hwaits

/-! ## From the backend wait to the dispatch -/

/-- Only the worker itself goes on with what its backend wait has collected. -/
theorem polled_of_step {k : PollCont} {batch : List ReadyEvent} (h : s.Ok) (hc : s.Contract act)
    (hs : machine.step s act = some s') (hv : s.workers v = .polled k batch)
    (hne : ∀ env, act ≠ .worker v env) : s'.workers v = .polled k batch := by
  have hcol : ∀ b, act ≠ .collect v b := by
    rintro b rfl
    simp only [machine, step, hv] at hs
    cases hs
  obtain ⟨s₀, hp, hcase⟩ := h.step_cases hc hs
  have hok := hp.ok h
  rw [← hp.workers_eq] at hv
  have other : ∀ {u q}, u ≠ v → Function.update s₀.workers u q v = .polled k batch :=
    fun hu => (Function.update_of_ne (Ne.symm hu) _ _).trans hv
  have off : ∀ {u q}, s₀.workers u = .off → Function.update s₀.workers u q v = .polled k batch :=
    fun hu => other fun heq => by simp [heq, hv] at hu
  clear hs
  cases hcase with
  | calls a call => cases a <;> exact hv
  | parks w t env c p hw | finishes w t hw =>
      refine other fun heq => ?_
      rw [heq, hv] at hw
      cases hw
  | spawns n env c k' j hpc =>
      obtain ⟨-, -, -, -, hoff⟩ := hok.run.spawn _ _ _ _ hpc
      exact off (hoff j le_rfl)
  | launches n env c hpc =>
      rcases hpc with ⟨k', hpc⟩ | ⟨k', j, hpc, -⟩
      · exact off (hok.run.alloc _ _ _ hpc 0)
      · exact off (hok.run.spawn _ _ _ _ hpc).2.2.2.1
  | runEnds n env c hpc hl hw | abortEnds n env c hpc hl hw =>
      have hgone := hw v (hok.run.bound v (by simp [hv])).1
      simp [hv] at hgone
  | starts w env | startFails w env | exits w env | dispatches w env =>
      exact other fun heq => hne env (by rw [heq])
  | loops w q lock hact =>
      refine other fun heq => ?_
      subst heq
      rcases hact with ⟨env, hact⟩ | ⟨b, hact⟩
      · exact hne env hact
      · exact hcol b hact
  | _ => exact hv

theorem dispatch_task {k : PollCont} {batch : List ReadyEvent}
    (hv : s.workers v = .polled k batch) (hs : machine.step s (.worker v env) = some s') :
    s'.rt.task = ((s.tick env.tape).rt.backendDispatch batch).task := by
  simp only [machine, step, workerStep, hv] at hs
  split at hs
  · cases hs
  · cases hs
    cases k <;> rfl

/-- What a worker dispatches with success has an entry in its batch. -/
theorem dispatch_gives {k : PollCont} {batch : List ReadyEvent} (h : s.Ok)
    (hv : s.workers v = .polled k batch) (hs : machine.step s (.worker v env) = some s')
    (ht : t ∈ s.rt.allTasks) (hst : (s.rt.task t).state = .waitingFd)
    (hw : (s.rt.task t).fdWaiter = some w) (hend : (s'.rt.task t).state ≠ .waitingFd)
    (hok : (s'.rt.task t).fdResult = .ok) : ∃ e ∈ batch, e.fd = (s.rt.fdw w).fd ∧
      (s'.rt.task t).fdReadyEvents ≠ 0 ∧
      (s'.rt.task t).fdReadyEvents &&& (s.rt.fdw w).events = (s'.rt.task t).fdReadyEvents := by
  have hinv := (h.tick env.tape).rest.inv
  rw [dispatch_task hv hs] at hend hok ⊢
  have hends := Ticks.gives (P := fun rc ready => rc = .ok → ∃ e ∈ batch,
      e.fd = (s.rt.fdw w).fd ∧ ready ≠ 0 ∧ ready &&& (s.rt.fdw w).events = ready)
    (FdShifts.ticks (hinv.backendDispatch batch)) hinv (fun a rc ready _ _ hfdw _ _ hg hrc => ?_)
    ht hst hw
  · rcases hends with ⟨heq, -⟩ | ⟨rc, ready, hgives, heq⟩
    · exact absurd ((congrArg Task.state heq).trans hst) hend
    · rw [heq] at hok ⊢
      exact hgives hok
  · subst hrc
    rw [hfdw] at hg
    obtain ⟨e, he, hfd, ⟨-, hne, hmask⟩ | ⟨hrc, -⟩ | ⟨hrc, -⟩⟩ := hg
    · exact ⟨e, he, hfd, hne, hmask⟩
    · cases hrc
    · cases hrc

/-- Worker `v` has not dispatched. -/
def Undispatched (cond : Sys → Act → Prop) (v : Nat) (s : Sys) (act : Act) : Prop :=
  Under cond s act ∧ ∀ env, act ≠ .worker v env

/-- The action is a section of the loop of worker `v`. -/
def isTurn (v : Nat) : Act → Bool
  | .worker w _ => w == v
  | _ => false

/-- What holds between a backend wait of worker `v` and the dispatch. -/
structure Carried (s₀ : Sys) (v : Nat) (k : PollCont) (batch : List ReadyEvent) (s : Sys) : Prop where
  polled : s.workers v = .polled k batch
  made : ∀ o, s₀.rt.made o = true → s.rt.made o = true
  kept : ∀ w, s₀.rt.made (.fdWaiter w) = true → w ∈ s.rt.fdWaiters →
    (s.rt.fdw w).state = .active → w ∈ s₀.rt.fdWaiters ∧ s.rt.fdw w = s₀.rt.fdw w

theorem Carried.step {s₀ : Sys} {k : PollCont} {batch : List ReadyEvent} (hk : s₀.Carried v k batch s)
    (h : s.Ok) (hc : s.Contract act) (hne : ∀ env, act ≠ .worker v env)
    (hs : machine.step s act = some s') : s₀.Carried v k batch s' where
  polled := polled_of_step h hc hs hk.polled hne
  made o ho := h.made_mono hc hs o (hk.made o ho)
  kept w hmade hmem ha := by
    rcases active_of_step h hc hs hmem ha with ⟨hold, heq⟩ | ⟨hnew, -⟩
    · rw [heq] at ha ⊢
      exact hk.kept w hmade hold ha
    · exact absurd ((hk.made _ hmade).symm.trans hnew) (by simp)

theorem carried_of_path {cond : Sys → Act → Prop} {s₀ : Sys} {k : PollCont}
    {batch : List ReadyEvent} (h : machine.Reach (Under cond) s₀)
    (hv : s₀.workers v = .polled k batch) (hp : machine.Path (Undispatched cond v) s₀ s) :
    machine.Reach (Under cond) s ∧ s₀.Carried v k batch s := by
  induction hp with
  | refl => exact ⟨h, hv, fun _ ho => ho, fun w _ hmem _ => ⟨hmem, rfl⟩⟩
  | step _ hact hs ih =>
      exact ⟨.step ih.1 hact.1 hs, ih.2.step (ok_of_under ih.1) hact.1.1 hact.2 hs⟩

theorem collect_eq {batch : List ReadyEvent} (hs : machine.step s (.collect v batch) = some s') :
    ∃ k, s' = s.setWorker v (.polled k (batch.map fun e => { e with inst := s.os.inst e.fd })) := by
  simp only [machine, step] at hs
  split at hs
  · next k _ => exact ⟨k, (Option.some.inj hs).symm⟩
  · cases hs

/-- With one worker nobody registers a waiter while the worker carries a batch. -/
theorem Manned.no_register (h : s.Manned) (hok : s.Ok) {k : PollCont} {batch : List ReadyEvent}
    (hv : s.workers v = .polled k batch) (u : Nat) : s.workers u ≠ .running t := by
  intro hu
  obtain rfl := h.worker hok (w := u) (by simp [hu])
  obtain rfl := h.worker hok (w := v) (by simp [hv])
  rw [hv] at hu
  cases hu

/-- One worker, and the conditions under which openings and waiters are kept apart. -/
def LoneCareful (s : Sys) (a : Act) : Prop := s.Lone a ∧ s.Careful a

instance (s : Sys) (a : Act) : Decidable (s.LoneCareful a) := inferInstanceAs (Decidable (_ ∧ _))

/-- In a run with one worker, whoever is active at the dispatch was there at the wait. -/
theorem linked_of_path {s₀ : Sys} {k : PollCont} {batch : List ReadyEvent}
    (h : machine.Reach (Under LoneCareful) s₀) (hv : s₀.workers v = .polled k batch)
    (hp : machine.Path (Undispatched LoneCareful v) s₀ s) (hmem : w ∈ s.rt.fdWaiters)
    (ha : (s.rt.fdw w).state = .active) : w ∈ s₀.rt.fdWaiters := by
  induction hp with
  | refl => exact hmem
  | step hp hact hs ih =>
      obtain ⟨hr, hk⟩ := carried_of_path h hv hp
      have hmanned := manned_of_reach (fun _ _ hc => hc.1) hr
      rcases active_of_step (ok_of_under hr) hact.1.1 hs hmem ha with ⟨hold, heq⟩ |
        ⟨-, u, t, env, -, hu, -⟩
      · exact ih hold (heq ▸ ha)
      · exact absurd hu (hmanned.no_register (ok_of_under hr) hk.polled u)

end Sys

/-! ## Readiness and openings -/

section Readiness

variable {s₁ s₂ s s' : Sys} {v : Nat} {env : Env} {batch : List ReadyEvent} {t : TaskId}
  {w : FdWaiterId}

/-- What worker `v` dispatches with success it has collected; for a waiter that was registered
already, it has collected it for the opening of the number that the waiter waits for. -/
theorem Sys.Carried.opening {k : PollCont} (h : machine.Reach (Sys.Under Sys.Careful) s₁)
    (hr : machine.Reach (Sys.Under Sys.Careful) s)
    (hk : (s₁.setWorker v (.polled k (batch.map fun e => { e with inst := s₁.os.inst e.fd }))).Carried
      v k (batch.map fun e => { e with inst := s₁.os.inst e.fd }) s)
    (hs : machine.step s (.worker v env) = some s') (ht : t ∈ s.rt.allTasks)
    (hst : (s.rt.task t).state = .waitingFd) (hw : (s.rt.task t).fdWaiter = some w)
    (hend : (s'.rt.task t).state ≠ .waitingFd) (hok : (s'.rt.task t).fdResult = .ok) :
    w ∈ s.rt.fdWaiters ∧ (s.rt.fdw w).state = .active ∧ ∃ e ∈ batch, e.fd = (s.rt.fdw w).fd ∧
      (w ∈ s₁.rt.fdWaiters → ∃ i, s₁.os.inst e.fd = some i ∧ (s.rt.fdw w).inst = some i ∧
        s.os.inst e.fd = some i) := by
  have hok₁ := Sys.ok_of_under h
  have hok' := Sys.ok_of_under hr
  obtain ⟨hmem, hown⟩ := hok'.rest.inv.fd.linked t ht w hw
  have ha : (s.rt.fdw w).state = .active := by
    rw [(hok'.rest.inv.fd.owner w hmem).2.2.2, hown]
    exact hst
  obtain ⟨e', he', hfd, -⟩ := Sys.dispatch_gives hok' hk.polled hs ht hst hw hend hok
  obtain ⟨e, he, rfl⟩ := List.mem_map.mp he'
  refine ⟨hmem, ha, e, he, hfd, fun hold => ?_⟩
  obtain ⟨-, heq⟩ := hk.kept w (hok₁.rest.inv.heap.fdWaiter w hold) hmem ha
  have heq : s.rt.fdw w = s₁.rt.fdw w := heq
  obtain ⟨i, hi, hos⟩ := Sys.attached_of_reach h w hold (heq ▸ ha)
  obtain ⟨j, hj, hos'⟩ := Sys.attached_of_reach hr w hmem ha
  rw [← heq] at hi hos
  obtain rfl := Option.some.inj (hi.symm.trans hj)
  have hfd : e.fd = (s.rt.fdw w).fd := hfd
  rw [← hfd] at hos hos'
  exact ⟨i, hos, hi, hos'⟩

/-- A wait that ends with success has been ended by an entry of the batch that the worker has
collected. If the waiter was registered when the backend wait returned, the entry was collected
for the opening of the number for which the waiter was registered, and that opening is still
the current one. So readiness is stale only for a waiter that the task of another worker has
registered between the wait and the dispatch. -/
theorem stale_readiness_raced (h : machine.Reach (Sys.Under Sys.Careful) s₁)
    (hcol : machine.step s₁ (.collect v batch) = some s₂)
    (hp : machine.Path (Sys.Undispatched Sys.Careful v) s₂ s)
    (hs : machine.step s (.worker v env) = some s') (ht : t ∈ s.rt.allTasks)
    (hst : (s.rt.task t).state = .waitingFd) (hw : (s.rt.task t).fdWaiter = some w)
    (hend : (s'.rt.task t).state ≠ .waitingFd) (hok : (s'.rt.task t).fdResult = .ok) :
    ∃ e ∈ batch, e.fd = (s.rt.fdw w).fd ∧ (w ∈ s₁.rt.fdWaiters → ∃ i,
      s₁.os.inst e.fd = some i ∧ (s.rt.fdw w).inst = some i ∧ s.os.inst e.fd = some i) := by
  obtain ⟨k, rfl⟩ := Sys.collect_eq hcol
  have hact : Sys.Under Sys.Careful s₁ (.collect v batch) := ⟨trivial, trivial, trivial⟩
  obtain ⟨hr, hk⟩ := Sys.carried_of_path (h.step hact hcol) (Function.update_self ..) hp
  exact (hk.opening h hr hs ht hst hw hend hok).2.2

/-- While worker 0 carries what it has collected for descriptor 5, the descriptor is closed and
its number is issued again, and on worker 1 the task waits for the new descriptor: the dispatch
reports it readable. -/
theorem stale_readiness_raced_reuse : ∃ s₁ s s' : Sys, ∃ e ∈ [({ fd := 5, bits := 1 } : ReadyEvent)],
    machine.step s (.worker 0 {}) = some s' ∧ e.fd = (s.rt.fdw 2).fd ∧
    (s'.rt.task 0).fdResult = .ok ∧ s₁.os.inst 5 = some 0 ∧ 2 ∉ s₁.rt.fdWaiters ∧
    (s.rt.fdw 2).inst = some 1 ∧ s.os.inst 5 = some 1 := by
  let test : Sys → Act → Bool := fun s a =>
    s.promised a && decide (s.Careful a) && !Sys.isTurn 0 a
  have htest : ∀ s a, test s a = true → Sys.Undispatched Sys.Careful 0 s a := fun s a ha => by
    simp only [test, Bool.and_eq_true, decide_eq_true_eq] at ha
    refine ⟨⟨Sys.contract_of_promised ha.1.1, ha.1.2⟩, ?_⟩
    rintro env rfl
    simp [Sys.isTurn] at ha
  obtain ⟨s₁, hs₁, hp⟩ := reach_of_trace_under Sys.Careful .epoll (List.flatten [
      [.osOpen (.ext 0) 5 0], invoke (.ext 0) (.go true 0 false), invoke (.ext 0) (.run 2 true) 4,
      works 0 3, invoke (.task 0 0) (.fdWait 5 1 100), works 0])
    (fun s₁ => s₁.os.inst 5 == some 0 && decide (2 ∉ s₁.rt.fdWaiters) &&
      (machine.step s₁ (.collect 0 [{ fd := 5, bits := 1 }])).any fun s₂ : Sys =>
        (machine.replay test s₂ (List.flatten [invoke (.ext 1) (.fdClose 5) 3, works 1 3,
          [.cont (.task 1 0) {}, .osOpen (.task 1 0) 5 0], invoke (.task 1 0) (.fdWait 5 1 100),
          works 1])).any fun s : Sys =>
            decide (0 ∈ s.rt.allTasks) && (s.rt.task 0).state == .waitingFd &&
              (s.rt.task 0).fdWaiter == some 2 && (s.rt.fdw 2).inst == some 1 &&
              s.os.inst 5 == some 1 && (machine.step s (.worker 0 {})).any fun s' : Sys =>
                (s'.rt.task 0).state == .ready && (s'.rt.task 0).fdResult == .ok)
    (by decide +kernel)
  simp only [Bool.and_eq_true, beq_iff_eq, Option.any_eq_true, decide_eq_true_eq] at hp
  obtain ⟨⟨hinst₁, hnew⟩, s₂, hcol, s, hrun, ⟨⟨⟨⟨hmem, hst⟩, hw⟩, hinst⟩, hinst'⟩, s', hstep, hend,
    hok⟩ := hp
  obtain ⟨e, he, hfd, -⟩ := stale_readiness_raced hs₁ hcol
    (Machine.Path.refl.replay htest hrun) hstep hmem hst hw (by simp [hend]) hok
  exact ⟨s₁, s, s', e, he, hstep, hfd, hok, hinst₁, hnew, hinst, hinst'⟩

/-- In a run with one worker, whatever the other threads call in between, readiness is never
stale: a wait that ends with success has been ended by an entry that was collected for the
opening of the number for which the waiter was registered, and that opening is still the
current one. -/
theorem readiness_of_opening (h : machine.Reach (Sys.Under Sys.LoneCareful) s₁)
    (hcol : machine.step s₁ (.collect v batch) = some s₂)
    (hp : machine.Path (Sys.Undispatched Sys.LoneCareful v) s₂ s)
    (hs : machine.step s (.worker v env) = some s') (ht : t ∈ s.rt.allTasks)
    (hst : (s.rt.task t).state = .waitingFd) (hw : (s.rt.task t).fdWaiter = some w)
    (hend : (s'.rt.task t).state ≠ .waitingFd) (hok : (s'.rt.task t).fdResult = .ok) :
    ∃ e ∈ batch, e.fd = (s.rt.fdw w).fd ∧ ∃ i,
      s₁.os.inst e.fd = some i ∧ (s.rt.fdw w).inst = some i ∧ s.os.inst e.fd = some i := by
  obtain ⟨k, rfl⟩ := Sys.collect_eq hcol
  have hact : Sys.Under Sys.LoneCareful s₁ (.collect v batch) :=
    ⟨trivial, trivial, trivial, trivial⟩
  have hr₂ := h.step hact hcol
  obtain ⟨hr, hk⟩ := Sys.carried_of_path hr₂ (Function.update_self ..) hp
  have careful : ∀ {s : Sys}, machine.Reach (Sys.Under Sys.LoneCareful) s →
      machine.Reach (Sys.Under Sys.Careful) s := fun hr => hr.mono fun _ _ hc => ⟨hc.1, hc.2.2⟩
  obtain ⟨hmem, ha, e, he, hfd, hopening⟩ :=
    hk.opening (careful h) (careful hr) hs ht hst hw hend hok
  have hold := Sys.linked_of_path hr₂ (Function.update_self ..) hp hmem ha
  exact ⟨e, he, hfd, hopening hold⟩

end Readiness

/-- The task waits for descriptor 5 until it is readable; while the worker carries the batch,
another thread closes descriptor 6 with `mt_fd_close`. -/
theorem readiness_of_opening_first : ∃ s₁ s s' : Sys, ∃ e ∈ [({ fd := 5, bits := 1 } : ReadyEvent)],
    machine.step s (.worker 0 {}) = some s' ∧ (s'.rt.task 0).fdResult = .ok ∧
    s₁.os.inst 6 = some 1 ∧ s.os.inst 6 = none ∧
    e.fd = (s.rt.fdw 1).fd ∧ ∃ i, s₁.os.inst e.fd = some i ∧ (s.rt.fdw 1).inst = some i ∧
      s.os.inst e.fd = some i := by
  let test : Sys → Act → Bool := fun s a =>
    s.promised a && decide (s.LoneCareful a) && !Sys.isTurn 0 a
  have htest : ∀ s a, test s a = true → Sys.Undispatched Sys.LoneCareful 0 s a := fun s a ha => by
    simp only [test, Bool.and_eq_true, decide_eq_true_eq] at ha
    refine ⟨⟨Sys.contract_of_promised ha.1.1, ha.1.2⟩, ?_⟩
    rintro env rfl
    simp [Sys.isTurn] at ha
  obtain ⟨s₁, hs₁, hp⟩ := reach_of_trace_under Sys.LoneCareful .epoll (List.flatten [waitingTrace 1,
      [.cont (.task 0 0) {}], works 0, [.osOpen (.ext 1) 6 0]])
    (fun s₁ => s₁.os.inst 6 == some 1 &&
      (machine.step s₁ (.collect 0 [{ fd := 5, bits := 1 }])).any fun s₂ : Sys =>
        (machine.replay test s₂ (invoke (.ext 1) (.fdClose 6) 3)).any fun s : Sys =>
          decide (0 ∈ s.rt.allTasks) && (s.rt.task 0).state == .waitingFd &&
            (s.rt.task 0).fdWaiter == some 1 && s.os.inst 6 == none &&
            (machine.step s (.worker 0 {})).any fun s' : Sys =>
              (s'.rt.task 0).state == .ready && (s'.rt.task 0).fdResult == .ok)
    (by decide +kernel)
  simp only [Bool.and_eq_true, beq_iff_eq, Option.any_eq_true, decide_eq_true_eq] at hp
  obtain ⟨hinst, s₂, hcol, s, hrun, ⟨⟨⟨hmem, hst⟩, hw⟩, hgone⟩, s', hstep, hend, hok⟩ := hp
  obtain ⟨e, he, hfd, hopening⟩ := readiness_of_opening hs₁ hcol
    (Machine.Path.refl.replay htest hrun) hstep hmem hst hw (by simp [hend]) hok
  exact ⟨s₁, s, s', e, he, hstep, hok, hinst, hgone, hfd, hopening⟩

end Microthread
