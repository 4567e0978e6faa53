import Microthread.System.Trace

/-!
# Where the tasks are

In every state between two sections a registered task is in exactly the
structure its state names. The verdicts of the worker loop rest on it: when the
loop finds nothing to run, nothing to time out and nothing to poll, the registered
tasks can only be waiting for each other.
-/

namespace Microthread

open Foundation Rt

namespace Sys

variable {s : Sys} {t : TaskId} {w : Nat}

/-- Task `t` is held by the structure its state names, once, and by no other. -/
structure Held (s : Sys) (t : TaskId) : Prop where
  alive : (s.rt.task t).state ≠ .dead
  runq : s.rt.runq.items.count t = if (s.rt.task t).state = .ready then 1 else 0
  worker : (s.rt.task t).state = .running → ∃! w, s.workers w = .running t
  noWorker : (s.rt.task t).state ≠ .running → ∀ w, s.workers w ≠ .running t
  timers : s.rt.timers.items.count t =
    if (s.rt.task t).state = .sleeping ∨ (s.rt.task t).state = .waitingFd ∨
      ((s.rt.task t).state = .waitingSelect ∧ (s.rt.task t).selectInTimer = true) then 1 else 0
  senders : ∀ ch, (s.rt.waitq (.senders ch)).items.count t =
    if (s.rt.task t).state = .waitingChan ∧ (s.rt.task t).chanWaitKind = .send ∧
      (s.rt.task t).chanWaitCh = some ch then 1 else 0
  receivers : ∀ ch, (s.rt.waitq (.receivers ch)).items.count t =
    if (s.rt.task t).state = .waitingChan ∧ (s.rt.task t).chanWaitKind = .recv ∧
      (s.rt.task t).chanWaitCh = some ch then 1 else 0
  chan : (s.rt.task t).state = .waitingChan →
    (s.rt.task t).chanWaitKind ≠ .none ∧ ∃ ch, (s.rt.task t).chanWaitCh = some ch
  joiners : ∀ x, (s.rt.waitq (.joiners x)).items.count t =
    if (s.rt.task t).state = .waitingJoin ∧ (s.rt.task t).joinWaitingOn = some x then 1 else 0
  join : (s.rt.task t).state = .waitingJoin → ∃ x, (s.rt.task t).joinWaitingOn = some x
  select : (s.rt.task t).state = .waitingSelect → ∀ v ∈ (s.rt.task t).selectWaiters,
    (s.rt.selw v).task = t ∧ (s.rt.selw v).active = true ∧
      ((s.rt.selw v).op = .send ∨ (s.rt.selw v).op = .recv) ∧
      (s.rt.selectq (s.rt.selw v).ref).items.count v = 1
  selectOnly : ∀ r, ∀ v ∈ (s.rt.selectq r).items, (s.rt.selw v).task = t →
    (s.rt.task t).state = .waitingSelect ∧ v ∈ (s.rt.task t).selectWaiters ∧ r = (s.rt.selw v).ref
  fd : (s.rt.task t).state = .waitingFd → ∃ v, (s.rt.task t).fdWaiter = some v ∧
    (s.rt.fdw v).task = t ∧ (s.rt.fdw v).state = .active ∧ s.rt.fdWaiters.count v = 1
  fdOnly : ∀ v ∈ s.rt.fdWaiters, (s.rt.fdw v).task = t → (s.rt.task t).fdWaiter = some v ∧
    ((s.rt.fdw v).state = .active → (s.rt.task t).state = .waitingFd)

/-- A placed element occurs as often in a list as its label says. -/
theorem count_slot (h : s.rt.Inv) (ht : t ∈ s.rt.allTasks) (x : Slot) {p : Prop} [Decidable p]
    (hp : (s.rt.task t).slot = some x ↔ p) : (s.rt.slotItems x).count t = if p then 1 else 0 := by
  split
  · next hpos => exact h.task.placed.count_eq_one ht (hp.mpr hpos)
  · next hneg =>
      refine List.count_eq_zero.mpr fun hmem => hneg (hp.mp ?_)
      exact ((h.task.placed.mem x t).mp hmem).2

theorem slot_eq_runq {k : Task} : k.slot = some .runq ↔ k.state = .ready := by
  unfold Task.slot
  cases k.state <;> simp

theorem slot_eq_timers {k : Task} (hfd : k.state = .waitingFd → k.fdInTimer = true) :
    k.slot = some .timers ↔ k.state = .sleeping ∨ k.state = .waitingFd ∨
      (k.state = .waitingSelect ∧ k.selectInTimer = true) := by
  unfold Task.slot
  cases hs : k.state <;> simp_all

theorem slot_eq_senders {k : Task} {ch : ChanId} :
    k.slot = some (.waitq (.senders ch)) ↔
      k.state = .waitingChan ∧ k.chanWaitKind = .send ∧ k.chanWaitCh = some ch := by
  unfold Task.slot Task.chanRef
  cases hs : k.state <;> cases hk : k.chanWaitKind <;> cases hc : k.chanWaitCh <;> simp

theorem slot_eq_receivers {k : Task} {ch : ChanId} :
    k.slot = some (.waitq (.receivers ch)) ↔
      k.state = .waitingChan ∧ k.chanWaitKind = .recv ∧ k.chanWaitCh = some ch := by
  unfold Task.slot Task.chanRef
  cases hs : k.state <;> cases hk : k.chanWaitKind <;> cases hc : k.chanWaitCh <;> simp

theorem slot_eq_joiners {k : Task} {x : HandleId} :
    k.slot = some (.waitq (.joiners x)) ↔ k.state = .waitingJoin ∧ k.joinWaitingOn = some x := by
  unfold Task.slot Task.chanRef
  cases hs : k.state <;> cases hk : k.chanWaitKind <;> cases hc : k.chanWaitCh <;> simp

/-- The invariant of the system puts every registered task in its place. -/
theorem Ok.held (h : s.Ok) (ht : t ∈ s.rt.allTasks) : s.Held t := by
  have hinv := h.rest.inv
  have hrun : (s.rt.task t).state = .running ↔ ∃ w, s.workers w = .running t := by
    rw [← h.runs]
    exact (and_iff_right ht).symm
  refine ⟨fun hd => h.rest.noDead t ⟨ht, hd⟩, count_slot hinv ht .runq slot_eq_runq, fun hr => ?_,
    fun hr v hv => hr (hrun.mpr ⟨v, hv⟩),
    count_slot hinv ht .timers (slot_eq_timers fun hs => (hinv.fd.waiting t ht hs).1),
    fun ch => count_slot hinv ht _ slot_eq_senders, fun ch => count_slot hinv ht _ slot_eq_receivers,
    fun hs => ?_, fun x => count_slot hinv ht _ slot_eq_joiners, fun hs => ?_, fun _ v hv => ?_,
    fun r v hv hvt => ?_, fun hs => ?_, fun v hv hvt => ?_⟩
  · obtain ⟨v, hv⟩ := hrun.mp hr
    exact ⟨v, hv, fun u hu => h.once u v t hu hv⟩
  · have hne := hinv.task.chanRef t ht hs
    unfold Task.chanRef at hne
    cases hk : (s.rt.task t).chanWaitKind <;> cases hc : (s.rt.task t).chanWaitCh <;>
      simp_all
  · exact Option.ne_none_iff_exists'.mp (hinv.task.joinRef t ht hs)
  · obtain ⟨htask, hactive, hop⟩ := hinv.select.owner t ht v hv
    refine ⟨htask, hactive, hop, List.count_eq_one_of_mem (hinv.select.placed.nodup _) ?_⟩
    exact hinv.select.mem_ref ht hv
  · obtain ⟨⟨-, hmem⟩, href⟩ := (hinv.select.placed.mem r v).mp hv
    rw [hvt] at hmem
    refine ⟨?_, hmem, (Option.some.inj href).symm⟩
    by_contra hne
    by_cases hr : (s.rt.task t).state = .running
    · simp [h.rest.noWaiters t ⟨ht, hr⟩] at hmem
    · simp [hinv.select.idle t ht hne hr] at hmem
  · obtain ⟨-, hfd⟩ := hinv.fd.waiting t ht hs
    obtain ⟨v, hv⟩ := Option.ne_none_iff_exists'.mp hfd
    obtain ⟨hmem, htask⟩ := hinv.fd.linked t ht v hv
    refine ⟨v, hv, htask, ?_, List.count_eq_one_of_mem hinv.fd.nodup hmem⟩
    exact (hinv.fd.owner v hmem).2.2.2.mpr (by rw [htask]; exact hs)
  · obtain ⟨-, howner, -, hactive⟩ := hinv.fd.owner v hv
    rw [hvt] at howner hactive
    exact ⟨howner, hactive.mp⟩

/-- In every run within the contract every registered task is where its state says. -/
theorem task_location (h : machine.Reach Sys.Contract s) : ∀ t ∈ s.rt.allTasks, s.Held t :=
  fun _ ht => (ok_of_reach (fun _ _ => id) h).held ht

/-- Three tasks: one is parked in a receive, one in a select over two channels, and one
runs. -/
def parkedTrace : List Act := List.flatten [
  invoke (.ext 0) (.go true 0 false), invoke (.ext 0) (.go true 0 false),
  invoke (.ext 0) (.go true 0 true), invoke (.ext 0) (.chanCreate 4 0),
  invoke (.ext 0) (.chanCreate 4 2), invoke (.ext 0) (.run 1 true) 2, works 0 3,
  invoke (.task 0 0) (.chanRecv (some 4) (some 100)), works 0 2,
  invoke (.task 0 1) (.select [⟨.recv, some 5, some 200, 0⟩, ⟨.recv, some 4, some 300, 0⟩]) 5,
  works 0 2]

theorem task_location_parked : ∃ s, machine.Reach Sys.Contract s ∧
    s.rt.allTasks.map (fun t => (s.rt.task t).state) = [.running, .waitingSelect, .waitingChan] ∧
    ∀ t ∈ s.rt.allTasks, s.Held t := by
  obtain ⟨s, hs, hp⟩ := reach_of_promised .poll parkedTrace
    (fun s => s.rt.allTasks.map (fun t => (s.rt.task t).state) ==
      [.running, .waitingSelect, .waitingChan]) (by decide +kernel)
  exact ⟨s, hs, by simpa using hp, task_location hs⟩

/-! ## The verdicts of the worker loop -/

/-- While a run goes on and nobody has stopped it, its result is `MT_OK`. -/
def Undecided (s : Sys) : Prop :=
  s.rt.running = true → s.rt.stopping = false → s.rt.runResult = .ok

theorem Case.undecided {s s' : Sys} {act : Act} (hc : Case s act s') (h : s.Ok) (hu : s.Undecided) :
    s'.Undecided := by
  have pass : ∀ {rt : Rt}, rt.control = s.rt.control → rt.running = true → rt.stopping = false →
      rt.runResult = .ok := fun hctrl hr hs => by
    simp only [Rt.control, Prod.mk.injEq] at hctrl
    exact hctrl.2.2.2.1.trans (hu (hctrl.2.1 ▸ hr) (hctrl.2.2.1 ▸ hs))
  have keep : ∀ {rt : Rt}, rt.running = s.rt.running → rt.stopping = s.rt.stopping →
      rt.runResult = s.rt.runResult → rt.running = true → rt.stopping = false →
      rt.runResult = .ok := fun h1 h2 h3 hr hs => h3.trans (hu (h1 ▸ hr) (h2 ▸ hs))
  intro hr hs
  cases hc with
  | calls a call =>
      cases a with
      | ext n => exact hu hr hs
      | task w t => exact hu hr hs
  | acts a env c o p es os sel _ _ _ _ _ hsec _ => exact pass (hsec.passes h.rest).control hr hs
  | parks w t env c p hw _ _ _ hp hm =>
      have hws := h.rest.noWaiters t ((h.runs t).mpr ⟨w, hw⟩)
      have hctrl := (Moves.control_eq (Shifts.moves hm.shifts))
      have hpark := (hp.frame hws).2.2
      simp only [Rt.control, Prod.mk.injEq, Rt.leave] at hctrl hpark
      exact keep (hctrl.2.1.trans hpark.2.1) (hctrl.2.2.1.trans hpark.2.2.1)
        (hctrl.2.2.2.1.trans hpark.2.2.2.1) hr hs
  | finishes w t _ _ _ hb =>
      have hctrl := hb.control_eq
      simp only [Rt.control, Prod.mk.injEq, Rt.leave, Rt.die] at hctrl
      exact keep hctrl.2.1 hctrl.2.2.1 hctrl.2.2.2.1 hr hs
  | runBegins => rfl
  | runFails => cases hr
  | aborts => cases hs
  | runEnds => cases hr
  | abortEnds => cases hr
  | halts n env c _ _ hm =>
      have hctrl := Moves.control_eq (Shifts.moves (FdShifts.shifts hm))
      simp only [Rt.control, Prod.mk.injEq, Rt.halt] at hctrl
      rw [ret_eq] at hs
      exact absurd hs (by simp [Sys.setPc, hctrl.2.2.1])
  | shutsDown n env c _ _ _ _ hd =>
      rw [ret_eq] at hr
      exact absurd hr (by simp [Sys.setPc, hd.running])
  | startFails => cases hs
  | loops w q lock _ _ hm => exact pass (Moves.control_eq (Shifts.moves (Ticks.shifts hm))) hr hs
  | exits => cases hs
  | dispatches w env t q _ _ _ hm =>
      have hctrl := Moves.control_eq (Shifts.moves hm.shifts)
      simp only [Rt.control, Prod.mk.injEq, Rt.dispatch] at hctrl
      exact keep hctrl.2.1 hctrl.2.2.1 hctrl.2.2.2.1 hr hs
  | _ => exact hu hr hs

theorem undecided_of_reach {cond : Sys → Act → Prop}
    (hcond : ∀ s s₀ a, s.Ok → s.Prepared s₀ → cond s a → cond s₀ a)
    (h : machine.Reach (Under cond) s) : s.Undecided := by
  refine invariant_of_cases (fun kind hr => by cases hr) (fun s s₀ hok hp hu => ?_) hcond
    (fun s a s' hok hu _ hc => hc.undecided hok hu) h
  rcases hp.cases hok with ⟨tape, rfl⟩ | ⟨-, -, rt, hb, rfl⟩
  · exact hu
  · intro hr
    simp [hb.running] at hr

/-- Nothing can run, time out or become ready, and somebody waits. -/
structure Deadlocked (s : Sys) : Prop where
  runq : s.rt.runq.items = []
  running : ∀ w t, s.workers w ≠ .running t
  timers : s.rt.timers.items = []
  fd : ∀ v ∈ s.rt.fdWaiters, (s.rt.fdw v).state ≠ .active
  tasks : ∀ t ∈ s.rt.allTasks, (s.rt.task t).state = .waitingChan ∨
    (s.rt.task t).state = .waitingSelect ∧ (s.rt.task t).selectInTimer = false ∨
    (s.rt.task t).state = .waitingJoin
  somebody : s.rt.allTasks ≠ []

theorem Ok.allTasks_eq_nil (h : s.Ok) (hlive : s.rt.liveCount = 0) : s.rt.allTasks = [] := by
  have hcount := h.rest.inv.task.live
  rw [hlive, eq_comm, List.countP_eq_zero] at hcount
  refine List.eq_nil_iff_forall_not_mem.mpr fun t ht => ?_
  have hdead := hcount t ht
  simp only [decide_eq_true_eq, not_not] at hdead
  exact h.rest.noDead t ⟨ht, hdead⟩

/-- What the loop has checked when it gives its verdict. -/
theorem Ok.deadlocked (h : s.Ok) (hq : s.rt.runq.items = []) (hrun : s.rt.runningTasks = 0)
    (htimer : s.rt.timerPeek = none) (hfd : s.rt.fdWaitingCount = 0) (hlive : s.rt.liveCount ≠ 0) :
    s.Deadlocked := by
  have hinv := h.rest.inv
  have htimers : s.rt.timers.items = [] := List.head?_eq_none_iff.mp htimer
  have hactive : ∀ v ∈ s.rt.fdWaiters, (s.rt.fdw v).state ≠ .active := fun v hv hact => by
    have := List.countP_eq_zero.mp (hinv.fd.count.symm.trans hfd) v hv
    simp [hact] at this
  have hnorun : ∀ t, ¬s.rt.Runs t := fun t hr => by
    have := h.rest.runningTasks_pos hr
    omega
  refine ⟨hq, fun w t hw => hnorun t ((h.runs t).mpr ⟨w, hw⟩), htimers, hactive, fun t ht => ?_, ?_⟩
  · have hheld := h.held ht
    have hcount := hheld.timers
    have hrunq := hheld.runq
    rw [htimers, List.count_nil] at hcount
    rw [hq, List.count_nil] at hrunq
    cases hs : (s.rt.task t).state with
    | ready => simp [hs] at hrunq
    | running => exact absurd ⟨ht, hs⟩ (hnorun t)
    | sleeping => simp [hs] at hcount
    | waitingChan => exact .inl rfl
    | waitingSelect => exact .inr (.inl ⟨rfl, by simpa [hs] using hcount⟩)
    | waitingFd => simp [hs] at hcount
    | waitingJoin => exact .inr (.inr rfl)
    | dead => exact absurd hs hheld.alive
  · intro hnil
    exact hlive (by simp [hinv.task.live, hnil])

theorem runResult_of_shifts {r r' : Rt} (hm : Shifts r r') : r'.runResult = r.runResult := by
  have := Moves.control_eq (Shifts.moves hm)
  simp only [Rt.control, Prod.mk.injEq] at this
  exact this.2.2.2.1

@[simp] theorem workerPoll_runResult (s : Sys) (w : Nat) (timed : Bool) (k : PollCont) (rt : Rt) :
    (s.workerPoll w timed k rt).rt.runResult = rt.runResult := by
  unfold workerPoll
  split <;> rfl

@[simp] theorem pollCont_runResult (s : Sys) (w : Nat) (k : PollCont) :
    (s.pollCont w k).rt.runResult = s.rt.runResult := by
  cases k <;> rfl

/-- The branches of the idle loop that end the run with `MT_ERR_STATE`. -/
theorem workerIdle_state {env : Env} (hgo : s.rt.stopping = false) (hrc : s.rt.runResult ≠ .state)
    (htimer : s.rt.timerPeek = none) (hres : (s.workerIdle w env).rt.runResult = .state) :
    s.rt.liveCount ≠ 0 ∧ s.rt.fdWaitingCount = 0 ∧ s.rt.runningTasks = 0 := by
  unfold workerIdle at hres
  rw [if_neg (by simp [hgo])] at hres
  split at hres
  · exact absurd hres hrc
  next hlive =>
    split at hres
    · rw [workerPoll_runResult] at hres
      exact absurd hres hrc
    next hfd =>
      rw [htimer] at hres
      simp only at hres
      split at hres
      · next hcond =>
          simp only [Bool.and_eq_true, decide_eq_true_eq] at hcond
          exact ⟨hlive, by omega, hcond.1⟩
      · exact absurd hres hrc

/-- A worker that ends an undecided run with `MT_ERR_STATE` and without a timer has found
a deadlock. -/
theorem Ok.workerStep_state (h : s.Ok) {s' : Sys} {env : Env} (hs : s.workerStep w env = some s')
    (hgo : s.rt.stopping = false) (hrc : s.rt.runResult ≠ .state)
    (htimer : s.rt.timerPeek = none) (hres : s'.rt.runResult = .state) : s.Deadlocked := by
  unfold Sys.workerStep at hs
  split at hs
  · split at hs
    · cases hs
    split at hs
    · cases hs
      cases hres
    · cases hs
      exact absurd hres hrc
  · split at hs
    · cases hs
      have hm := runResult_of_shifts (Ticks.shifts (h.rest.inv.wakeExpiredTimers env.nowNs))
      unfold Sys.workerTop at hres
      rw [if_neg (by simp [hgo]), if_neg (by simp [hgo])] at hres
      simp only at hres
      split at hres
      · rw [workerPoll_runResult, hm] at hres
        exact absurd hres hrc
      · exact absurd (hm.symm.trans hres) hrc
    · cases hs
  · split at hs
    · cases hs
      unfold Sys.workerPop at hres
      cases hq : s.rt.runq.pop with
      | some p =>
          obtain ⟨t, q⟩ := p
          have hm := runResult_of_shifts (h.rest.inv.taskDispatch hq).shifts
          simp only [Rt.runqPop, hq, Option.map_some] at hres
          have hres' : (({ s.rt with runq := q } : Rt).taskDispatch t).runResult = .state := by
            split at hres <;> exact hres
          exact absurd (hm.symm.trans hres') hrc
      | none =>
          simp only [Rt.runqPop, hq, Option.map_none] at hres
          obtain ⟨hlive, hfd, hrun⟩ := workerIdle_state hgo hrc htimer hres
          exact h.deadlocked (Queue.pop_eq_none.mp hq) hrun htimer hfd hlive
    · cases hs
  · next k batch hw =>
      split at hs
      · cases hs
      · cases hs
        rw [pollCont_runResult] at hres
        have hm := runResult_of_shifts (FdShifts.shifts (h.rest.inv.backendDispatch batch))
        exact absurd (hm.symm.trans hres) hrc
  · split at hs
    · cases hs
    · cases hs
      rw [pollCont_runResult] at hres
      exact absurd hres hrc
  · split at hs
    · cases hs
    · cases hs
      exact absurd hres hrc
  · split at hs
    · cases hs
    · cases hs
      exact absurd hres hrc
  · cases hs

/-- The verdict of a worker is right: it ends a run with `MT_ERR_STATE` for want of a
timer only in a deadlock, and when it finds no live task there is none. -/
theorem deadlock_verdict_sound {s' : Sys} {env : Env} (h : machine.Reach Sys.Contract s)
    (hstep : machine.step s (.worker w env) = some s') (hgo : s.rt.stopping = false) :
    (s.rt.timerPeek = none → s'.rt.runResult = .state → s.Deadlocked) ∧
      (s.rt.liveCount = 0 → s.rt.allTasks = []) := by
  have hreach : machine.Reach (Under fun _ _ => True) s := h.mono fun _ _ hc => ⟨hc, trivial⟩
  have hok := ok_of_under hreach
  have hrun : s.rt.running = true := by
    by_contra hr
    have hoff := hok.workers_off (by simpa using hr) w
    simp [machine, Sys.step, Sys.workerStep, hoff] at hstep
  have hundecided := undecided_of_reach (fun _ _ _ _ _ h => h) hreach hrun hgo
  refine ⟨fun htimer hres => ?_, fun hlive => ?_⟩
  · have hdead := (hok.tick env.tape).workerStep_state hstep hgo
      (by simp [Sys.tick, hundecided]) htimer hres
    exact ⟨hdead.runq, hdead.running, hdead.timers, hdead.fd, hdead.tasks, hdead.somebody⟩
  · exact hok.allTasks_eq_nil hlive

/-- A task waits for a value that nobody will send, and a second worker is idle. -/
def deadlockTrace : List Act := List.flatten [
  invoke (.ext 0) (.go true 0 false), invoke (.ext 0) (.chanCreate 4 0),
  invoke (.ext 0) (.run 2 true) 4, works 0 3, works 1 3,
  invoke (.task 0 0) (.chanRecv (some 1) (some 100)), works 0 1]

theorem deadlock_verdict_sound_two_workers : ∃ s s', machine.Reach Sys.Contract s ∧
    machine.step s (.worker 0 {}) = some s' ∧ s'.rt.runResult = .state ∧
    s.workers 1 = .idleWait ∧ s.Deadlocked := by
  obtain ⟨s, hs, hp⟩ := reach_of_promised .poll deadlockTrace (fun s =>
      !s.rt.stopping && s.rt.timerPeek.isNone && s.workers 1 == .idleWait &&
        (machine.step s (.worker 0 {})).any fun s' => s'.rt.runResult == .state)
    (by decide +kernel)
  simp only [Bool.and_eq_true, Bool.not_eq_true', Option.isNone_iff_eq_none, beq_iff_eq,
    Option.any_eq_true] at hp
  obtain ⟨⟨⟨hgo, htimer⟩, hidle⟩, s', hstep, hres⟩ := hp
  exact ⟨s, s', hs, hstep, hres, hidle, (deadlock_verdict_sound hs hstep hgo).1 htimer hres⟩

end Sys

end Microthread
