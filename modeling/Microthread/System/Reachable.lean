import Microthread.Invariant.Passage
import Microthread.System.Classify

/-!
# Reachable states

Every case of a step keeps the invariant of the system, so every state that a
run within the contract reaches meets it.
-/

namespace Microthread

open Foundation Rt

theorem Rt.Rest.log {s : Rt} (h : s.Rest) (l : List Event) : ({ s with log := l } : Rt).Rest :=
  (Rt.Rest.of_woken h (show ({ s with log := l } : Rt).Inv from
    h.inv.congr ⟨rfl, rfl, rfl, rfl, rfl, rfl, rfl, rfl, rfl, rfl, rfl, rfl, rfl, rfl, rfl⟩
      rfl rfl rfl rfl) rfl rfl fun _ _ => .inl rfl).1

theorem Rt.Off.log {s : Rt} (h : s.Off) (l : List Event) : ({ s with log := l } : Rt).Off :=
  (h.rest.log l).off h.allTasks h.channels h.handles

theorem Rt.Tried.mono {s s' : Rt} {p : Pc} (h : s.Tried p) (hk : ∀ ch, s.Known ch → s'.Known ch) :
    s'.Tried p :=
  fun k hm hch => hk _ (h k hm hch)

theorem Rt.tried_nil {s : Rt} {p : Pc} (h : p.tried = []) : s.Tried p := by
  simp [Tried, h]

/-! ## Parking -/

theorem Rt.Marked.task_eq {r r' : Rt} (hm : Marked r r') : r'.task = r.task := by
  rcases hm with rfl | ⟨x, st, -, rfl⟩ <;> rfl

theorem Rt.Marked.made_eq {r r' : Rt} (hm : Marked r r') : r'.made = r.made := by
  rcases hm with rfl | ⟨x, st, -, rfl⟩ <;> rfl

theorem Rt.Marked.log_eq {r r' : Rt} (hm : Marked r r') : r'.log = r.log := by
  rcases hm with rfl | ⟨x, st, -, rfl⟩ <;> rfl

theorem Rt.SelectParks.task_eq {t : TaskId} {cases : List SelectCase} {plan : SelectPlan}
    {s s' : Rt} (hp : SelectParks t cases plan s s') :
    (s'.task t).state = .waitingSelect ∧ (s'.task t).call = (s.task t).call ∧
      (s'.task t).fdWaiter = (s.task t).fdWaiter := by
  have key : ∀ tape, ((s.enrolled t cases plan tape).task t).call = (s.task t).call ∧
      ((s.enrolled t cases plan tape).task t).fdWaiter = (s.task t).fdWaiter := fun tape => by
    obtain ⟨ws, n, h⟩ := addWaiters_task t 0 cases (s.prepareSelect t (plan.timeoutIndex.getD 0))
    change ((addWaiters t 0 cases _).task t).call = _ ∧ ((addWaiters t 0 cases _).task t).fdWaiter = _
    rw [h]
    simp [prepareSelect, modTask]
  cases hp with
  | untimed tape =>
      simp only [Rt.parkSelect, Function.update_self]
      exact ⟨trivial, key tape⟩
  | timed tape timers wakeNs i =>
      simp only [Rt.parkSelectTimed, Function.update_self]
      exact ⟨trivial, key tape⟩

/-- What parking leaves to the rest of the system. -/
theorem Parks.frame {t : TaskId} {c : CallId} {q p : Pc} {s s' : Rt}
    (hp : Parks t c q s p s') (hws : (s.task t).selectWaiters = []) :
    (∀ o, s.made o = true → s'.made o = true) ∧ (∀ ch, s.Known ch → s'.Known ch) ∧
      s'.control = s.control := by
  cases hp with
  | select cases plan _ hch hp =>
      have key : ∀ tape, (∀ o, s.made o = true → (s.enrolled t cases plan tape).made o = true) ∧
          (∀ ch, s.Known ch → (s.enrolled t cases plan tape).Known ch) ∧
          (s.enrolled t cases plan tape).control = s.control := fun tape => by
        have hreg := enrolled_registers hws hch plan tape
        have hmade := Registers.made hreg
        have hlive := Registers.live_chan hreg
        obtain ⟨_, _, _, _, _, _, _, _, _, _, _, _, heq⟩ := Registers.enrols hreg
        rw [heq] at hmade hlive ⊢
        exact ⟨hmade, fun ch hk => hk.of_live rfl (hlive ch), rfl⟩
      cases hp with
      | untimed tape => exact key tape
      | timed tape timers wakeNs i => exact key tape
  | fd timers wakeNs x use _ hq =>
      obtain ⟨gens, polling, interest, filters, tape, rfl⟩ := hq
      refine ⟨fun o ho => made_update ho, fun ch hk => hk.of_live rfl fun hl => ?_, rfl⟩
      simpa [Live, Rt.parkFd] using hl
  | _ => exact ⟨fun _ => id, fun _ => id, rfl⟩

theorem Loops.facts {w : Nat} {p q : WorkerPc} {l l' : Option Nat} (hl : Loops w p l q l') :
    p.active = true ∧ q.active = true ∧ (∀ u, p ≠ .running u) ∧ ∀ u, q ≠ .running u := by
  cases hl with
  | keep hp hq =>
      refine ⟨?_, ?_, fun u hu => ?_, fun u hu => ?_⟩
      · cases p <;> simp_all [WorkerPc.active, WorkerPc.locked]
      · cases q <;> simp_all [WorkerPc.active, WorkerPc.locked]
      · simp [hu, WorkerPc.locked] at hp
      · simp [hu, WorkerPc.locked] at hq
  | drop hp hqa hq hqr =>
      refine ⟨?_, hqa, fun u hu => ?_, hqr⟩
      · cases p <;> simp_all [WorkerPc.active, WorkerPc.locked]
      · simp [hu, WorkerPc.locked] at hp
  | take hpa hp hpr hq =>
      refine ⟨hpa, ?_, hpr, fun u hu => ?_⟩
      · cases q <;> simp_all [WorkerPc.active, WorkerPc.locked]
      · simp [hu, WorkerPc.locked] at hq
  | collect => simp [WorkerPc.active]

namespace Sys

variable {s s' : Sys} {w : Nat} {t : TaskId}

/-! ## Records and program counters -/

/-- The place of an agent that runs outside `mt_run_internal` and has not parked. -/
structure Going (p : Pc) : Prop where
  parked : p.parked = false
  inRun : p.inRun = false
  fresh : p ≠ .fresh
  finished : p ≠ .finished

theorem Going.user : Going .user := ⟨rfl, rfl, by simp, by simp⟩

theorem Going.of_call {p : Pc} {c : CallId} (hc : p.call? = some c) (hp : p.parked = false)
    (hr : p.inRun = false) : Going p :=
  ⟨hp, hr, fun hf => by simp [hf, Pc.call?] at hc, fun hf => by simp [hf, Pc.call?] at hc⟩

theorem Fits.wake {k k' : Task} {p : Pc} {o : Option (Role × Rc)} (h : Fits k p)
    (hw : k.Wake k' o) : Fits k' p := by
  have hst := hw.state_new
  have hparked : p.parked = true := by
    cases hw with
    | chan rc hs => simp [h.chan hs, Pc.parked]
    | cancelChan hs => simp [h.chan hs, Pc.parked]
    | select role rc index hs =>
        obtain ⟨cases, plan, hp⟩ := h.select hs
        simp [hp, Pc.parked]
    | join rc hs =>
        obtain ⟨x, hp, -⟩ := h.join hs
        simp [hp, Pc.parked]
    | sleep hs => simp [h.sleeping hs, Pc.parked]
    | fd rc ready hs =>
        obtain ⟨w, use, hp⟩ := h.fd hs
        simp [hp, Pc.parked]
  exact ⟨by simp [hst], fun _ => .inr hparked, by simp [hst], by simp [hst], by simp [hst],
    by simp [hst], by simp [hst], by simpa [hw.fdWaiter] using h.fdWaiter,
    by simpa [hw.call] using h.call⟩

theorem Fits.new {k : Task} (h : k.New) : Fits k .fresh := by
  obtain ⟨hs, hf⟩ := h
  exact ⟨by simp [hs], by simp, by simp [hs], by simp [hs], by simp [hs], by simp [hs],
    by simp [hs], by simp [hf], by simp [Pc.call?]⟩

theorem Fits.going {k : Task} {p : Pc} (hp : Going p) (hs : k.state = .running)
    (hf : k.fdWaiter = none) (hc : ∀ c, p.call? = some c → k.call = c) : Fits k p := by
  refine ⟨fun _ => ⟨hp.fresh, hp.finished⟩, by simp [hs], by simp [hs], by simp [hs], by simp [hs],
    by simp [hs], by simp [hs], fun w => ?_, hc⟩
  rw [hf]
  refine iff_of_false (by simp) ?_
  rintro ⟨c, use, rfl⟩
  cases hp.parked

theorem Fits.stays {k k' : Task} {p : Pc} (h : Fits k p) (hk : k.Stays k') : Fits k' p := by
  cases hk with
  | same => exact h
  | woken o hw => exact h.wake hw
  | touched hr hr' hc hf =>
      exact ⟨fun _ => h.running hr, by simp [hr'], by simp [hr'], by simp [hr'], by simp [hr'],
        by simp [hr'], by simp [hr'], by simpa [hf] using h.fdWaiter, by simpa [hc] using h.call⟩

/-- The place at which a task parks fits its new state. -/
theorem fits_of_parks {c : CallId} {q p : Pc} {r r' : Rt} (hp : Parks t c q r p r')
    (hcall : (r.task t).call = c) (hfd : (r.task t).fdWaiter = none) :
    Fits (r'.task t) p ∧ p.inRun = false := by
  cases hp with
  | send ch value =>
      refine ⟨?_, rfl⟩
      constructor <;> simp [Rt.parkChan, Task.chanRole, hcall, hfd, Pc.call?]
  | recv ch out =>
      refine ⟨?_, rfl⟩
      constructor <;> simp [Rt.parkChan, Task.chanRole, hcall, hfd, Pc.call?]
  | select cases plan _ hch hp =>
      obtain ⟨hst, hc, hf⟩ := hp.task_eq
      refine ⟨?_, rfl⟩
      constructor <;> simp [hst, hc, hf, hcall, hfd, Pc.call?]
  | join x =>
      refine ⟨?_, rfl⟩
      constructor <;> simp [Rt.parkJoin, hcall, hfd, Pc.call?]
  | sleep tape timers wakeNs =>
      refine ⟨?_, rfl⟩
      constructor <;> simp [Rt.parkSleep, hfd, Pc.call?]
  | yield =>
      refine ⟨?_, rfl⟩
      constructor <;> simp [Rt.parkYield, hfd, Pc.call?, Pc.parked]
  | fd timers wakeNs x use _ hq =>
      obtain ⟨gens, polling, interest, filters, tape, rfl⟩ := hq
      refine ⟨?_, rfl⟩
      constructor <;> simp [Rt.parkFd, hcall, Pc.call?]

/-! ## The run in progress -/

/-- A step of someone who is not in `mt_run_internal`. -/
theorem RunInv.frame (h : s.RunInv) (hw : s'.workers = s.workers)
    (hctrl : s'.rt.control = s.rt.control)
    (hpc : ∀ a, s'.pc a = s.pc a ∨ ((s.pc a).inRun = false ∧ (s'.pc a).inRun = false)) :
    s'.RunInv := by
  simp only [Rt.control, Prod.mk.injEq] at hctrl
  obtain ⟨-, hrun, hstop, -, hcount, hact, -⟩ := hctrl
  have hin : ∀ a, (s'.pc a).inRun = true → s'.pc a = s.pc a := fun a ha =>
    (hpc a).resolve_right fun hn => by simp [hn.2] at ha
  constructor
  · simpa [hw, hrun, hcount] using h.bound
  · intro a ha
    rw [hrun]
    exact h.runner a (hin a ha ▸ ha)
  · intro a b ha hb
    exact h.single a b (hin a ha ▸ ha) (hin b hb ▸ hb)
  · intro a c k ha
    rw [hw]
    exact h.alloc a c k (hin a (by simp [ha, Pc.inRun]) ▸ ha)
  · intro a c k ha
    rw [hcount]
    exact h.allocCount a c k (hin a (by simp [ha, Pc.inRun]) ▸ ha)
  · intro a c k j ha
    rw [hcount, hw]
    exact h.spawn a c k j (hin a (by simp [ha, Pc.inRun]) ▸ ha)
  · intro t
    rcases hpc (.task t) with heq | hn
    · rw [heq]
      exact h.task t
    · exact hn.2
  · intro w hx
    rw [hstop]
    exact h.exited w (hw ▸ hx)
  · rw [hact, hcount, hw]
    exact h.active

theorem RunInv.stop (h : s.RunInv) {rt : Rt} (hrun : rt.running = s.rt.running)
    (hcount : rt.workerCount = s.rt.workerCount) (hstop : s.rt.stopping = true → rt.stopping = true)
    (hact : rt.activeWorkers = s.rt.activeWorkers) : ({ s with rt := rt } : Sys).RunInv := by
  constructor
  · simpa [hrun, hcount] using h.bound
  · simpa [hrun] using h.runner
  · exact h.single
  · exact h.alloc
  · simpa [hcount] using h.allocCount
  · simpa [hcount] using h.spawn
  · exact h.task
  · exact fun w hx => hstop (h.exited w hx)
  · simpa [hcount, hact] using h.active

/-- A worker that has started goes on or exits. -/
theorem RunInv.worker (h : s.RunInv) {q : WorkerPc} {r : Rt} (hw : s.workers w ≠ .off)
    (hrun : r.running = s.rt.running) (hcount : r.workerCount = s.rt.workerCount)
    (hstop : s.rt.stopping = true → r.stopping = true)
    (hexit : q = .exited → r.stopping = true)
    (hact : r.activeWorkers + (if (s.workers w).active then 1 else 0) =
      s.rt.activeWorkers + if q.active then 1 else 0) (lock : Option Nat) :
    ({ s with rt := r, lock := lock }.setWorker w q).RunInv := by
  obtain ⟨hlt, hon⟩ := h.bound w hw
  constructor
  · intro v hv
    simp only [Sys.setWorker, hrun, hcount]
    by_cases hvw : v = w
    · subst hvw
      exact ⟨hlt, hon⟩
    · refine h.bound v ?_
      simpa [Sys.setWorker, hvw] using hv
  · simpa [Sys.setWorker, hrun] using h.runner
  · exact h.single
  · intro a c k ha
    exact absurd (h.alloc a c k ha w) hw
  · simpa [Sys.setWorker, hcount] using h.allocCount
  · intro a c k j ha
    obtain ⟨hj, hk, hc, h0, hoff⟩ := h.spawn a c k j ha
    have hw0 : w ≠ 0 := by
      rintro rfl
      exact hw h0
    refine ⟨hj, hk, by simpa [Sys.setWorker, hcount] using hc, ?_, fun v hv => ?_⟩
    · simpa [Sys.setWorker, hw0.symm] using h0
    · have hvw : v ≠ w := by
        rintro rfl
        exact hw (hoff v hv)
      simpa [Sys.setWorker, hvw] using hoff v hv
  · exact h.task
  · intro v hv
    by_cases hvw : v = w
    · subst hvw
      exact hexit (by simpa [Sys.setWorker] using hv)
    · exact hstop (h.exited v (by simpa [Sys.setWorker, hvw] using hv))
  · have hsum := countP_update (f := s.workers) (v := q) (p := WorkerPc.active)
      (List.nodup_range (n := s.rt.workerCount)) (List.mem_range.mpr hlt)
    have hold := h.active
    simp only [Sys.setWorker, hcount]
    omega

/-! ## Steps of tasks and threads -/

theorem Ok.initialized (h : s.Ok) (hr : s.rt.running = true) : s.rt.initialized = true := by
  cases hi : s.rt.initialized with
  | true => rfl
  | false => simp [(h.off hi).2] at hr

/-- Someone at a place in the code moves on while the runtime passes a section. -/
theorem Ok.pass (h : s.Ok) {rt : Rt} (hp : Passes s.rt rt) {a : Actor} {p : Pc}
    (hen : s.enabled a = true) (hold : Going (s.pc a.agent)) (hnew : Going p)
    (hcall : ∀ u c, a.agent = .task u → p.call? = some c → (s.pc a.agent).call? = some c)
    (htried : rt.Tried p) (l : List Event) (os : Os) :
    ({ s with rt := { rt with log := l }, os := os }.setPc a.agent p).Ok := by
  have hctrl := hp.control
  simp only [Rt.control, Prod.mk.injEq] at hctrl
  have hpc : ∀ g, g ≠ a.agent →
      ({ s with rt := { rt with log := l }, os := os }.setPc a.agent p).pc g = s.pc g :=
    fun g hg => Function.update_of_ne hg _ _
  have hself : ({ s with rt := { rt with log := l }, os := os }.setPc a.agent p).pc a.agent = p :=
    Function.update_self _ _ _
  have hruns : ∀ u, rt.Runs u ↔ ∃ w, s.workers w = .running u := fun u =>
    (hp.runs u).trans (h.runs u)
  constructor
  · exact hp.rest.log l
  · intro hi
    obtain ⟨hoff, hrun⟩ := h.off (hctrl.1.symm.trans hi)
    exact ⟨(hp.off (hctrl.1.symm.trans hi) hoff).log l, hctrl.2.1.trans hrun⟩
  · exact hruns
  · exact h.once
  · exact h.lock
  · refine h.run.frame rfl hp.control fun g => ?_
    by_cases hg : g = a.agent
    · subst hg
      exact .inr ⟨hold.inRun, by rw [hself]; exact hnew.inRun⟩
    · exact .inl (hpc g hg)
  · intro u hu
    rcases hp.tasks u hu with ⟨hmem, hstays⟩ | ⟨hmade, hk⟩
    · have hfits := (h.fits u hmem).stays hstays
      by_cases hg : Agent.task u = a.agent
      · rw [hg, hself]
        rw [hg] at hfits
        refine .going hnew ?_ ?_ fun c hc => hfits.call c (hcall u c hg.symm hc)
        · cases a with
          | ext n => cases hg
          | task w t =>
              cases hg
              exact ((hruns u).mpr ⟨w, enabled_task.mp hen⟩).2
        · cases hfd : (rt.task u).fdWaiter with
          | none => exact hfd
          | some v =>
              obtain ⟨c, use, hpark⟩ := (hfits.fdWaiter v).mp hfd
              have := hold.parked
              simp [hpark, Pc.parked] at this
      · rw [hpc _ hg]
        exact hfits
    · have hfresh := h.fresh u hmade
      have hg : Agent.task u ≠ a.agent := fun hg => hold.fresh (hg ▸ hfresh)
      rw [hpc _ hg, hfresh]
      exact .new hk
  · intro u (hu : rt.made (.task u) = false)
    have hmade : s.rt.made (.task u) = false := by
      cases hm : s.rt.made (.task u) with
      | false => rfl
      | true => simp [hp.made _ hm] at hu
    have hfresh := h.fresh u hmade
    have hg : Agent.task u ≠ a.agent := fun hg => hold.fresh (hg ▸ hfresh)
    rw [hpc _ hg]
    exact hfresh
  · intro u hu
    by_cases hg : Agent.task u = a.agent
    · rw [hg, hself]
      exact htried
    · rw [hpc _ hg]
      exact (h.tried u ((hp.runs u).mp hu)).mono hp.known
  · intro n
    by_cases hg : Agent.ext n = a.agent
    · rw [hg, hself]
      exact htried
    · rw [hpc _ hg]
      exact (h.triedExt n).mono hp.known

/-- The runtime passes a section while everyone stays where they are. -/
theorem Ok.passIdle (h : s.Ok) {rt : Rt} (hp : Passes s.rt rt) (os : Os) :
    ({ s with rt := rt, os := os } : Sys).Ok := by
  have hctrl := hp.control
  simp only [Rt.control, Prod.mk.injEq] at hctrl
  refine ⟨hp.rest, fun hi => ?_, fun u => (hp.runs u).trans (h.runs u), h.once, h.lock,
    h.run.frame rfl hp.control fun _ => .inl rfl, fun u hu => ?_, fun u hu => ?_,
    fun u hu => (h.tried u ((hp.runs u).mp hu)).mono hp.known,
    fun n => (h.triedExt n).mono hp.known⟩
  · obtain ⟨hoff, hrun⟩ := h.off (hctrl.1.symm.trans hi)
    exact ⟨hp.off (hctrl.1.symm.trans hi) hoff, hctrl.2.1.trans hrun⟩
  · rcases hp.tasks u hu with ⟨hmem, hstays⟩ | ⟨hmade, hk⟩
    · exact (h.fits u hmem).stays hstays
    · simp only [h.fresh u hmade]
      exact .new hk
  · refine h.fresh u ?_
    cases hm : s.rt.made (.task u) with
    | false => rfl
    | true =>
        change rt.made (.task u) = false at hu
        simp [hp.made _ hm] at hu

/-- A task leaves its processor. -/
theorem Ok.leaves (h : s.Ok) {b : Rt} {p : Pc} (hw : s.workers w = .running t)
    (hold : (s.pc (.task t)).inRun = false) (hmt : s.rt.made (.task t) = true)
    (hl : s.lock = none) (hrest : b.Rest) (hruns : ∀ u, b.Runs u ↔ u ≠ t ∧ s.rt.Runs u)
    (htasks : ∀ u ∈ b.allTasks, u ≠ t → u ∈ s.rt.allTasks ∧ (s.rt.task u).Stays (b.task u))
    (ht : t ∈ b.allTasks → Fits (b.task t) p) (hp : p.inRun = false)
    (hmade : ∀ o, s.rt.made o = true → b.made o = true)
    (hknown : ∀ ch, s.rt.Known ch → b.Known ch) (hctrl : b.control = s.rt.leave.control) :
    (({ s with rt := b, lock := some w }.setPc (.task t) p).setWorker w .top).Ok := by
  have hne : s.workers w ≠ .off := by simp [hw]
  have hon := (h.run.bound w hne).2
  have hinit := h.initialized hon
  simp only [Rt.control, Prod.mk.injEq, Rt.leave] at hctrl
  have hwork : ∀ v u, Function.update s.workers w .top v = WorkerPc.running u ↔
      v ≠ w ∧ s.workers v = .running u := fun v u => by
    by_cases hv : v = w
    · subst hv
      simp
    · simp [hv]
  have hpc : ∀ u, u ≠ t → Function.update s.pc (.task t) p (.task u) = s.pc (.task u) :=
    fun u hu => Function.update_of_ne (by simpa using hu) _ _
  constructor
  · exact hrest
  · intro hi
    simp [Sys.setWorker, Sys.setPc, hctrl.1, hinit] at hi
  · intro u
    rw [show ((({ s with rt := b, lock := some w } : Sys).setPc (.task t) p).setWorker w
      .top).rt.Runs u ↔ u ≠ t ∧ s.rt.Runs u from hruns u, h.runs]
    simp only [Sys.setWorker, Sys.setPc, hwork]
    constructor
    · rintro ⟨hu, v, hv⟩
      refine ⟨v, fun hvw => hu ?_, hv⟩
      rw [hvw, hw] at hv
      exact (WorkerPc.running.inj hv).symm
    · rintro ⟨v, hv, hvu⟩
      refine ⟨fun hu => hv ?_, v, hvu⟩
      exact h.once v w t (hu ▸ hvu) hw
  · intro v x u hv hx
    simp only [Sys.setWorker, Sys.setPc, hwork] at hv hx
    exact h.once v x u hv.2 hx.2
  · intro v
    simp only [Sys.setWorker, Sys.setPc]
    by_cases hv : v = w
    · subst hv
      simp [WorkerPc.locked]
    · have := h.lock v
      rw [hl] at this
      simpa [hv, Ne.symm hv] using this
  · have hrun : (s.setPc (.task t) p).RunInv := h.run.frame rfl rfl fun g => by
      by_cases hg : g = .task t
      · subst hg
        exact .inr ⟨hold, by simpa [Sys.setPc] using hp⟩
      · exact .inl (Function.update_of_ne hg _ _)
    exact hrun.worker (r := b) (q := .top) hne hctrl.2.1 hctrl.2.2.2.2.1
      (fun hs => hctrl.2.2.1.trans hs) (by simp)
      (by simp [Sys.setPc, hw, WorkerPc.active, hctrl.2.2.2.2.2.1]) (some w)
  · intro u hu
    simp only [Sys.setWorker, Sys.setPc]
    by_cases hut : u = t
    · subst hut
      rw [Function.update_self]
      exact ht hu
    · rw [hpc u hut]
      obtain ⟨hmem, hstays⟩ := htasks u hu hut
      exact (h.fits u hmem).stays hstays
  · intro u (hu : b.made (.task u) = false)
    have hmu : s.rt.made (.task u) = false := by
      cases hm : s.rt.made (.task u) with
      | false => rfl
      | true => simp [hmade _ hm] at hu
    have hut : u ≠ t := by
      rintro rfl
      simp [hmt] at hmu
    simp only [Sys.setWorker, Sys.setPc]
    rw [hpc u hut]
    exact h.fresh u hmu
  · intro u hu
    obtain ⟨hut, hr⟩ := (hruns u).mp hu
    simp only [Sys.setWorker, Sys.setPc]
    rw [hpc u hut]
    exact (h.tried u hr).mono hknown
  · exact fun n => (h.triedExt n).mono hknown

theorem Ok.parks (h : s.Ok) {c : CallId} {p : Pc} {rt b : Rt} (hw : s.workers w = .running t)
    (hl : s.lock = none) (hcall : (s.pc (.task t)).call? = some c)
    (hnp : (s.pc (.task t)).parked = false) (hp : Parks t c (s.pc (.task t)) s.rt p rt)
    (hm : Marked rt.leave b) :
    (({ s with rt := b, lock := some w }.setPc (.task t) p).setWorker w .top).Ok := by
  have hr := (h.runs t).mpr ⟨w, hw⟩
  have hws := h.rest.noWaiters t hr
  have hparked := hp.parked h.rest hr
  obtain ⟨hmade, hknown, hctrl⟩ := hp.frame hws
  obtain ⟨hfits, hin⟩ := fits_of_parks hp ((h.fits t hr.1).call c hcall) (h.fdWaiter_eq_none hr hnp)
  have hms := hm.shifts
  have htask : b.task = rt.task := hm.task_eq
  have hall : b.allTasks = s.rt.allTasks := (Moves.allTasks_eq (Shifts.moves hms)).trans
    hparked.allTasks
  have hpos := h.rest.runningTasks_pos hr
  have hbctrl : b.control = s.rt.leave.control := by
    rw [Moves.control_eq (Shifts.moves hms)]
    simp only [Rt.control, Prod.mk.injEq, Rt.leave] at hctrl ⊢
    obtain ⟨h1, h2, h3, h4, h5, h6, h7⟩ := hctrl
    exact ⟨h1, h2, h3, h4, h5, h6, by rw [h7]⟩
  have hcount : b.runningTasks + 1 = s.rt.runningTasks := by
    simp only [Rt.control, Prod.mk.injEq, Rt.leave] at hbctrl
    omega
  obtain ⟨hrest, hruns⟩ := h.rest.of_departed hr (Shifts.inv hms hparked.inv.leave) hall
    (fun u hu => htask ▸ hparked.others u hu) (htask ▸ hparked.state) hcount
  refine h.leaves hw (h.run.task t) (h.rest.inv.heap.task t hr.1).1 hl hrest hruns
    (fun u hu hut => ⟨hall ▸ hu, ?_⟩) (fun _ => htask ▸ hfits) hin (fun o ho => ?_)
    (fun ch hk => Moves.known (Shifts.moves hms) ch (hknown ch hk)) hbctrl
  · rw [htask, hparked.others u hut]
    exact .same
  · rw [hm.made_eq]
    exact hmade o ho

theorem Ok.finishes (h : s.Ok) {b : Rt} (hw : s.workers w = .running t) (hl : s.lock = none)
    (hb : Buries t (s.rt.leave.die t) b) :
    (({ s with rt := b, lock := some w }.setPc (.task t) .finished).setWorker w .top).Ok := by
  have hr := (h.runs t).mpr ⟨w, hw⟩
  have hdie : (s.rt.leave.die t).Inv := h.rest.inv.leave.die hr.1 hr.2 (h.rest.noWaiters t hr)
  obtain ⟨hrest, hruns⟩ := h.rest.bury hr hb
  refine h.leaves hw (h.run.task t) (h.rest.inv.heap.task t hr.1).1 hl hrest hruns
    (fun u hu hut => ?_) (fun ht => absurd rfl ((hb.mem hdie).mp ht).1) rfl (hb.made) (hb.known)
    hb.control_eq
  obtain ⟨-, hmem⟩ := (hb.mem hdie).mp hu
  refine ⟨hmem, ?_⟩
  have hsame : (s.rt.leave.die t).task u = s.rt.task u := Function.update_of_ne hut _ _
  have hstay := hb.task_eq_or hdie hmem hut
  rw [hsame] at hstay
  rcases hstay with heq | ⟨o, hwake, -⟩
  · exact heq ▸ .same
  · exact .woken o hwake

/-- A running task that stands at `p` may be given another place. -/
theorem Ok.passTask (h : s.Ok) {rt : Rt} {p : Pc} (hw : s.workers w = .running t)
    (hrest : rt.Rest) (hruns : ∀ u, rt.Runs u ↔ s.rt.Runs u) (hall : rt.allTasks = s.rt.allTasks)
    (hne : ∀ u, u ≠ t → rt.task u = s.rt.task u) (hfits : Fits (rt.task t) p)
    (hmade : rt.made = s.rt.made) (hknown : ∀ ch, s.rt.Known ch → rt.Known ch)
    (hctrl : rt.control = s.rt.control) (hin : p.inRun = false) (htried : rt.Tried p) :
    ({ s with rt := rt }.setPc (.task t) p).Ok := by
  have hr := (h.runs t).mpr ⟨w, hw⟩
  have hinit := h.initialized (h.run.bound w (by simp [hw])).2
  have hpc : ∀ u, u ≠ t → Function.update s.pc (.task t) p (.task u) = s.pc (.task u) :=
    fun u hu => Function.update_of_ne (by simpa using hu) _ _
  have hmt := (h.rest.inv.heap.task t hr.1).1
  constructor
  · exact hrest
  · intro (hi : rt.initialized = false)
    simp only [Rt.control, Prod.mk.injEq] at hctrl
    simp [hctrl.1, hinit] at hi
  · exact fun u => (hruns u).trans (h.runs u)
  · exact h.once
  · exact h.lock
  · refine h.run.frame rfl hctrl fun g => ?_
    by_cases hg : g = .task t
    · subst hg
      exact .inr ⟨h.run.task t, by simpa [Sys.setPc] using hin⟩
    · exact .inl (Function.update_of_ne hg _ _)
  · intro u (hu : u ∈ rt.allTasks)
    simp only [Sys.setPc]
    by_cases hut : u = t
    · subst hut
      rw [Function.update_self]
      exact hfits
    · rw [hpc u hut, hne u hut]
      exact h.fits u (hall ▸ hu)
  · intro u (hu : rt.made (.task u) = false)
    have hut : u ≠ t := by
      rintro rfl
      simp [hmade, hmt] at hu
    simp only [Sys.setPc]
    rw [hpc u hut]
    exact h.fresh u (hmade ▸ hu)
  · intro u hu
    simp only [Sys.setPc]
    by_cases hut : u = t
    · subst hut
      rw [Function.update_self]
      exact htried
    · rw [hpc u hut]
      exact (h.tried u ((hruns u).mp hu)).mono hknown
  · exact fun n => (h.triedExt n).mono hknown

theorem Ok.resumesFd (h : s.Ok) {c : CallId} {v : FdWaiterId} {use : WaitUse}
    {o : Option (Role × Rc)} {p : Pc} {es : List Event} (hw : s.workers w = .running t)
    (hpc : s.pc (.task t) = .fdPark c v use) (hon : Onward c (s.pc (.task t)) s.rt o p es) :
    ({ s with rt := { s.rt.finishFd t v with log := s.rt.log ++ es } }.setPc (.task t) p).Ok := by
  have hr := (h.runs t).mpr ⟨w, hw⟩
  have hfits := h.fits t hr.1
  have hfd : (s.rt.task t).fdWaiter = some v := (hfits.fdWaiter v).mpr ⟨c, use, hpc⟩
  obtain ⟨hrest, hruns, hknown⟩ := h.rest.finishFd_passes hr hfd
  have hgoing : Going p ∧ (∀ d, p.call? = some d → d = c) ∧ s.rt.Tried p := by
    cases hon with
    | on p hc hp hi ht =>
        exact ⟨.of_call hc hp hi, fun d hd => Option.some.inj (hd.symm.trans hc), ht⟩
    | out role rc => exact ⟨.user, by simp [Pc.call?], tried_nil rfl⟩
  obtain ⟨hg, hcall, htried⟩ := hgoing
  refine h.passTask hw (hrest.log _) hruns rfl (fun u hu => ?_) ?_ rfl hknown rfl hg.inRun
    (htried.mono hknown)
  · simp [Rt.finishFd, hu]
  · refine .going hg ?_ ?_ fun d hd => ?_
    · simpa [Rt.finishFd] using hr.2
    · simp [Rt.finishFd]
    · rw [hcall d hd]
      simpa [Rt.finishFd] using hfits.call c (by simp [hpc, Pc.call?])

theorem Ok.returnsUser (h : s.Ok) (hw : s.workers w = .running t)
    (hpc : ∀ c v use, s.pc (.task t) ≠ .fdPark c v use) (l : List Event) :
    ({ s with rt := { s.rt with log := l } }.setPc (.task t) .user).Ok := by
  have hr := (h.runs t).mpr ⟨w, hw⟩
  have hfd : (s.rt.task t).fdWaiter = none := by
    cases hf : (s.rt.task t).fdWaiter with
    | none => rfl
    | some v =>
        obtain ⟨c, use, hp⟩ := ((h.fits t hr.1).fdWaiter v).mp hf
        exact absurd hp (hpc c v use)
  exact h.passTask hw (h.rest.log l) (fun _ => Iff.rfl) rfl (fun _ _ => rfl)
    (.going .user hr.2 hfd (by simp [Pc.call?])) rfl (fun _ hk => hk) rfl rfl (tried_nil rfl)

/-- The invariant does not read the table of descriptors and the names of calls. -/
theorem Ok.misc (h : s.Ok) (os : Os) (sleep : Bool) (n : CallId)
    (calls : CallId → Option (Agent × Api)) :
    ({ s with os := os, sleepForTimers := sleep, nextCall := n, calls := calls } : Sys).Ok :=
  ⟨h.rest, h.off, h.runs, h.once, h.lock,
    ⟨h.run.bound, h.run.runner, h.run.single, h.run.alloc, h.run.allocCount, h.run.spawn,
      h.run.task, h.run.exited, h.run.active⟩, h.fits, h.fresh, h.tried, h.triedExt⟩

theorem Ok.calls (h : s.Ok) {a : Actor} (call : Api) (hen : s.enabled a = true)
    (hpc : s.pc a.agent = .user) : (s.enter a call).Ok := by
  have hgoing : Going (.called s.nextCall call) := .of_call (c := s.nextCall) rfl rfl rfl
  cases a with
  | ext n =>
      have hpass := h.pass (a := .ext n) (Shifts.passes .refl h.rest) hen (hpc ▸ .user) hgoing
        (fun u c hu => by cases hu) (tried_nil rfl) s.rt.log s.os
      exact hpass.misc s.os s.sleepForTimers (s.nextCall + 1) _
  | task w t =>
      have hw := enabled_task.mp hen
      have hr := (h.runs t).mpr ⟨w, hw⟩
      have hfd := h.fdWaiter_eq_none hr (by simp [show s.pc (.task t) = .user from hpc, Pc.parked])
      have hinv := h.rest.inv.touch (f := fun k => { k with call := s.nextCall }) hr.2 hr.2
        rfl rfl rfl rfl
      obtain ⟨hrest, hruns⟩ := h.rest.of_touched hinv hr rfl rfl hr.2 (h.rest.noWaiters t hr) rfl
      have hpass := h.passTask (p := .called s.nextCall call) hw hrest hruns rfl
        (fun u hu => Function.update_of_ne hu _ _)
        (.going hgoing (by simpa [Rt.modTask] using hr.2) (by simpa [Rt.modTask] using hfd)
          fun c hc => by simpa [Rt.modTask, Pc.call?] using hc) rfl (fun _ hk => hk) rfl rfl
        (tried_nil rfl)
      exact hpass.misc s.os s.sleepForTimers (s.nextCall + 1) _

theorem Ok.acts (h : s.Ok) {a : Actor} {c : CallId} {o : Option (Role × Rc)} {p : Pc}
    {es : List Event} {rt : Rt} (os : Os) (hen : s.enabled a = true)
    (hc : (s.pc a.agent).call? = some c) (hp : (s.pc a.agent).parked = false)
    (hr : (s.pc a.agent).inRun = false) (hpass : Passes s.rt rt)
    (hon : Onward c (s.pc a.agent) rt o p es) :
    ({ s with rt := { rt with log := rt.log ++ es }, os := os }.setPc a.agent p).Ok := by
  have hold : Going (s.pc a.agent) := .of_call hc hp hr
  cases hon with
  | on p hpc hpp hpr ht =>
      exact h.pass hpass hen hold (.of_call hpc hpp hpr)
        (fun u d _ hd => by rw [hc, ← hd, hpc]) ht _ os
  | out role rc =>
      exact h.pass hpass hen hold .user (fun u d _ hd => by cases hd) (tried_nil rfl) _ os

/-! ## The worker loop -/

/-- A worker moves between points of its loop where it runs no task. -/
theorem Ok.worker (h : s.Ok) {q : WorkerPc} {rt : Rt} {lock : Option Nat} (hp : Passes s.rt rt)
    (hne : s.workers w ≠ .off) (hnr : ∀ u, s.workers w ≠ .running u) (hqr : ∀ u, q ≠ .running u)
    (hlock : ∀ v, lock = some v ↔ if v = w then q.locked = true else (s.workers v).locked = true)
    (hrun : ({ s with rt := rt, lock := lock }.setWorker w q).RunInv) :
    ({ s with rt := rt, lock := lock }.setWorker w q).Ok := by
  have hon := (h.run.bound w hne).2
  have hinit := h.initialized hon
  have hctrl := hp.control
  simp only [Rt.control, Prod.mk.injEq] at hctrl
  have hwork : ∀ v u, Function.update s.workers w q v = WorkerPc.running u ↔
      s.workers v = .running u := fun v u => by
    by_cases hv : v = w
    · subst hv
      simp [hnr, hqr]
    · simp [hv]
  constructor
  · exact hp.rest
  · intro (hi : rt.initialized = false)
    simp [hctrl.1, hinit] at hi
  · intro u
    simp only [Sys.setWorker, hwork]
    exact (hp.runs u).trans (h.runs u)
  · intro v x u hv hx
    simp only [Sys.setWorker, hwork] at hv hx
    exact h.once v x u hv hx
  · intro v
    refine (hlock v).trans ?_
    by_cases hv : v = w
    · simp [Sys.setWorker, hv]
    · simp [Sys.setWorker, hv]
  · exact hrun
  · intro u hu
    rcases hp.tasks u hu with ⟨hmem, hstays⟩ | ⟨hmade, hk⟩
    · exact (h.fits u hmem).stays hstays
    · simp only [Sys.setWorker, h.fresh u hmade]
      exact .new hk
  · intro u (hu : rt.made (.task u) = false)
    refine h.fresh u ?_
    cases hm : s.rt.made (.task u) with
    | false => rfl
    | true => simp [hp.made _ hm] at hu
  · exact fun u hu => (h.tried u ((hp.runs u).mp hu)).mono hp.known
  · exact fun n => (h.triedExt n).mono hp.known

theorem active_ne_off {p : WorkerPc} (h : p.active = true) : p ≠ .off := by
  rintro rfl
  cases h

theorem Ok.loops (h : s.Ok) {q : WorkerPc} {lock : Option Nat} {rt : Rt}
    (hl : Loops w (s.workers w) s.lock q lock) {k : FdCause} (hm : Ticks k s.rt rt) :
    ({ s with rt := rt, lock := lock }.setWorker w q).Ok := by
  obtain ⟨hpa, hqa, hpr, hqr⟩ := hl.facts
  have hp := Shifts.passes (Ticks.shifts hm) h.rest
  have hctrl := hp.control
  simp only [Rt.control, Prod.mk.injEq] at hctrl
  obtain ⟨-, hrun, hstop, -, hcount, hact, -⟩ := hctrl
  refine h.worker hp (active_ne_off hpa) hpr hqr (fun v => ?_)
    (h.run.worker (active_ne_off hpa) hrun hcount (fun hs => hstop.trans hs) ?_ ?_ lock)
  · have hlock := h.lock v
    generalize hpw : s.workers w = p at hl
    generalize hsl : s.lock = l at hl hlock
    by_cases hv : v = w
    · subst hv
      simp only [if_true]
      cases hl with
      | keep _ hq => simp [hq]
      | drop _ _ hq => simp [hq]
      | take _ _ _ hq => simp [hq]
      | collect => simpa [hpw, WorkerPc.locked] using hlock
    · simp only [hv, if_false]
      cases hl with
      | keep => exact hlock
      | drop =>
          rw [← hlock]
          simp [Ne.symm hv]
      | take =>
          rw [← hlock]
          simp [Ne.symm hv]
      | collect => exact hlock
  · rintro rfl
    cases hqa
  · simp [hpa, hqa, hact]

/-- Only the flags of the run, the counters of the worker loop and places outside the
tasks change. -/
theorem Ok.of_flags (h : s.Ok) (hrt : s'.rt = { s.rt with
      running := s'.rt.running, stopping := s'.rt.stopping, runResult := s'.rt.runResult
      workerCount := s'.rt.workerCount, activeWorkers := s'.rt.activeWorkers
      suppressed := s'.rt.suppressed, tape := s'.rt.tape, log := s'.rt.log })
    (hon : s.rt.initialized = true)
    (hwork : ∀ v u, s'.workers v = .running u ↔ s.workers v = .running u)
    (hlock : ∀ v, s'.lock = some v ↔ (s'.workers v).locked = true) (hrun : s'.RunInv)
    (htask : ∀ u, s'.pc (.task u) = s.pc (.task u))
    (hext : ∀ n, s'.pc (.ext n) = s.pc (.ext n) ∨ (s'.pc (.ext n)).tried = []) : s'.Ok := by
  obtain ⟨rt, os, lock, workers, pc, sleep, next, calls⟩ := s'
  simp only at hrt
  generalize rt.running = r at hrt
  generalize rt.stopping = st at hrt
  generalize rt.runResult = rc at hrt
  generalize rt.workerCount = n at hrt
  generalize rt.activeWorkers = m at hrt
  generalize rt.suppressed = b at hrt
  generalize rt.tape = tp at hrt
  generalize rt.log = l at hrt
  subst hrt
  have hinv : ({ s.rt with
      running := r, stopping := st, runResult := rc, workerCount := n, activeWorkers := m
      suppressed := b, tape := tp, log := l } : Rt).Inv :=
    h.rest.inv.congr ⟨rfl, rfl, rfl, rfl, rfl, rfl, rfl, rfl, rfl, rfl, rfl, rfl, rfl, rfl, rfl⟩
      rfl rfl rfl rfl
  refine ⟨⟨hinv, h.rest.noWaiters, h.rest.noDead, h.rest.running⟩, fun hi => ?_, fun u => ?_,
    fun v x u hv hx => ?_, hlock, hrun, fun u hu => ?_, fun u hu => ?_, fun u hu => ?_,
    fun j => ?_⟩
  · simp [hon] at hi
  · refine (h.runs u).trans ?_
    simp only [hwork]
  · exact h.once v x u ((hwork v u).mp hv) ((hwork x u).mp hx)
  · rw [htask]
    exact h.fits u hu
  · exact (htask u).trans (h.fresh u hu)
  · rw [htask]
    exact h.tried u hu
  · rcases hext j with heq | hnil
    · rw [heq]
      exact h.triedExt j
    · exact tried_nil hnil

theorem Ok.starts (h : s.Ok) (hw : s.workers w = .start) (hl : s.lock = none) :
    ({ s with
      rt := { s.rt with activeWorkers := s.rt.activeWorkers + 1 }
      lock := some w }.setWorker w .top).Ok := by
  have hne : s.workers w ≠ .off := by simp [hw]
  refine h.of_flags rfl (h.initialized (h.run.bound w hne).2) (fun v u => ?_) (fun v => ?_)
    (h.run.worker (q := .top) (r := { s.rt with activeWorkers := s.rt.activeWorkers + 1 }) hne rfl
      rfl id (by simp) (by simp [hw, WorkerPc.active]) (some w))
    (fun _ => rfl) fun _ => .inl rfl
  · by_cases hv : v = w
    · subst hv
      simp [Sys.setWorker, hw]
    · simp [Sys.setWorker, hv]
  · by_cases hv : v = w
    · subst hv
      simp [Sys.setWorker, WorkerPc.locked]
    · have := h.lock v
      rw [hl] at this
      simpa [Sys.setWorker, hv, Ne.symm hv] using this

/-- A worker leaves the loop, or never enters it. -/
theorem Ok.workerGone (h : s.Ok) {r : Rt} {l : Option Nat} (hne : s.workers w ≠ .off)
    (hnr : ∀ u, s.workers w ≠ .running u)
    (hlock : ∀ v, v ≠ w → (l = some v ↔ (s.workers v).locked = true)) (hlw : l ≠ some w)
    (hrt : r = { s.rt with
      stopping := true, runResult := r.runResult, activeWorkers := r.activeWorkers
      suppressed := r.suppressed })
    (hact : r.activeWorkers + (if (s.workers w).active then 1 else 0) = s.rt.activeWorkers) :
    ({ s with rt := r, lock := l }.setWorker w .exited).Ok := by
  have hrun : r.running = s.rt.running := by rw [hrt]
  have hcount : r.workerCount = s.rt.workerCount := by rw [hrt]
  have hstop : r.stopping = true := by rw [hrt]
  refine h.of_flags ?_ (h.initialized (h.run.bound w hne).2) (fun v u => ?_) (fun v => ?_)
    (h.run.worker (q := .exited) hne hrun hcount (fun _ => hstop) (fun _ => hstop)
      (by rw [hact]; rfl) l)
    (fun _ => rfl) fun _ => .inl rfl
  · simp only [Sys.setWorker]
    rw [hrt]
  · by_cases hv : v = w
    · subst hv
      simp [Sys.setWorker, hnr]
    · simp [Sys.setWorker, hv]
  · by_cases hv : v = w
    · subst hv
      simp [Sys.setWorker, WorkerPc.locked, hlw]
    · simpa [Sys.setWorker, hv] using hlock v hv

theorem Ok.startFails (h : s.Ok) (hw : s.workers w = .start) :
    ({ s with rt := { s.rt with runResult := .err, stopping := true } }.setWorker w .exited).Ok := by
  have hlw : s.lock ≠ some w := fun hl => by
    have := (h.lock w).mp hl
    simp [hw, WorkerPc.locked] at this
  exact h.workerGone (r := { s.rt with runResult := .err, stopping := true }) (by simp [hw])
    (by simp [hw]) (fun v _ => h.lock v) hlw rfl (by simp [hw, WorkerPc.active])

theorem locked_active {p : WorkerPc} (h : p.locked = true) :
    p.active = true ∧ ∀ u, p ≠ .running u := by
  cases p <;> simp_all [WorkerPc.active, WorkerPc.locked]

theorem Ok.activeWorkers_pos (h : s.Ok) (ha : (s.workers w).active = true) :
    0 < s.rt.activeWorkers := by
  rw [h.run.active]
  exact List.countP_pos_iff.mpr ⟨w, List.mem_range.mpr (h.run.bound w (active_ne_off ha)).1, ha⟩

theorem Ok.exits (h : s.Ok) (hw : (s.workers w).locked = true) (hl : s.lock = some w) (rc : Rc) :
    (s.workerExit w { s.rt with runResult := rc, stopping := true }).Ok := by
  obtain ⟨ha, hnr⟩ := locked_active hw
  have hpos := h.activeWorkers_pos ha
  refine h.workerGone (l := none) (active_ne_off ha) hnr (fun v hv => ?_) (by simp) rfl ?_
  · rw [← h.lock v, hl]
    simp [Ne.symm hv]
  · simp only [guarded, ha, if_true]
    omega

/-- A ready task begins its function, or goes on where it has parked. -/
theorem Fits.dispatched {k : Task} {p : Pc} (h : Fits k p) (hready : k.state = .ready)
    (hin : p.inRun = false) : ∃ q, (if p = Pc.fresh then Pc.user else p) = q ∧
      q.inRun = false ∧ q.tried = [] ∧ Fits { k with state := .running } q := by
  refine ⟨_, rfl, ?_⟩
  by_cases hf : p = .fresh
  · simp only [hf, if_true]
    refine ⟨rfl, rfl, .going .user rfl ?_ (by simp [Pc.call?])⟩
    cases hfd : k.fdWaiter with
    | none => rfl
    | some v =>
        obtain ⟨c, use, hp⟩ := (h.fdWaiter v).mp hfd
        simp [hf] at hp
  · simp only [hf, if_false]
    have hparked := (h.ready hready).resolve_left hf
    refine ⟨hin, ?_, ⟨fun _ => ⟨hf, ?_⟩, by simp, by simp, by simp, by simp, by simp,
      by simp, h.fdWaiter, h.call⟩⟩
    · cases p <;> simp_all [Pc.parked, Pc.tried]
    · rintro rfl
      simp [Pc.parked] at hparked

theorem running_update {ws : Nat → WorkerPc} (hfree : ∀ u, ws w ≠ .running u) (u : TaskId) :
    (∃ v, Function.update ws w (.running t) v = .running u) ↔ u = t ∨ ∃ v, ws v = .running u := by
  constructor
  · rintro ⟨v, hv⟩
    by_cases hvw : v = w
    · subst hvw
      exact .inl (by simpa using hv.symm)
    · exact .inr ⟨v, by simpa [hvw] using hv⟩
  · rintro (rfl | ⟨v, hv⟩)
    · exact ⟨w, by simp⟩
    · have hvw : v ≠ w := fun heq => hfree u (heq ▸ hv)
      exact ⟨v, by simpa [hvw] using hv⟩

/-- A task that nobody runs is run by one worker only once it is dispatched. -/
theorem once_update {ws : Nat → WorkerPc}
    (honce : ∀ v x u, ws v = .running u → ws x = .running u → v = x)
    (hnot : ∀ v, ws v ≠ .running t) : ∀ v x u, Function.update ws w (.running t) v = .running u →
      Function.update ws w (.running t) x = .running u → v = x := by
  intro v x u hv hx
  by_cases hvw : v = w
  · subst hvw
    obtain rfl : t = u := by simpa using hv
    by_contra hne
    rw [Function.update_of_ne (Ne.symm hne)] at hx
    exact hnot x hx
  · rw [Function.update_of_ne hvw] at hv
    by_cases hxw : x = w
    · subst hxw
      obtain rfl : t = u := by simpa using hx
      exact absurd hv (hnot v)
    · rw [Function.update_of_ne hxw] at hx
      exact honce v x u hv hx

theorem Ok.dispatches (h : s.Ok) {q : Queue TaskId} {b : Rt} (hw : s.workers w = .pop)
    (hl : s.lock = some w) (hq : s.rt.runq.pop = some (t, q)) (hm : Marked (s.rt.dispatch t q) b) :
    (({ s with rt := b, lock := none }.setPc (.task t)
      (if s.pc (.task t) = Pc.fresh then Pc.user else s.pc (.task t))).setWorker w
        (.running t)).Ok := by
  have hne : s.workers w ≠ .off := by simp [hw]
  have hinit := h.initialized (h.run.bound w hne).2
  have hmem : t ∈ s.rt.runq.items := by simp [(Queue.pop_eq_some.mp hq).1]
  obtain ⟨ht, hready⟩ := h.rest.inv.mem_runq hmem
  obtain ⟨hrest, hruns⟩ := h.rest.dispatch hq
  have hp := Shifts.passes hm.shifts hrest
  have hctrl : b.control = (s.rt.dispatch t q).control := hp.control
  simp only [Rt.control, Prod.mk.injEq, Rt.dispatch] at hctrl
  have hall : b.allTasks = s.rt.allTasks := (Moves.allTasks_eq (Shifts.moves hm.shifts)).trans rfl
  have hother : ∀ u, u ≠ t → b.task u = s.rt.task u := fun u hu => by
    rw [hm.task_eq]
    exact Function.update_of_ne hu _ _
  have hself : b.task t = { s.rt.task t with state := .running } := by
    rw [hm.task_eq]
    exact Function.update_self _ _ _
  have hmade : b.made = s.rt.made := hm.made_eq
  have hnot : ∀ v, s.workers v ≠ .running t := fun v hv => by
    have := ((h.runs t).mpr ⟨v, hv⟩).2
    simp [hready] at this
  have hpc : ∀ u p, u ≠ t → Function.update s.pc (.task t) p (.task u) = s.pc (.task u) :=
    fun u p hu => Function.update_of_ne (by simpa using hu) _ _
  obtain ⟨p, hplace, hin, htried, hfit⟩ := (h.fits t ht).dispatched hready (h.run.task t)
  rw [hplace]
  constructor
  · exact hp.rest
  · intro (hi : b.initialized = false)
    simp [hctrl.1, hinit] at hi
  · intro u
    rw [show ((({ s with rt := b, lock := none } : Sys).setPc (.task t) p).setWorker w
      (.running t)).rt.Runs u ↔ u = t ∨ s.rt.Runs u from (hp.runs u).trans (hruns u), h.runs]
    exact (running_update (by simp [hw]) u).symm
  · exact once_update h.once hnot
  · intro v
    simp only [Sys.setWorker, Sys.setPc]
    by_cases hv : v = w
    · subst hv
      simp [WorkerPc.locked]
    · rw [Function.update_of_ne hv, ← h.lock v, hl]
      simp [Ne.symm hv]
  · have hrun : (s.setPc (.task t) p).RunInv := h.run.frame rfl rfl fun g => by
      by_cases hg : g = .task t
      · subst hg
        exact .inr ⟨h.run.task t, by simpa [Sys.setPc] using hin⟩
      · exact .inl (Function.update_of_ne hg _ _)
    exact hrun.worker (r := b) (q := .running t) hne hctrl.2.1 hctrl.2.2.2.2.1
      (fun hs => hctrl.2.2.1.trans hs) (by simp)
      (by simp [Sys.setPc, hw, WorkerPc.active, hctrl.2.2.2.2.2.1]) none
  · intro u (hu : u ∈ b.allTasks)
    simp only [Sys.setWorker, Sys.setPc]
    by_cases hut : u = t
    · subst hut
      rw [Function.update_self, hself]
      exact hfit
    · rw [hpc u p hut, hother u hut]
      exact h.fits u (hall ▸ hu)
  · intro u (hu : b.made (.task u) = false)
    have hut : u ≠ t := by
      rintro rfl
      simp [hmade, (h.rest.inv.heap.task u ht).1] at hu
    simp only [Sys.setWorker, Sys.setPc]
    rw [hpc u p hut]
    exact h.fresh u (hmade ▸ hu)
  · intro u hu
    simp only [Sys.setWorker, Sys.setPc]
    by_cases hut : u = t
    · subst hut
      rw [Function.update_self]
      exact tried_nil htried
    · rw [hpc u p hut]
      have hr := ((hruns u).mp ((hp.runs u).mp hu)).resolve_left hut
      exact (h.tried u hr).mono fun ch hk => hp.known ch hk
  · exact fun n => (h.triedExt n).mono fun ch hk => hp.known ch hk

/-! ## `mt_run_internal` and `mt_shutdown` -/

theorem RunInv.no_runner (h : s.RunInv) (hr : s.rt.running = false) (a : Agent) :
    (s.pc a).inRun = false := by
  cases hin : (s.pc a).inRun with
  | false => rfl
  | true => simp [h.runner a hin] at hr

theorem RunInv.only_runner (h : s.RunInv) {n : Nat} (hn : (s.pc (.ext n)).inRun = true) (a : Agent)
    (ha : a ≠ .ext n) : (s.pc a).inRun = false := by
  cases hin : (s.pc a).inRun with
  | false => rfl
  | true => exact absurd (h.single a (.ext n) hin hn) ha

/-- The invariant of the run in terms of the one thread that may be in it. -/
theorem RunInv.of_runner {n : Nat} (hothers : ∀ a, a ≠ .ext n → (s.pc a).inRun = false)
    (hrunner : (s.pc (.ext n)).inRun = true → s.rt.running = true)
    (hbound : ∀ w, s.workers w ≠ .off → w < s.rt.workerCount ∧ s.rt.running = true)
    (halloc : ∀ c k, s.pc (.ext n) = .runAlloc c k →
      (∀ w, s.workers w = .off) ∧ 0 < k ∧ s.rt.workerCount = k)
    (hspawn : ∀ c k j, s.pc (.ext n) = .runSpawn c k j → 0 < j ∧ 1 < k ∧ s.rt.workerCount = k ∧
      s.workers 0 = .off ∧ ∀ w, j ≤ w → s.workers w = .off)
    (hexited : ∀ w, s.workers w = .exited → s.rt.stopping = true)
    (hactive : s.rt.activeWorkers =
      (List.range s.rt.workerCount).countP fun w => (s.workers w).active) : s.RunInv := by
  have hself : ∀ a, (s.pc a).inRun = true → a = .ext n := fun a ha => by
    by_contra hne
    simp [hothers a hne] at ha
  constructor
  · exact hbound
  · intro a ha
    exact hrunner (hself a ha ▸ ha)
  · intro a b ha hb
    rw [hself a ha, hself b hb]
  · intro a c k ha
    exact (halloc c k (hself a (by simp [ha, Pc.inRun]) ▸ ha)).1
  · intro a c k ha
    exact (halloc c k (hself a (by simp [ha, Pc.inRun]) ▸ ha)).2
  · intro a c k j ha
    exact hspawn c k j (hself a (by simp [ha, Pc.inRun]) ▸ ha)
  · exact fun t => hothers (.task t) (by simp)
  · exact hexited
  · exact hactive

theorem inactive_facts {p : WorkerPc} (h : p.active = false) :
    p.locked = false ∧ ∀ u, p ≠ .running u := by
  cases p <;> simp_all [WorkerPc.active, WorkerPc.locked]

/-- A step of the thread that runs `mt_run_internal`. -/
theorem Ok.runnerStep (h : s.Ok) {n : Nat} {p : Pc} {r : Rt} {g : Nat → WorkerPc}
    (sleep : Bool) (hon : s.rt.initialized = true)
    (hothers : ∀ a, a ≠ .ext n → (s.pc a).inRun = false)
    (hrt : r = { s.rt with
      running := r.running, stopping := r.stopping, runResult := r.runResult
      workerCount := r.workerCount, activeWorkers := r.activeWorkers
      suppressed := r.suppressed, tape := r.tape, log := r.log })
    (hwork : ∀ v, g v = s.workers v ∨
      ((g v).active = false ∧ (s.workers v).active = false))
    (htried : p.tried = []) (hrunner : p.inRun = true → r.running = true)
    (hbound : ∀ w, g w ≠ .off → w < r.workerCount ∧ r.running = true)
    (halloc : ∀ c k, p = .runAlloc c k → (∀ w, g w = .off) ∧ 0 < k ∧ r.workerCount = k)
    (hspawn : ∀ c k j, p = .runSpawn c k j → 0 < j ∧ 1 < k ∧ r.workerCount = k ∧
      g 0 = .off ∧ ∀ w, j ≤ w → g w = .off)
    (hexited : ∀ w, g w = .exited → r.stopping = true)
    (hactive : r.activeWorkers = (List.range r.workerCount).countP fun w => (g w).active) :
    ({ s with rt := r, workers := g, sleepForTimers := sleep }.setPc (.ext n) p).Ok := by
  have hother : ∀ a, a ≠ .ext n → Function.update s.pc (.ext n) p a = s.pc a :=
    fun a ha => Function.update_of_ne ha _ _
  have hnew : Function.update s.pc (.ext n) p (.ext n) = p := Function.update_self _ _ _
  refine h.of_flags hrt hon (fun v u => ?_) (fun v => ?_) ?_ (fun u => hother (.task u) (by simp))
    fun m => ?_
  · rcases hwork v with heq | ⟨ha, hb⟩
    · simp [Sys.setPc, heq]
    · simp [Sys.setPc, (inactive_facts ha).2, (inactive_facts hb).2]
  · refine (h.lock v).trans ?_
    rcases hwork v with heq | ⟨ha, hb⟩
    · simp [Sys.setPc, heq]
    · simp [Sys.setPc, (inactive_facts ha).1, (inactive_facts hb).1]
  · refine .of_runner (n := n) (fun a ha => ?_) ?_ hbound ?_ ?_ hexited hactive
    · simp only [Sys.setPc, hother a ha]
      exact hothers a ha
    · simpa only [Sys.setPc, hnew] using hrunner
    · simpa only [Sys.setPc, hnew] using halloc
    · simpa only [Sys.setPc, hnew] using hspawn
  · by_cases hm : m = n
    · subst hm
      exact .inr (by simpa only [Sys.setPc, hnew] using htried)
    · exact .inl (hother (.ext m) (by simpa using hm))

theorem Ok.quiet_workers (h : s.Ok) (hr : s.rt.running = false) : s.rt.activeWorkers = 0 := by
  rw [h.run.active]
  exact List.countP_eq_zero.mpr fun w _ => by simp [h.workers_off hr w, WorkerPc.active]

theorem Ok.runBegins (h : s.Ok) {n : Nat} (c : CallId) {k : Nat} (sleep : Bool) (hk : 0 < k)
    (hon : s.rt.initialized = true) (hr : s.rt.running = false) :
    ({ s with
      rt := { s.rt with running := true, stopping := false, runResult := .ok, workerCount := k }
      sleepForTimers := sleep }.setPc (.ext n) (.runAlloc c k)).Ok := by
  have hoff := h.workers_off hr
  refine h.runnerStep (g := s.workers) sleep hon (fun a _ => h.run.no_runner hr a) rfl
    (fun _ => .inl rfl) rfl (fun _ => rfl) (fun w hw => absurd (hoff w) hw) (fun d m hp => ?_)
    (by simp) (fun w hw => ?_) ?_
  · cases hp
    exact ⟨hoff, hk, rfl⟩
  · simp [hoff w] at hw
  · simp [h.quiet_workers hr, hoff, WorkerPc.active]

theorem Ok.runPrepares (h : s.Ok) {n : Nat} {c : CallId} {k : Nat} (tape : List Bool)
    (hpc : s.pc (.ext n) = .runAlloc c k) (hk : 1 < k) :
    ({ s with rt := { s.rt with tape := tape } }.setPc (.ext n) (.runSpawn c k 1)).Ok := by
  have hin : (s.pc (.ext n)).inRun = true := by simp [hpc, Pc.inRun]
  have hoff := h.run.alloc _ _ _ hpc
  refine h.runnerStep (g := s.workers) (r := { s.rt with tape := tape }) s.sleepForTimers
    (h.initialized (h.run.runner _ hin)) (h.run.only_runner hin) rfl (fun _ => .inl rfl) rfl
    (fun _ => h.run.runner _ hin) h.run.bound (by simp) (fun d m j hp => ?_) h.run.exited
    h.run.active
  cases hp
  exact ⟨Nat.one_pos, hk, (h.run.allocCount _ _ _ hpc).2, hoff 0, fun w _ => hoff w⟩

theorem Ok.runFails (h : s.Ok) {n : Nat} {c : CallId} {k : Nat} (tape : List Bool)
    (hpc : s.pc (.ext n) = .runAlloc c k) :
    (s.ret (.ext n) c .neither .nomem { s.rt with tape := tape, running := false }).Ok := by
  have hin : (s.pc (.ext n)).inRun = true := by simp [hpc, Pc.inRun]
  have hoff := h.run.alloc _ _ _ hpc
  rw [ret_eq]
  exact h.runnerStep (g := s.workers) s.sleepForTimers (h.initialized (h.run.runner _ hin))
    (h.run.only_runner hin) rfl (fun _ => .inl rfl) rfl (by simp [Pc.inRun])
    (fun w hw => absurd (hoff w) hw) (by simp) (by simp)
    (fun w hw => by simp [hoff w] at hw) h.run.active

theorem Ok.spawns (h : s.Ok) {n : Nat} {c : CallId} {k j : Nat}
    (hpc : s.pc (.ext n) = .runSpawn c k j) (hj : j < k) :
    ((s.setWorker j .start).setPc (.ext n) (.runSpawn c k (j + 1))).Ok := by
  have hin : (s.pc (.ext n)).inRun = true := by simp [hpc, Pc.inRun]
  have hon := h.run.runner _ hin
  obtain ⟨hj0, hk, hcount, h0, hoff⟩ := h.run.spawn _ _ _ _ hpc
  have hjoff := hoff j (le_refl j)
  refine h.runnerStep (g := Function.update s.workers j .start) s.sleepForTimers
    (h.initialized hon) (h.run.only_runner hin) rfl (fun v => ?_) rfl (fun _ => hon)
    (fun w hw => ?_) (by simp) (fun d m i hp => ?_) (fun w hw => ?_) ?_
  · by_cases hv : v = j
    · subst hv
      exact .inr ⟨by simp [WorkerPc.active], by simp [hjoff, WorkerPc.active]⟩
    · exact .inl (Function.update_of_ne hv _ _)
  · by_cases hv : w = j
    · subst hv
      exact ⟨hcount ▸ hj, hon⟩
    · exact h.run.bound w (by simpa [hv] using hw)
  · cases hp
    refine ⟨Nat.succ_pos j, hk, hcount, ?_, fun w hw => ?_⟩
    · rw [Function.update_of_ne hj0.ne]
      exact h0
    · rw [Function.update_of_ne (Nat.ne_of_gt hw)]
      exact hoff w (Nat.le_of_succ_le hw)
  · by_cases hv : w = j
    · simp [hv] at hw
    · exact h.run.exited w (by simpa [hv] using hw)
  · rw [h.run.active]
    exact (countP_update_same (f := s.workers) (p := WorkerPc.active)
      (by simp [hjoff, WorkerPc.active])).symm

theorem Ok.launches (h : s.Ok) {n : Nat} {c : CallId}
    (hpc : (∃ k, s.pc (.ext n) = .runAlloc c k) ∨ (∃ k j, s.pc (.ext n) = .runSpawn c k j ∧ k ≤ j)) :
    ((s.setWorker 0 .start).setPc (.ext n) (.runLoop c)).Ok := by
  obtain ⟨hin, h0, hpos⟩ : (s.pc (.ext n)).inRun = true ∧ s.workers 0 = .off ∧
      0 < s.rt.workerCount := by
    rcases hpc with ⟨k, hp⟩ | ⟨k, j, hp, -⟩
    · obtain ⟨hk, hcount⟩ := h.run.allocCount _ _ _ hp
      exact ⟨by simp [hp, Pc.inRun], h.run.alloc _ _ _ hp 0, hcount ▸ hk⟩
    · obtain ⟨-, hk, hcount, h0, -⟩ := h.run.spawn _ _ _ _ hp
      exact ⟨by simp [hp, Pc.inRun], h0, by omega⟩
  have hon := h.run.runner _ hin
  refine h.runnerStep (g := Function.update s.workers 0 .start) s.sleepForTimers
    (h.initialized hon) (h.run.only_runner hin) rfl (fun v => ?_) rfl (fun _ => hon)
    (fun w hw => ?_) (by simp) (by simp) (fun w hw => ?_) ?_
  · by_cases hv : v = 0
    · subst hv
      exact .inr ⟨by simp [WorkerPc.active], by simp [h0, WorkerPc.active]⟩
    · exact .inl (Function.update_of_ne hv _ _)
  · by_cases hv : w = 0
    · subst hv
      exact ⟨hpos, hon⟩
    · exact h.run.bound w (by simpa [hv] using hw)
  · by_cases hv : w = 0
    · simp [hv] at hw
    · exact h.run.exited w (by simpa [hv] using hw)
  · rw [h.run.active]
    exact (countP_update_same (f := s.workers) (p := WorkerPc.active)
      (by simp [h0, WorkerPc.active])).symm

theorem Ok.aborts (h : s.Ok) {n : Nat} {c : CallId} {k j : Nat}
    (hpc : s.pc (.ext n) = .runSpawn c k j) :
    ({ s with rt := { s.rt with runResult := .err, stopping := true } }.setPc (.ext n)
      (.runAbort c)).Ok := by
  have hin : (s.pc (.ext n)).inRun = true := by simp [hpc, Pc.inRun]
  have hon := h.run.runner _ hin
  exact h.runnerStep (g := s.workers) s.sleepForTimers (h.initialized hon)
    (h.run.only_runner hin) rfl (fun _ => .inl rfl) rfl (fun _ => hon) h.run.bound (by simp)
    (by simp) (fun _ _ => rfl) h.run.active

/-- All workers have left the loop. -/
theorem Ok.runOver (h : s.Ok) {n : Nat} {c : CallId} {rc : Rc}
    (hin : (s.pc (.ext n)).inRun = true) (stopping : Bool)
    (hall : ∀ w < s.rt.workerCount, s.workers w = .exited ∨ s.workers w = .off) :
    ({ s with workers := fun _ => .off }.ret (.ext n) c .neither rc
      { s.rt with running := false, stopping := stopping }).Ok := by
  have hinactive : ∀ w, (s.workers w).active = false := fun w => by
    by_cases hoff : s.workers w = .off
    · simp [hoff, WorkerPc.active]
    · rcases hall w (h.run.bound w hoff).1 with hx | hx <;> simp [hx, WorkerPc.active]
  rw [ret_eq]
  refine h.runnerStep (g := fun _ => .off) s.sleepForTimers
    (h.initialized (h.run.runner _ hin)) (h.run.only_runner hin) rfl
    (fun v => .inr ⟨rfl, hinactive v⟩) rfl (by simp [Pc.inRun]) (by simp) (by simp) (by simp)
    (by simp) ?_
  rw [h.run.active]
  simp only [hinactive]
  simp [WorkerPc.active]

theorem Ok.halts (h : s.Ok) {n : Nat} {c : CallId} {rt : Rt}
    (hpc : s.pc (.ext n) = .called c .shutdown) (hr : s.rt.running = true)
    (hm : FdShifts .halt s.rt.halt rt) : (s.ret (.ext n) c .neither .ok rt).Ok := by
  have hhalt : ({ s with rt := s.rt.halt } : Sys).Ok :=
    h.of_flags rfl (h.initialized hr) (fun _ _ => Iff.rfl) h.lock
      (h.run.stop rfl rfl (fun _ => rfl) rfl) (fun _ => rfl) fun _ => .inl rfl
  have := hhalt.acts (a := .ext n) (c := c) s.os rfl (by simp [Actor.agent, hpc, Pc.call?])
    (by simp [Actor.agent, hpc, Pc.parked]) (by simp [Actor.agent, hpc, Pc.inRun])
    (Shifts.passes (FdShifts.shifts hm) hhalt.rest) (.out .neither .ok)
  rw [ret_eq]
  exact this

theorem Ok.shutsDown (h : s.Ok) {n : Nat} {c : CallId} {rt : Rt}
    (hr : s.rt.running = false) (halone : s.Alone (.ext n)) (hd : ShutDown s.rt rt) :
    (s.ret (.ext n) c .neither .ok rt).Ok := by
  have hoff := h.workers_off hr
  have hnot := hd.off.log (rt.log ++ [Event.done c .neither .ok, Event.ret c .ok])
  have hpc : ∀ m, Function.update s.pc (.ext n) .user (.ext m) = .user := fun m => by
    by_cases hm : m = n
    · subst hm
      simp
    · rw [Function.update_of_ne (by simpa using hm)]
      exact halone m (by simpa using hm)
  have htask : ∀ u, Function.update s.pc (.ext n) .user (.task u) = s.pc (.task u) :=
    fun u => Function.update_of_ne (by simp) _ _
  rw [ret_eq]
  refine ⟨hnot.rest, fun _ => ⟨hnot, hd.running⟩, fun u => ?_, fun w v u hw => ?_, h.lock, ?_,
    fun u hu => ?_, fun u hu => ?_, fun u hu => absurd hu (hnot.not_runs u), fun m => ?_⟩
  · refine iff_of_false (hnot.not_runs u) ?_
    rintro ⟨w, hw⟩
    simp [Sys.setPc, hoff w] at hw
  · simp [Sys.setPc, hoff w] at hw
  · refine .of_runner (n := n) (fun a ha => ?_) ?_ (fun w hw => absurd (hoff w) hw) ?_ ?_
      (fun w hw => ?_) ?_
    · simp only [Sys.setPc, Actor.agent, Function.update_of_ne ha]
      exact h.run.no_runner hr a
    · simp [Sys.setPc, Actor.agent, Pc.inRun]
    · simp [Sys.setPc, Actor.agent]
    · simp [Sys.setPc, Actor.agent]
    · simp [Sys.setPc, hoff w] at hw
    · refine hd.activeWorkers.trans ?_
      simp [Sys.setPc, hoff, WorkerPc.active]
  · change u ∈ rt.allTasks at hu
    simp [hd.off.allTasks] at hu
  · simp only [Sys.setPc, Actor.agent, htask]
    exact h.fresh u (by rw [← hd.made]; exact hu)
  · refine tried_nil ?_
    simp only [Sys.setPc, Actor.agent, hpc]
    rfl

/-! ## Every step -/

theorem Case.ok {act : Act} (hc : Case s act s') (h : s.Ok) : s'.Ok := by
  cases hc with
  | calls a call hen hpc => exact h.calls call hen hpc
  | acts a env c o p es os sel hen hc hp hr _ hs hon =>
      exact (h.acts os hen hc hp hr (hs.passes h.rest) hon).reindex sel
  | resumesFd w t env c v use o p es hw hpc ho hon => exact h.resumesFd hw hpc hon
  | returns w t env c rc sel hw hr =>
      refine (h.returnsUser hw (fun d v use hpc => ?_) _).reindex sel
      rw [hpc] at hr
      cases hr
  | goesOn w t env hw hpc => exact h.returnsUser hw (by simp [hpc]) s.rt.log
  | parks w t env c p hw hl hcall hnp hp hm => exact h.parks hw hl hcall hnp hp hm
  | finishes w t hw hl hpc hb => exact h.finishes hw hl hb
  | writes a addr v hen hpc =>
      exact h.passIdle (Moves.passes (.single (.write addr v)) h.rest) s.os
  | descriptors os interest filters _ =>
      exact h.passIdle (Shifts.passes (.single (.quiet _ _ _ _ _)) h.rest) os
  | runBegins n env c k sleep hpc hk hon hr => exact h.runBegins c sleep hk hon hr
  | runPrepares n env c k tape hpc hk => exact h.runPrepares tape hpc hk
  | runFails n env c k tape hpc => exact h.runFails tape hpc
  | spawns n env c k j hpc hj => exact h.spawns hpc hj
  | launches n env c hpc => exact h.launches hpc
  | aborts n env c k j hpc => exact h.aborts hpc
  | runEnds n env c hpc hl hall => exact h.runOver (by simp [hpc, Pc.inRun]) false hall
  | abortEnds n env c hpc hl hall => exact h.runOver (by simp [hpc, Pc.inRun]) s.rt.stopping hall
  | halts n env c hpc hr hm => exact h.halts hpc hr hm
  | shutsDown n env c hpc hi hr halone hd => exact h.shutsDown hr halone hd
  | starts w env hw hl => exact h.starts hw hl
  | startFails w env hw => exact h.startFails hw
  | loops w q lock _ hl hm => exact h.loops hl hm
  | exits w env rc hw hl _ => exact h.exits hw hl rc
  | dispatches w env t q hw hl hq hm => exact h.dispatches hw hl hq hm

theorem Ok.initial (kind : IoBackendKind) : ({ rt := { ioBackendBuild := kind } } : Sys).Ok := by
  have hoff : ({ ioBackendBuild := kind } : Rt).Off :=
    ⟨rfl, rfl, rfl, rfl, rfl, rfl, fun _ => rfl, fun _ => rfl, rfl, rfl, rfl, by simp, by simp,
      by simp [Live], by simp, rfl⟩
  refine ⟨hoff.rest, fun _ => ⟨hoff, rfl⟩, fun u => ?_, by simp, by simp [WorkerPc.locked],
    .of_runner (n := 0) (fun a _ => ?_) (by simp [Pc.inRun]) (by simp) (by simp) (by simp)
      (by simp) rfl, by simp, fun _ _ => rfl, fun u hu => absurd hu (hoff.not_runs u),
    fun n => tried_nil rfl⟩
  · exact iff_of_false (hoff.not_runs u) (by simp)
  · cases a <;> rfl

/-- What `mt_init` leaves of an uninitialised runtime. -/
structure Booted (r r' : Rt) : Prop where
  off : r'.Off
  running : r'.running = false
  stopping : r'.stopping = false
  channelWaiting : r'.channelWaitingCount = 0
  joinWaiting : r'.joinWaitingCount = 0
  fdGenerations : r'.fdGenerations = []
  interest : r'.interest = fun _ => none
  task : r'.task = r.task
  chan : r'.chan = r.chan
  handle : r'.handle = r.handle
  fdw : r'.fdw = r.fdw
  made : r'.made = r.made
  frees : r'.frees = r.frees
  nextAddr : r'.nextAddr = r.nextAddr
  mem : r'.mem = r.mem
  log : r'.log = r.log
  suppressed : r'.suppressed = r.suppressed
  build : r'.ioBackendBuild = r.ioBackendBuild

theorem init_booted {r : Rt} (hi : r.initialized = false) (hoff : r.Off) :
    Booted r r.init.2 := by
  have hoff' := hoff.init
  unfold Rt.init at hoff' ⊢
  rw [if_neg (by simp [hi])] at hoff' ⊢
  obtain ⟨ok, tape, hask⟩ := r.reset.ask_eq
  rw [hask] at hoff' ⊢
  cases ok <;>
    exact ⟨hoff', rfl, rfl, rfl, rfl, rfl, rfl, rfl, rfl, rfl, rfl, rfl, rfl, rfl, rfl, rfl, rfl, rfl⟩

/-- A section begins in the state of before with the answers of the allocator, or with a
freshly initialised runtime. -/
theorem Prepared.cases {s₀ : Sys} (hp : s.Prepared s₀) (h : s.Ok) :
    (∃ tape, s₀ = s.tick tape) ∨
      (s.rt.initialized = false ∧ s.rt.Off ∧ ∃ rt, Booted s.rt rt ∧ s₀ = { s with rt := rt }) := by
  obtain ⟨tape, rfl | rfl⟩ := hp
  · exact .inl ⟨tape, rfl⟩
  · cases hi : s.rt.initialized with
    | true => exact .inl ⟨tape, by simp [Sys.boot, init_of_initialized (r := (s.tick tape).rt) hi]⟩
    | false =>
        obtain ⟨hoff, -⟩ := h.off hi
        have hb := init_booted (r := (s.tick tape).rt) hi (hoff.congr rfl)
        exact .inr ⟨rfl, hoff, _, ⟨hb.off, hb.running, hb.stopping, hb.channelWaiting, hb.joinWaiting,
          hb.fdGenerations, hb.interest, hb.task, hb.chan, hb.handle, hb.fdw, hb.made, hb.frees,
          hb.nextAddr, hb.mem, hb.log, hb.suppressed, hb.build⟩, rfl⟩

theorem enabled_of_step {a : Actor} {env : Env} (hs : machine.step s (.cont a env) = some s') :
    s.enabled a = true := by
  simp only [machine, Sys.step] at hs
  split at hs
  · assumption
  · cases hs

/-- While a worker is there, the runtime is initialised and only the tape is fresh. -/
theorem Prepared.tick {s₀ : Sys} (hp : s.Prepared s₀) (h : s.Ok) (hw : s.workers w ≠ .off) :
    ∃ tape, s₀ = s.tick tape := by
  rcases hp.cases h with ht | ⟨hi, -⟩
  · exact ht
  · have hr := (h.run.bound w hw).2
    simp [(h.off hi).2] at hr

/-- A runtime with tasks is initialised. -/
theorem Prepared.tick_of_mem {s₀ : Sys} (hp : s.Prepared s₀) (h : s.Ok) {t : TaskId}
    (ht : t ∈ s.rt.allTasks) : ∃ tape, s₀ = s.tick tape := by
  rcases hp.cases h with htick | ⟨-, hoff, -⟩
  · exact htick
  · simp [hoff.allTasks] at ht

/-- The first section of a call. -/
theorem callApi_of_step {a : Actor} {env : Env} {c : CallId} {call : Api}
    (hpc : s.pc a.agent = .called c call) (hs : s.step (.cont a env) = some s') :
    s' = (s.tick env.tape).callApi a c env call := by
  have hpc' : (s.tick env.tape).pc a.agent = .called c call := hpc
  simp only [Sys.step] at hs
  split at hs
  · change (s.tick env.tape).continueCall a env = some s' at hs
    simp only [Sys.continueCall, hpc'] at hs
    split at hs
    · exact (Option.some.inj hs).symm
    · cases hs
  · cases hs

/-- Every state of a run within the contract meets the invariant. -/
theorem ok_of_reach {ok : Sys → Act → Prop} (hok : ∀ s a, ok s a → s.Contract a)
    (h : machine.Reach ok s) : s.Ok := by
  refine h.invariant (fun s hs => ?_) fun s a t _ hs ha hstep => ?_
  · obtain ⟨kind, rfl⟩ := hs
    exact .initial kind
  · obtain ⟨s₀, hp, hcase⟩ := hs.step_cases (hok s a ha) hstep
    exact hcase.ok (hp.ok hs)

/-- The contract and a further condition on the steps. -/
def Under (cond : Sys → Act → Prop) (s : Sys) (a : Act) : Prop := s.Contract a ∧ cond s a

theorem ok_of_under {cond : Sys → Act → Prop} (h : machine.Reach (Under cond) s) : s.Ok :=
  ok_of_reach (fun _ _ h => h.1) h

/-- An invariant of the runs all of whose steps meet a condition, by cases on the step. -/
theorem invariant_of_cases {C : Sys → Act → Prop} {I : Sys → Prop}
    (hinit : ∀ kind, I { rt := { ioBackendBuild := kind } })
    (hprep : ∀ s s₀, s.Ok → s.Prepared s₀ → I s → I s₀)
    (hcond : ∀ s s₀ a, s.Ok → s.Prepared s₀ → C s a → C s₀ a)
    (hstep : ∀ s a s', s.Ok → I s → C s a → Case s a s' → I s')
    (h : machine.Reach (Under C) s) : I s := by
  refine h.invariant (fun s hs => ?_) fun s a t hr hs ha hstep' => ?_
  · obtain ⟨kind, rfl⟩ := hs
    exact hinit kind
  · have hok := ok_of_under hr
    obtain ⟨s₀, hp, hcase⟩ := hok.step_cases ha.1 hstep'
    exact hstep s₀ a t (hp.ok hok) (hprep s s₀ hok hp hs) (hcond s s₀ a hok hp ha.2) hcase

end Sys

end Microthread
