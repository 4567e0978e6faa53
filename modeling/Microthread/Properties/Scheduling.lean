import Microthread.Properties.Cancellation
import Microthread.System.Ledger
import Microthread.System.Schedule

/-!
# First ready, first run

Every step of the system moves tasks into and out of the set of ready tasks one at a time,
and the run queue serves them in the order in which they have entered it. This holds for
any number of workers: they take tasks from the one queue.
-/

namespace Microthread

open Foundation Rt

namespace Sys

variable {s s' : Sys} {t : TaskId} {act : Act}

/-- The worker gives the first task of the run queue a processor. -/
def Resumes (s : Sys) (t : TaskId) : Act → Prop
  | .worker w _ => s.workers w = .pop ∧ s.rt.runq.items.head? = some t
  | _ => False

instance (s : Sys) (t : TaskId) (act : Act) : Decidable (s.Resumes t act) := by
  induction act using Act.casesOn with
  | worker w env => exact inferInstanceAs (Decidable (_ ∧ _))
  | _ => exact instDecidableFalse

/-- The changes of the set of ready tasks that a step makes, in order. -/
structure Turned (s : Sys) (act : Act) (es : List Turn) (r : Rt) : Prop where
  scheduled : s.rt.Scheduled es r
  withdrawn : ∀ t, .withdraw t ∈ es → s.rt.Ready t ∧ t ∉ r.allTasks ∧ s.Kills t act
  served : ∀ t, .serve t ∈ es → s.Resumes t act

theorem Turned.readies {r : Rt} {ts : List TaskId} (h : s.rt.Readies ts r) :
    s.Turned act (ts.map .enter) r :=
  ⟨h, fun t ht => by simp at ht, fun t ht => by simp at ht⟩

theorem Turned.then {r r' : Rt} {es : List Turn} (h : s.Turned act es r) (hr : r.Inv)
    (hr' : r'.Inv) (hq : r'.runq = r.runq) (hall : r'.allTasks = r.allTasks) :
    s.Turned act es r' := by
  have hstill : r.Scheduled [] r' := .still hr hr' (by rw [hq])
  exact ⟨by simpa using h.scheduled.trans hstill, hall ▸ h.withdrawn, h.served⟩

theorem Case.turned (hc : Case s act s') (h : s.Ok) : ∃ es, s.Turned act es s'.rt := by
  have hi := h.rest.inv
  have hi' := (hc.ok h).rest.inv
  have direct : (s'.rt.runq = s.rt.runq ∨ ∃ t, s'.rt.runq = s.rt.runq.push t) →
      ∃ es, s.Turned act es s'.rt := fun hq => by
    obtain ⟨ts, hts⟩ := Readies.of_runq hi hi' hq
    exact ⟨_, .readies hts⟩
  have still : s'.rt.runq = s.rt.runq → ∃ es, s.Turned act es s'.rt := fun hq => direct (.inl hq)
  cases hc with
  | calls a call => cases a <;> exact still rfl
  | acts a env c o p es os sel hen hcall hp hr hos hs hon =>
      have hirt := (hs.rest h.rest).1.inv
      rcases hs.scheduled h.rest with ⟨ts, hts⟩ | ⟨x, t, ⟨d, hd⟩, htask, hready, hgone, ts, hts⟩
      · exact ⟨_, (Turned.readies hts).then hirt hi' rfl rfl⟩
      · refine ⟨_, Turned.then ⟨hts, fun u hu => ?_, fun u hu => ?_⟩ hirt hi' rfl rfl⟩
        · obtain rfl : u = t := by simpa using hu
          exact ⟨hready, hgone, .cancel a env d x hd htask hready.2⟩
        · simp at hu
  | parks w u env c p hw hl hcall hnp hp hm =>
      have hr := (h.runs u).mpr ⟨w, hw⟩
      rcases hp.runq_eq (h.rest.noWaiters u hr) with hq | hq
      · exact direct (.inl (hm.runq_eq.trans hq))
      · exact direct (.inr ⟨u, hm.runq_eq.trans hq⟩)
  | finishes w u hw hl hpc hb =>
      have hr := (h.runs u).mpr ⟨w, hw⟩
      have hdie := hi.leave.die hr.1 hr.2 (h.rest.noWaiters u hr)
      have hstill : s.rt.Scheduled [] (s.rt.leave.die u) := .still hi hdie rfl
      obtain ⟨ts, hts⟩ := hb.readies hdie hi'
      have hready : s.rt.Readies ts _ := hstill.trans hts
      exact ⟨_, .readies hready⟩
  | halts n env c hpc hr hm =>
      have hhalt : s.rt.halt.Inv := hi.congr (by constructor <;> rfl) rfl rfl rfl rfl
      have hshifts := FdShifts.shifts hm
      have hstill : s.rt.Scheduled [] s.rt.halt := .still hi hhalt rfl
      obtain ⟨ts, hts⟩ := Shifts.readies hshifts hhalt
      have hready : s.rt.Readies ts _ := hstill.trans hts
      exact ⟨_, (Turned.readies hready).then (Shifts.inv hshifts hhalt) hi' rfl rfl⟩
  | shutsDown n env c hpc hinit hr halone hd =>
      refine ⟨_, .clear hi hd.off.allTasks (congrArg Queue.items hd.off.runq), ?_, ?_⟩
      · intro t ht
        refine ⟨hi.ready_iff.mpr (by simpa using ht), ?_, .shutdown n env c hpc hinit hr⟩
        exact List.not_mem_nil.comp (hd.off.allTasks ▸ ·)
      · exact fun t ht => by simp at ht
  | loops w q lock hact hl hm =>
      obtain ⟨ts, hts⟩ := Shifts.readies (Ticks.shifts hm) hi
      exact ⟨_, .readies hts⟩
  | dispatches w env u q hw hl hq hm =>
      have hitems := (Queue.pop_eq_some.mp hq).1
      refine ⟨[.serve u], .serve hi hi' ?_ ?_, fun t ht => by simp at ht, fun t ht => ?_⟩
      · refine (congrArg (fun f => (f u).state) hm.task_eq).trans ?_
        simp [Rt.dispatch]
      · exact hitems.trans (congrArg (fun r => u :: Queue.items r) hm.runq_eq.symm)
      · obtain rfl : t = u := by simpa using ht
        exact ⟨hw, by rw [hitems]; rfl⟩
  | _ => exact still rfl

/-- Every step of a run. -/
theorem Ok.turned (h : s.Ok) (hc : s.Contract act) (hs : machine.step s act = some s') :
    ∃ es, s.Turned act es s'.rt := by
  obtain ⟨s₀, hp, hcase⟩ := h.step_cases hc hs
  have h₀ := hp.ok h
  obtain ⟨es, hes⟩ := hcase.turned h₀
  refine ⟨es, ?_⟩
  rcases hp.cases h with ⟨tape, rfl⟩ | ⟨-, hoff, rt, hboot, rfl⟩
  · have hstill : s.rt.Scheduled [] (s.tick tape).rt := .still h.rest.inv h₀.rest.inv rfl
    refine ⟨hstill.trans hes.scheduled, fun t ht => ?_, ?_⟩
    · obtain ⟨hready, hgone, hkill⟩ := hes.withdrawn t ht
      refine ⟨hready, hgone, ?_⟩
      cases hkill with
      | cancel a env c x hpc htask hr => exact .cancel a env c x hpc htask hr
      | shutdown n env c hpc hinit hrun => exact .shutdown n env c hpc hinit hrun
    · intro t ht
      have := hes.served t ht
      cases act <;> exact this
  · -- a runtime that is initialised on the way has no tasks
    have hq : s.rt.runq.items = [] := congrArg Queue.items hoff.runq
    have hq₀ : rt.runq.items = [] := congrArg Queue.items hboot.off.runq
    have hstill : s.rt.Scheduled [] rt := .still h.rest.inv h₀.rest.inv (hq₀.trans hq.symm)
    refine ⟨hstill.trans hes.scheduled, fun t ht => ?_, fun t ht => ?_⟩
    · have hmem := (hes.withdrawn t ht).1.1
      simp [hboot.off.allTasks] at hmem
    · have := hes.served t ht
      cases act with
      | worker w env =>
          have hhead := this.2
          simp [hq₀] at hhead
      | _ => exact this

/-- The changes of the set of ready tasks along a run. Tasks are withdrawn by a cancellation
or by the shutdown of an idle runtime only, and served by a worker. -/
inductive Schedule (s : Sys) : List Turn → Sys → Prop where
  | refl : Schedule s [] s
  | step {es fs m s'} (act) : Schedule s es m → m.Contract act → machine.step m act = some s' →
      m.rt.Flow fs s'.rt → (∀ t, .withdraw t ∈ fs → m.Kills t act) →
      (∀ t, .serve t ∈ fs → m.Resumes t act) → Schedule s (es ++ fs) s'

/-- A task that has been destroyed stays so. -/
theorem Ok.gone (h : s.Ok) (hc : s.Contract act) (hs : machine.step s act = some s')
    (hmade : s.rt.made (.task t) = true) (hgone : t ∉ s.rt.allTasks) :
    s'.rt.made (.task t) = true ∧ t ∉ s'.rt.allTasks := by
  refine ⟨h.made_mono hc hs _ hmade, fun hmem => ?_⟩
  obtain ⟨s₀, hp, hcase⟩ := h.step_cases hc hs
  rcases hcase.recorded (hp.ok h) hmem with ⟨hold, -⟩ | ⟨hnew, -⟩
  · rcases hp.cases h with ⟨tape, rfl⟩ | ⟨-, -, rt, hboot, rfl⟩
    · exact hgone hold
    · simp [hboot.off.allTasks] at hold
  · rw [hp.made_eq h, hmade] at hnew
    cases hnew

/-- Along every run there is a schedule that the run queue follows. -/
theorem schedule_of_path {ok : Sys → Act → Prop} (hok : ∀ s a, ok s a → s.Contract a)
    (h : machine.Reach Sys.Contract s) (hp : machine.Path ok s s') :
    ∃ es, s.Schedule es s' ∧ Fifo.Runs s.rt.runq.items es s'.rt.runq.items ∧
      (∀ t, .serve t ∈ es → ∃ m a, ok m a ∧ m.Resumes t a) ∧
      ∀ t, .withdraw t ∈ es → s'.rt.made (.task t) = true ∧ t ∉ s'.rt.allTasks := by
  induction hp with
  | refl => exact ⟨[], .refl, .nil, by simp, by simp⟩
  | step hp ha hs ih =>
      obtain ⟨es, hsched, hrun, hserve, hwithdraw⟩ := ih
      have hm := ok_of_reach (fun _ _ hc => hc) (h.path (hp.mono hok))
      obtain ⟨fs, hfs⟩ := hm.turned (hok _ _ ha) hs
      refine ⟨es ++ fs, .step _ hsched (hok _ _ ha) hs hfs.scheduled.flow
        (fun t ht => (hfs.withdrawn t ht).2.2) hfs.served, hrun.trans hfs.scheduled.queue, ?_, ?_⟩
      · intro t ht
        rcases List.mem_append.mp ht with ht | ht
        · exact hserve t ht
        · exact ⟨_, _, ha, hfs.served t ht⟩
      · intro t ht
        rcases List.mem_append.mp ht with ht | ht
        · obtain ⟨hmade, hgone⟩ := hwithdraw t ht
          exact hm.gone (hok _ _ ha) hs hmade hgone
        · obtain ⟨hready, hgone, -⟩ := hfs.withdrawn t ht
          exact ⟨hm.made_mono (hok _ _ ha) hs _ (hm.rest.inv.heap.task t hready.1).1, hgone⟩

/-- A task that is ready after its own step has put itself at the end of the run queue. -/
theorem Case.yields {w : Nat} {env : Env} (hc : Case s (.cont (.task w t) env) s') (h : s.Ok)
    (hw : s.workers w = .running t) (hready : s'.rt.Ready t) :
    s'.rt.runq.items = s.rt.runq.items ++ [t] := by
  have hr := (h.runs t).mpr ⟨w, hw⟩
  have hi' := (hc.ok h).rest.inv
  have running : (s'.rt.task t).state = .running → s'.rt.runq.items = s.rt.runq.items ++ [t] :=
    fun hrun => absurd (hready.2.symm.trans hrun) (by decide)
  cases hc with
  | acts a env c o p es os sel hen hcall hp hr' hos hs hon =>
      exact running (((hs.rest h.rest).2 t).mpr hr).2
  | resumesFd w u env c v use o p es hw' =>
      exact running (by simpa [Rt.finishFd, Sys.setPc] using hr.2)
  | returns w u env c rc sel hw' => exact running hr.2
  | goesOn w u env hw' => exact running hr.2
  | parks w u env c p hw' hl hcall hnp hp hm =>
      rcases hp.runq_eq (h.rest.noWaiters t hr) with hq | hq
      · have hmem : t ∈ s.rt.runq.items :=
          congrArg Queue.items (hm.runq_eq.trans hq) ▸ hi'.ready_iff.mp hready
        exact absurd (h.rest.inv.mem_runq hmem).2 (by simp [hr.2])
      · exact (congrArg Queue.items (hm.runq_eq.trans hq)).trans (Queue.push_items _ _)
  | descriptors os interest filters hact =>
      rcases hact with ⟨a, fd, flags, hact⟩ | ⟨a, fd, hact⟩ <;> cases hact
  | loops w' q lock hact => rcases hact with ⟨e, hact⟩ | ⟨b, hact⟩ <;> cases hact

theorem Ok.yields (h : s.Ok) {w : Nat} {env : Env} (hc : s.Contract (.cont (.task w t) env))
    (hs : machine.step s (.cont (.task w t) env) = some s') (hready : s'.rt.Ready t) :
    s'.rt.runq.items = s.rt.runq.items ++ [t] := by
  have hw := enabled_task.mp (enabled_of_step hs)
  obtain ⟨s₀, hp, hcase⟩ := h.step_cases hc hs
  obtain ⟨tape, rfl⟩ := hp.tick_of_mem h ((h.runs t).mpr ⟨w, hw⟩).1
  exact hcase.yields (hp.ok h) hw hready

/-- The steps other than those that give `t` a processor. -/
def Passing (t : TaskId) (s : Sys) (a : Act) : Prop := s.Contract a ∧ ¬s.Resumes t a

/-- Along every run tasks are resumed in the order in which they became ready, except for those
that are destroyed before. A task that yields is resumed again after every task that was ready
then has been resumed once or destroyed. -/
theorem first_ready_first_run (h : machine.Reach Sys.Contract s) :
    (∀ s', machine.Path Sys.Contract s s' → ∃ es, s.Schedule es s' ∧
      Fifo.entries s.rt.runq.items es = Fifo.served es ++ s'.rt.runq.items) ∧
    ∀ w t env s₁ s₂ a, s.Contract (.cont (.task w t) env) →
      machine.step s (.cont (.task w t) env) = some s₁ → s₁.rt.Ready t →
      machine.Path (Passing t) s₁ s₂ → s₂.Resumes t a →
      ∃ es, s₁.Schedule es s₂ ∧
        ∀ u, s.rt.Ready u → (Fifo.served es).count u = 1 ∨ .withdraw u ∈ es := by
  have hok := ok_of_reach (fun _ _ hc => hc) h
  constructor
  · intro s' hp
    obtain ⟨es, hsched, hrun, -, -⟩ := schedule_of_path (fun _ _ hc => hc) h hp
    exact ⟨es, hsched, hrun.in_order hok.rest.inv.runq_nodup⟩
  · intro w t env s₁ s₂ a hc hs hready hp hres
    have h₁ := h.step hc hs
    have hnodup := (ok_of_reach (fun _ _ hc => hc) h₁).rest.inv.runq_nodup
    have hitems := hok.yields hc hs hready
    obtain ⟨es, hsched, hrun, hserve, hwithdraw⟩ := schedule_of_path (fun _ _ hc => hc.1) h₁ hp
    obtain ⟨q, hq⟩ : ∃ q, s₂.rt.runq.items = t :: q := by
      cases a with
      | worker v e => exact List.head?_eq_some_iff.mp hres.2
      | _ => exact hres.elim
    have h₂ := ok_of_reach (fun _ _ hc => hc) (h₁.path (hp.mono fun _ _ hc => hc.1))
    refine ⟨es, hsched, fun u hu => ?_⟩
    rw [hitems] at hrun hnodup
    rw [hq] at hrun
    refine hrun.once hnodup (fun hmem => ?_) (fun hmem => ?_) (hok.rest.inv.ready_iff.mp hu)
    · obtain ⟨m, b, hb, hmres⟩ := hserve t hmem
      exact hb.2 hmres
    · exact (hwithdraw t hmem).2 (h₂.rest.inv.mem_runq (by simp [hq])).1

/-- Task 0 yields while task 1 is ready, and is resumed once task 1 has run. -/
theorem first_ready_first_run_two_tasks : ∃ s s₁ s₂, machine.Reach Sys.Contract s ∧
    s.rt.Ready 1 ∧ machine.step s (.cont (.task 0 0) {}) = some s₁ ∧
    machine.Path (Passing 0) s₁ s₂ ∧ s₂.Resumes 0 (.worker 0 {}) ∧
    ∃ es, s₁.Schedule es s₂ ∧ ((Fifo.served es).count 1 = 1 ∨ .withdraw 1 ∈ es) := by
  let test : Sys → Act → Bool := fun s a => s.promised a && !decide (s.Resumes 0 a)
  have htest : ∀ s a, test s a = true → Passing 0 s a := fun s a ha => by
    simp only [test, Bool.and_eq_true, Bool.not_eq_true', decide_eq_false_iff_not] at ha
    exact ⟨contract_of_promised ha.1, ha.2⟩
  obtain ⟨s, hs, hp⟩ := reach_of_promised .poll (List.flatten [
      invoke (.ext 0) (.go true 0 false), invoke (.ext 0) (.go true 0 false),
      invoke (.ext 0) (.run 1 true) 2, works 0 3, [.api (.task 0 0) .yield]])
    (fun s => s.promised (.cont (.task 0 0) {}) && s.rt.allTasks.contains 1 &&
      (s.rt.task 1).state == .ready && (machine.step s (.cont (.task 0 0) {})).any fun s₁ : Sys =>
        s₁.rt.allTasks.contains 0 && (s₁.rt.task 0).state == .ready &&
        (machine.replay test s₁ (List.flatten [works 0 2, [.finish 0 1], works 0])).any fun s₂ : Sys =>
          decide (s₂.Resumes 0 (.worker 0 {}))) (by decide +kernel)
  simp only [Bool.and_eq_true, beq_iff_eq, Option.any_eq_true, decide_eq_true_eq,
    List.contains_iff_mem] at hp
  obtain ⟨⟨⟨hcon, hmem⟩, hready⟩, s₁, hstep, ⟨hmem₁, hready₁⟩, s₂, hrun, hres⟩ := hp
  have hpath : machine.Path (Passing 0) s₁ s₂ := Machine.Path.refl.replay htest hrun
  obtain ⟨es, hsched, honce⟩ := (first_ready_first_run hs).2 0 0 {} s₁ s₂ (.worker 0 {})
    (contract_of_promised hcon) hstep ⟨hmem₁, hready₁⟩ hpath hres
  exact ⟨s, s₁, s₂, hs, ⟨hmem, hready⟩, hstep, hpath, hres, es, hsched, honce 1 ⟨hmem, hready⟩⟩

end Sys

end Microthread
