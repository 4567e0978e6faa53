import Microthread.Properties.Completion
import Microthread.System.Records

/-!
# Cancellation of tasks that have started

`mt_task_cancel` destroys a `READY` task, also one that has run before and whose
blocking call has just been completed. In runs without such a cancellation a task
that has started goes only when its function returns, and what its calls have been
completed with is what they return.
-/

namespace Microthread

open Foundation Rt

variable {s s' : Rt} {t u : TaskId}

/-- The results of the blocking calls of a task. -/
structure Task.SameResults (k k' : Task) : Prop where
  chanResult : k'.chanResult = k.chanResult
  selectResult : k'.selectResult = k.selectResult
  selectIndex : k'.selectIndex = k.selectIndex
  joinResult : k'.joinResult = k.joinResult
  fdResult : k'.fdResult = k.fdResult
  fdReadyEvents : k'.fdReadyEvents = k.fdReadyEvents

theorem Task.SameResults.of_eq {k k' : Task} (h : k' = k) : k.SameResults k' := by
  subst h
  exact ⟨rfl, rfl, rfl, rfl, rfl, rfl⟩

/-- The task does not wait. -/
def Task.awake (k : Task) : Prop := k.state = .ready ∨ k.state = .running

/-- The results of a task that does not wait change only by its own steps. -/
theorem Task.Step.sameResults {own : Prop} {k k' : Task} (h : k.Step own k') (hown : ¬own)
    (ha : k.awake) : k.SameResults k' := by
  cases h with
  | same => exact .of_eq rfl
  | woken o hw =>
      obtain ⟨h1, h2, -⟩ := hw.state_old
      exact absurd ha (by simp [Task.awake, h1, h2])
  | runs => exact ⟨rfl, rfl, rfl, rfl, rfl, rfl⟩
  | calls c ho | selects ws count rc index inTimer counted ho | waits ho | collects ho
  | leaves ho => exact absurd ho hown

theorem Task.Step.awake {own : Prop} {k k' : Task} (h : k.Step own k') (hown : ¬own)
    (ha : k.awake) : k'.awake := by
  cases h with
  | same => exact ha
  | woken o hw => exact .inl hw.state_new
  | runs => exact .inr rfl
  | calls c ho | selects ws count rc index inTimer counted ho | waits ho | collects ho
  | leaves ho => exact absurd ho hown

theorem Rt.Woken.eq_of_awake (h : Woken s s' u) (ha : (s.task u).awake) : s'.task u = s.task u := by
  rcases h with heq | ⟨o, hw⟩
  · exact heq
  · rcases ha with ha | ha
    · exact absurd ha hw.state_old.1
    · exact absurd ha hw.state_old.2.1

/-- A handle that names a task is not completed. -/
theorem Rt.Inv.not_completed (h : s.Inv) {x : HandleId} (hx : s.Usable x)
    (ht : (s.handle x).task = some t) : (s.handle x).completed = false := by
  cases hc : (s.handle x).completed with
  | false => rfl
  | true =>
      by_cases hmem : x ∈ s.handles
      · simp [(h.handle.completed x hmem).mp hc] at ht
      · simp [(h.handle.gone x hx.1.1 hmem).1] at ht

/-- What a section does to a registered task that it neither cancels nor belongs to. -/
theorem Cancels.keeps {t : TaskId} (hc : Cancels t s s') (h : s.Inv) (hu : u ∈ s.allTasks)
    (hne : u = t → (s.task t).state ≠ .ready) : u ∈ s'.allTasks ∧ Woken s s' u := by
  rcases hc.effect_or h with ⟨he, hall⟩ | ⟨ht, hs, hb⟩
  · exact ⟨hall ▸ hu, he.woken hu⟩
  · have hut : u ≠ t := fun heq => hne heq hs
    have hkill := h.killReady ht hs
    have hsame : (s.killReady t).task u = s.task u := Function.update_of_ne hut _ _
    have hw := hb.task_eq_or hkill hu hut
    rw [hsame] at hw
    exact ⟨(hb.mem hkill).mpr ⟨hut, hu⟩, hw.imp_right fun ⟨o, hw, _⟩ => ⟨o, hw⟩⟩

theorem Rt.Section.keeps {does : Op → Prop} {c : CallId} {o : Option (Role × Rc)}
    (hs : Section does c s o s') (h : s.Inv) (hu : u ∈ s.allTasks)
    (hcancel : ∀ x, does (.cancel x) → (s.handle x).task = some u → (s.task u).state ≠ .ready) :
    u ∈ s'.allTasks ∧ (does (.unpark u) ∨ Woken s s' u) := by
  have hmoves : ∀ {r : Rt}, Moves s r → u ∈ r.allTasks ∧ (does (.unpark u) ∨ Woken s r u) :=
    fun hm => ⟨Moves.allTasks_eq hm ▸ hu, .inr (Moves.woken hm h hu)⟩
  cases hs with
  | idle o tape => exact hmoves (Shifts.moves (.single (.quiet _ _ _ _ tape)))
  | release x rc _ hr => exact hmoves (Shifts.moves (.single hr.shift))
  | fd o _ _ ho => exact hmoves (Shifts.moves (ho.shifts h))
  | go rc _ _ hc =>
      cases hc with
      | no a hm => exact hmoves (Shifts.moves (Wastes.shifts hm))
      | task =>
          refine ⟨List.mem_cons_of_mem _ hu, .inr (.inl ?_)⟩
          exact Function.update_of_ne (h.heap.task_lt hu).ne _ _
      | handle =>
          refine ⟨List.mem_cons_of_mem _ hu, .inr (.inl ?_)⟩
          exact Function.update_of_ne ((h.heap.task_lt hu).trans (Nat.lt_succ_self _)).ne _ _
      | chan => exact ⟨hu, .inr (.inl rfl)⟩
  | chanCreate rc _ _ hc =>
      cases hc with
      | no a hm => exact hmoves (Shifts.moves (Wastes.shifts hm))
      | chan => exact ⟨hu, .inr (.inl rfl)⟩
  | cancel x hd hc =>
      cases hc with
      | late => exact ⟨hu, .inr (.inl rfl)⟩
      | wake t a _ hcomp htask hc =>
          obtain ⟨hmem, hw⟩ := hc.keeps (Shifts.inv (reported_shifts hcomp) h) (u := u) hu
            fun heq => hcancel x hd (heq ▸ htask) |> fun hne => heq ▸ hne
          exact ⟨hmem, .inr hw⟩
  | send kind ch value rc _ _ hsend => exact hmoves hsend.moves
  | sendNot => exact ⟨hu, .inr (.inl rfl)⟩
  | recv ch out rc _ _ hrecv => exact hmoves hrecv.moves
  | recvNot => exact ⟨hu, .inr (.inl rfl)⟩
  | close ch rc _ _ hc => exact hmoves hc.moves
  | destroy ch rc _ hl hd => exact hmoves (hd.moves hl.1)
  | unselect t rc hd _ hf =>
      have hen := Registers.enrols hf.registers
      have hall : s'.allTasks = s.allTasks := by
        obtain ⟨_, _, _, _, _, _, _, _, _, _, _, _, rfl⟩ := hen
        rfl
      refine ⟨hall ▸ hu, ?_⟩
      by_cases hut : u = t
      · exact .inl (hut ▸ hd)
      · exact .inr (.inl (hen.task_of_ne hut))
  | unwait t rc x hd _ hrun hq =>
      obtain ⟨gens, polling, interest, filters, tape, rfl⟩ := hq
      refine ⟨hu, ?_⟩
      by_cases hut : u = t
      · exact .inl (hut ▸ hd)
      · exact .inr (.inl (by simp [Rt.wasteFd, Rt.waste, Rt.touchFd, Rt.modTask, hut]))

namespace Sys

variable {s s' : Sys} {w : Nat} {t : TaskId}

/-- The step cancels no task that is ready after it has run, and shuts down no idle
runtime. -/
def Cooperative (s : Sys) : Act → Prop
  | .cont a _ =>
    match s.pc a.agent with
    | .called _ (.cancel x) => ∀ t ∈ (s.rt.handle x).task, (s.rt.task t).state = .ready →
        s.pc (.task t) = .fresh
    | .called _ .shutdown => s.rt.initialized = true → s.rt.running = true
    | _ => True
  | _ => True

instance (s : Sys) (a : Act) : Decidable (s.Cooperative a) := by
  induction a using Act.casesOn with
  | cont a env =>
      dsimp only [Cooperative]
      generalize s.pc a.agent = p
      induction p using Pc.casesOn with
      | called c call => induction call using Api.casesOn <;> dsimp only <;> infer_instance
      | _ => exact instDecidableTrue
  | _ => exact instDecidableTrue

/-- The step destroys the task, though its function has not returned. -/
inductive Kills (s : Sys) (t : TaskId) : Act → Prop where
  | cancel (a env c x) : s.pc a.agent = .called c (.cancel x) → (s.rt.handle x).task = some t →
      (s.rt.task t).state = .ready → Kills s t (.cont a env)
  | shutdown (n env c) : s.pc (.ext n) = .called c .shutdown → s.rt.initialized = true →
      s.rt.running = false → Kills s t (.cont (.ext n) env)

theorem Cooperative.not_kills {act : Act} (hg : s.Cooperative act)
    (hst : s.pc (.task t) ≠ .fresh) : ¬s.Kills t act := by
  intro hk
  cases hk with
  | cancel a env c x hpc htask hready =>
      simp only [Cooperative, hpc] at hg
      exact hst (hg t htask hready)
  | shutdown n env c hpc hinit hr =>
      simp only [Cooperative, Actor.agent, hpc] at hg
      simp [hg hinit] at hr

theorem Case.stays {act : Act} (hc : Case s act s') (h : s.Ok) (ht : t ∈ s.rt.allTasks) :
    (∃ w, act = .finish w t) ∨ s.Kills t act ∨ t ∈ s'.rt.allTasks := by
  have hi := h.rest.inv
  cases hc with
  | calls a call hen hpc => cases a <;> exact .inr (.inr ht)
  | acts a env c o p es os sel hen hcall hp hr _ hs hon =>
      by_cases hk : s.Kills t (.cont a env)
      · exact .inr (.inl hk)
      · refine .inr (.inr (hs.keeps hi ht fun x ⟨d, hd⟩ htask hready => ?_).1)
        exact hk (.cancel a env d x hd htask hready)
  | parks w u env c p hw hl hcall hnp hp hm =>
      have hr : s.rt.Runs u := (h.runs u).mpr ⟨w, hw⟩
      have hall := (Moves.allTasks_eq (Shifts.moves hm.shifts)).trans (hp.parked h.rest hr).allTasks
      exact .inr (.inr (hall ▸ ht))
  | finishes w u hw hl hpc hb =>
      have hr : s.rt.Runs u := (h.runs u).mpr ⟨w, hw⟩
      by_cases hut : t = u
      · exact .inl ⟨w, by rw [hut]⟩
      · have hdie := hi.leave.die hr.1 hr.2 (h.rest.noWaiters u hr)
        exact .inr (.inr ((hb.mem hdie).mpr ⟨hut, ht⟩))
  | halts n env c hpc hr hm =>
      exact .inr (.inr (Moves.allTasks_eq (Shifts.moves (FdShifts.shifts hm)) ▸ ht))
  | shutsDown n env c hpc hinit hr halone hd =>
      exact .inr (.inl (.shutdown n env c hpc hinit hr))
  | loops w q lock _ hl hm =>
      exact .inr (.inr (Moves.allTasks_eq (Shifts.moves (Ticks.shifts hm)) ▸ ht))
  | dispatches w env u q hw hl hq hm =>
      exact .inr (.inr (Moves.allTasks_eq (Shifts.moves hm.shifts) ▸ ht))
  | _ => exact .inr (.inr ht)

/-- A task that has started stays registered unless its function returns. -/
theorem Case.started_stays {act : Act} (hc : Case s act s') (h : s.Ok) (hg : s.Cooperative act)
    (ht : t ∈ s.rt.allTasks) (hst : s.pc (.task t) ≠ .fresh) :
    (∃ w, act = .finish w t) ∨ t ∈ s'.rt.allTasks := by
  rcases hc.stays h ht with hf | hk | hmem
  · exact .inl hf
  · exact absurd hk (hg.not_kills hst)
  · exact .inr hmem

/-- A parked task resumes its call before it does anything else inside the runtime. -/
theorem Case.own_parked {act : Act} (hc : Case s act s') (hpark : (s.pc (.task t)).parked = true)
    (ha : act.agent? = some (.task t)) : (∃ w env, act = .cont (.task w t) env) ∨
      (s'.pc = s.pc ∧ s'.rt.task = s.rt.task ∧ s'.rt.fdWaiters = s.rt.fdWaiters) := by
  have hnot : ∀ {g : Agent}, some g = some (.task t) → (s.pc g).parked ≠ false := fun hg hp => by
    rw [Option.some.inj hg, hpark] at hp
    cases hp
  cases hc with
  | calls a call hen hpc => exact absurd (by rw [hpc]; rfl) (hnot ha)
  | acts a env c o p es os sel hen hcall hp => exact absurd hp (hnot ha)
  | resumesFd w u env | returns w u env | goesOn w u env =>
      obtain rfl : u = t := by simpa [Act.agent?, Actor.agent] using ha
      exact .inl ⟨w, env, rfl⟩
  | parks w u env c p hw hl hcall hp => exact absurd hp (hnot ha)
  | finishes w u hw hl hpc => exact absurd (by rw [hpc]; rfl) (hnot ha)
  | writes a addr v hen hpc => exact absurd (by rw [hpc]; rfl) (hnot ha)
  | descriptors os interest filters => exact .inr ⟨rfl, rfl, rfl⟩
  | loops w q lock hact => rcases hact with ⟨env, rfl⟩ | ⟨batch, rfl⟩ <;> cases ha
  | _ => cases ha

/-- A task that is awake inside a parked call keeps its place and its results until it takes
its next step itself. -/
theorem Case.results_kept {act : Act} (hc : Case s act s') (h : s.Ok) (hg : s.Cooperative act)
    (ht : t ∈ s.rt.allTasks) (haw : (s.rt.task t).awake) (hpark : (s.pc (.task t)).parked = true) :
    (∃ w env, act = .cont (.task w t) env) ∨
      (s'.pc (.task t) = s.pc (.task t) ∧ (s.rt.task t).SameResults (s'.rt.task t)) := by
  have hst : s.pc (.task t) ≠ .fresh := fun hf => by simp [hf, Pc.parked] at hpark
  by_cases ha : act.agent? = some (.task t)
  · rcases hc.own_parked hpark ha with hcont | ⟨hpc, htask, -⟩
    · exact .inl hcont
    · exact .inr ⟨congrFun hpc _, .of_eq (congrFun htask t)⟩
  · refine .inr ⟨(hc.pc_kept hst).resolve_left ha, ?_⟩
    have hmem : t ∈ s'.rt.allTasks := by
      rcases hc.started_stays h hg ht hst with ⟨w, rfl⟩ | hmem
      · exact absurd rfl ha
      · exact hmem
    rcases hc.recorded h hmem with ⟨-, hk⟩ | ⟨hmade, -⟩
    · exact hk.sameResults ha haw
    · simp [(h.rest.inv.heap.task t ht).1] at hmade

/-- A cancellation sets the request flag, and at most ends the wait of a task that is not
ready. -/
theorem Ok.cancel_wakes (h : s.Ok) {x : HandleId} (hx : s.rt.Usable x)
    (hxt : (s.rt.handle x).task = some t) (hready : (s.rt.task t).state ≠ .ready) :
    Woken s.rt (s.rt.taskCancel x).2 t := by
  have hi := h.rest.inv
  have hne := hi.not_completed hx hxt
  obtain ⟨hmem, u, hu, hxu, -⟩ := hi.usable_task hx hne
  obtain rfl : t = u := Option.some.inj (hxt.symm.trans hxu)
  obtain ⟨-, hcall⟩ := hi.taskCancel h.rest.noDead hx
  generalize (s.rt.taskCancel x).2 = r at hcall
  cases hcall with
  | late hc => simp [hc] at hne
  | wake v a _ hcomp htask hcancel =>
      obtain rfl : t = v := Option.some.inj (hxt.symm.trans htask)
      exact (hcancel.keeps (Shifts.inv (reported_shifts hcomp) hi) hu fun _ => hready).2

/-- In a run that cancels no ready task that has run, a task that has started goes only when
its function returns; the results of its completed calls stay until it takes them. -/
theorem started_task_survives {a : Act} (h : machine.Reach (Under Cooperative) s)
    (ha : Under Cooperative s a) (hstep : machine.step s a = some s') (ht : t ∈ s.rt.allTasks)
    (hst : s.pc (.task t) ≠ .fresh) :
    ((∃ w, a = .finish w t) ∨ (t ∈ s'.rt.allTasks ∧ s'.rt.Live (.task t) ∧
      ∀ x, (s'.rt.task t).handle = some x → (s'.rt.handle x).completed = false)) ∧
    ((s.rt.task t).awake → (s.pc (.task t)).parked = true →
      (∃ w env, a = .cont (.task w t) env) ∨
        (s'.pc (.task t) = s.pc (.task t) ∧ (s.rt.task t).SameResults (s'.rt.task t))) ∧
    (∀ b env c x, a = .cont b env → s.pc b.agent = .called c (.cancel x) →
      (s.rt.handle x).task = some t → Woken s.rt s'.rt t) := by
  have hok := ok_of_under h
  have hok' := ok_of_under (h.step ha hstep)
  obtain ⟨s₀, hp, hcase⟩ := hok.step_cases ha.1 hstep
  -- a runtime with a task is initialised
  obtain ⟨tape, rfl⟩ : ∃ tape, s₀ = s.tick tape := by
    rcases hp.cases hok with htick | ⟨-, hoff, -⟩
    · exact htick
    · simp [hoff.allTasks] at ht
  have hok₀ := hok.tick tape
  have hg : (s.tick tape).Cooperative a := by
    cases a <;> exact ha.2
  refine ⟨?_, fun haw hpark => hcase.results_kept hok₀ hg ht haw hpark, ?_⟩
  · refine (hcase.started_stays hok₀ hg ht hst).imp_right fun hmem => ?_
    have hinv := hok'.rest.inv
    refine ⟨hmem, hinv.heap.task t hmem, fun x hx => ?_⟩
    obtain ⟨hxm, hxt⟩ := hinv.handle.linked t hmem (fun hd => hok'.rest.noDead t ⟨hmem, hd⟩) x hx
    cases hc : (s'.rt.handle x).completed with
    | false => rfl
    | true => simp [(hinv.handle.completed x hxm).mp hc] at hxt
  · rintro b env c x rfl hpc hxt
    have hvalid : s.rt.Usable x := by
      have := ha.1
      simp only [Contract, SectionOk, hpc] at this
      exact this
    have hready : (s.rt.task t).state ≠ .ready := fun hr => by
      have := ha.2
      simp only [Cooperative, hpc] at this
      exact hst (this t hxt hr)
    have hs' : s'.rt.task = (({ s.rt with tape := env.tape } : Rt).taskCancel x).2.task := by
      simp only [machine, Sys.step] at hstep
      split at hstep
      · unfold Sys.continueCall at hstep
        rw [show ({ s with rt := { s.rt with tape := env.tape } } : Sys).pc b.agent = _ from hpc]
          at hstep
        simp only at hstep
        split at hstep
        · cases hstep
          rfl
        · cases hstep
      · cases hstep
    have hw := (hok.tick env.tape).cancel_wakes (x := x) hvalid hxt hready
    simp only [Woken] at hw ⊢
    rw [hs']
    exact hw

/-- A task with a handle waits for a value, and another task runs. -/
def receiverTrace : List Act := List.flatten [
  invoke (.ext 0) (.go true 0 true), invoke (.ext 0) (.go true 0 false),
  invoke (.ext 0) (.chanCreate 4 0), invoke (.ext 0) (.run 1 true) 2, works 0 3,
  invoke (.task 0 1) (.chanRecv (some 3) (some 100)), works 0 2]

theorem started_task_survives_waiting : ∃ s s', machine.Reach (Under Cooperative) s ∧
    machine.step s (.cont (.task 0 2) {}) = some s' ∧ (s.rt.task 1).state = .waitingChan ∧
    (s'.rt.task 1).state = .ready ∧ 1 ∈ s'.rt.allTasks := by
  obtain ⟨s, hs, hp⟩ := reach_of_trace_under Cooperative .poll
    (List.flatten [receiverTrace, [.api (.task 0 2) (.cancel 0)]])
    (fun s => s.promised (.cont (.task 0 2) {}) && decide (s.Cooperative (.cont (.task 0 2) {})) &&
      s.rt.allTasks.contains 1 && s.pc (.task 1) != .fresh && (s.rt.task 1).state == .waitingChan &&
      (machine.step s (.cont (.task 0 2) {})).any fun s' => (s'.rt.task 1).state == .ready)
    (by decide +kernel)
  simp only [Bool.and_eq_true, beq_iff_eq, bne_iff_ne, decide_eq_true_eq, List.contains_iff_mem,
    Option.any_eq_true] at hp
  obtain ⟨⟨⟨⟨⟨hcon, hcoop⟩, hmem⟩, hpc⟩, hw⟩, s', hstep, hr⟩ := hp
  refine ⟨s, s', hs, hstep, hw, hr, ?_⟩
  rcases (started_task_survives hs ⟨contract_of_promised hcon, hcoop⟩ hstep hmem hpc).1 with
    ⟨w, hact⟩ | hkept
  · cases hact
  · exact hkept.1

/-- A receiver whose call has just been completed with `MT_OK` is destroyed by a cancellation;
its call never returns. -/
theorem cancel_destroys_started : ∃ s s', machine.Reach Sys.Contract s ∧
    s.Contract (.cont (.task 0 2) {}) ∧ machine.step s (.cont (.task 0 2) {}) = some s' ∧
    1 ∈ s.rt.allTasks ∧ s.pc (.task 1) = .chanPark 4 (.recv 3) ∧ (s.rt.task 1).chanResult = .ok ∧
    Event.done 4 (.recv 3) .ok ∈ s.rt.log ∧ 1 ∉ s'.rt.allTasks ∧ s'.rt.frees (.task 1) = 1 ∧
    (s'.rt.handle 0).completed = true := by
  obtain ⟨s, hs, hp⟩ := reach_of_promised .poll
    (List.flatten [receiverTrace, invoke (.task 0 2) (.chanSend (some 3) (some 200)),
      [.api (.task 0 2) (.cancel 0)]])
    (fun s => s.promised (.cont (.task 0 2) {}) && s.rt.allTasks.contains 1 &&
      s.pc (.task 1) == .chanPark 4 (.recv 3) && (s.rt.task 1).chanResult == .ok &&
      s.rt.log.contains (.done 4 (.recv 3) .ok) &&
      (machine.step s (.cont (.task 0 2) {})).any fun s' => !s'.rt.allTasks.contains 1 &&
        s'.rt.frees (.task 1) == 1 && (s'.rt.handle 0).completed) (by decide +kernel)
  simp only [Bool.and_eq_true, beq_iff_eq, Bool.not_eq_true', Option.any_eq_true,
    List.contains_eq_mem, decide_eq_false_iff_not, decide_eq_true_eq] at hp
  obtain ⟨⟨⟨⟨⟨hcon, hmem⟩, hpc⟩, hres⟩, hlog⟩, s', hstep, ⟨hgone, hfree⟩, hcomp⟩ := hp
  exact ⟨s, s', hs, contract_of_promised hcon, hstep, hmem, hpc, hres, hlog, hgone, hfree, hcomp⟩

end Sys

end Microthread
