import Microthread.System.Reachable

/-!
# What a step does to the record of a task

A step leaves the record of a task alone, ends the wait of the task, puts the task on a
processor, or is a step of the task itself. The changes are listed once, so that facts
about the records of tasks can be proved without looking at the sections.
-/

namespace Microthread

open Foundation Rt

/-- The record of a running task that leaves its processor. -/
inductive Task.Leaves (k : Task) : Task → Prop where
  | chan (kind ch value) : kind ≠ .none → k.Leaves { k with
      chanWaitKind := kind, chanWaitCh := some ch, chanValue := some value, chanResult := .ok
      state := .waitingChan }
  | join (x) : k.Leaves { k with joinWaitingOn := some x, joinResult := .ok, state := .waitingJoin }
  | sleep (wakeNs seq) : k.Leaves { k with wakeNs := wakeNs, timerSeq := seq, state := .sleeping }
  | yield : k.Leaves { k with state := .ready }
  | select (wakeNs seq ws count index inTimer) : k.Leaves { k with
      wakeNs := wakeNs, timerSeq := seq, selectWaiters := ws, selectWaiterCount := count
      selectResult := .ok, selectIndex := index, selectInTimer := inTimer
      selectCountedWaiting := true, state := .waitingSelect }
  | fd (wakeNs seq w) : k.Leaves { k with
      wakeNs := wakeNs, timerSeq := seq, fdWaiter := some w, fdResult := .ok, fdReadyEvents := 0
      fdInTimer := true, state := .waitingFd }

/-- The record of a registered task after a step; `own` steps are those of the task itself. -/
inductive Task.Step (own : Prop) (k : Task) : Task → Prop where
  | same : k.Step own k
  | woken {k'} (o) : k.Wake k' o → k.Step own k'
  | runs : k.state = .ready → k.Step own { k with state := .running }
  | calls (c) : own → k.state = .running → k.Step own { k with call := c }
  /-- the registration of a select has failed -/
  | selects (ws count rc index inTimer counted) : own → k.state = .running →
      k.Step own { k with
        selectWaiters := ws, selectWaiterCount := count, selectResult := rc, selectIndex := index
        selectInTimer := inTimer, selectCountedWaiting := counted }
  /-- the registration of a descriptor wait has failed -/
  | waits : own → k.state = .running →
      k.Step own { k with fdResult := .ok, fdReadyEvents := 0, fdInTimer := false }
  | collects : own → k.state = .running → k.Step own { k with fdWaiter := none }
  | leaves {k'} : own → k.state = .running → k.Leaves k' → k.Step own k'

namespace Rt

variable {s s' : Rt} {t u : TaskId} {own : TaskId → Prop}

/-- A registered task was registered before and its record made a step, or it is new. -/
def Recorded (own : TaskId → Prop) (s s' : Rt) (t : TaskId) : Prop :=
  (t ∈ s.allTasks ∧ (s.task t).Step (own t) (s'.task t)) ∨
    (s.made (.task t) = false ∧ ∃ id x, s'.task t = { id := id, handle := x })

theorem Woken.step {p : Prop} (h : Woken s s' t) : (s.task t).Step p (s'.task t) := by
  rcases h with heq | ⟨o, hw⟩
  · exact heq ▸ .same
  · exact .woken o hw

theorem Recorded.woken (ht : t ∈ s.allTasks) (h : Woken s s' t) : s.Recorded own s' t :=
  .inl ⟨ht, h.step⟩

/-- Only the record of `u` changes. -/
theorem Recorded.update {k : Task} (ht : t ∈ s.allTasks) (htask : s'.task = Function.update s.task u k)
    (hk : (s.task u).Step (own u) k) : s.Recorded own s' t := by
  refine .inl ⟨ht, ?_⟩
  by_cases hu : t = u
  · subst hu
    rw [htask, Function.update_self]
    exact hk
  · rw [htask, Function.update_of_ne hu]
    exact .same

theorem Recorded.after {a : Rt} (h : a.Recorded own s' t) (hall : a.allTasks = s.allTasks)
    (htask : a.task = s.task) (hmade : a.made = s.made) : s.Recorded own s' t := by
  rw [Recorded, hall, htask, hmade] at h
  exact h

theorem Recorded.before {a : Rt} (h : s.Recorded own a t) (htask : s'.task t = a.task t) :
    s.Recorded own s' t := by
  rw [Recorded, htask]
  exact h

end Rt

open Rt

variable {s s' : Rt} {t u : TaskId} {own : TaskId → Prop}

theorem Moves.recorded (hm : Moves s s') (h : s.Inv) (ht : t ∈ s'.allTasks) :
    s.Recorded own s' t := by
  have ht' : t ∈ s.allTasks := hm.allTasks_eq ▸ ht
  exact .woken ht' (Moves.woken hm h ht')

theorem Shifts.recorded (hm : Shifts s s') (h : s.Inv) (ht : t ∈ s'.allTasks) :
    s.Recorded own s' t :=
  Moves.recorded (Shifts.moves hm) h ht

theorem Rt.Created.recorded (hc : Created s s') (h : s.Inv) (ht : t ∈ s'.allTasks) :
    s.Recorded own s' t := by
  cases hc with
  | no a hs => exact Shifts.recorded (Wastes.shifts hs) h ht
  | task tape =>
      rcases List.mem_cons.mp ht with rfl | ht
      · exact .inr ⟨h.heap.not_made (le_refl _), s.nextId, none, by simp [Rt.spawn]⟩
      · have hne : t ≠ s.nextAddr := (h.heap.task_lt ht).ne
        exact .inl ⟨ht, by simpa [Rt.spawn, hne] using Task.Step.same⟩
  | handle tape =>
      rcases List.mem_cons.mp ht with rfl | ht
      · exact .inr ⟨h.heap.not_made (Nat.le_succ _), s.nextId, some s.nextAddr,
          by simp [Rt.spawnHandle]⟩
      · have hne : t ≠ s.nextAddr + 1 := ((h.heap.task_lt ht).trans (Nat.lt_succ_self _)).ne
        exact .inl ⟨ht, by simpa [Rt.spawnHandle, hne] using Task.Step.same⟩
  | chan tape elemSize capacity => exact .inl ⟨ht, .same⟩

theorem Cancels.recorded (hc : Cancels u s s') (h : s.Inv) (ht : t ∈ s'.allTasks) :
    s.Recorded own s' t := by
  rcases hc.effect_or h with ⟨he, hall⟩ | ⟨hu, hs, hb⟩
  · exact .woken (hall ▸ ht) (he.woken (hall ▸ ht))
  · have hkill := h.killReady hu hs
    obtain ⟨hne, hmem⟩ := (hb.mem hkill).mp ht
    have hsame : (s.killReady u).task t = s.task t := Function.update_of_ne hne _ _
    refine .inl ⟨hmem, ?_⟩
    have hw := hb.task_eq_or hkill hmem hne
    rw [hsame] at hw
    rcases hw with heq | ⟨o, hw, -⟩
    · exact heq ▸ .same
    · exact .woken o hw

theorem Rt.CancelCall.recorded {x : HandleId} (hc : CancelCall s x s') (h : s.Inv)
    (ht : t ∈ s'.allTasks) : s.Recorded own s' t := by
  cases hc with
  | late => exact Shifts.recorded (.single (.request x)) h ht
  | wake u a hx hcomp htask hcancel =>
      exact (hcancel.recorded (Shifts.inv (reported_shifts hcomp) h) ht).after rfl rfl rfl

theorem Rt.Section.recorded {does : Op → Prop} {c : CallId} {o : Option (Role × Rc)}
    (hs : Section does c s o s') (h : s.Rest) (hown : ∀ u, does (.unpark u) → own u)
    (ht : t ∈ s'.allTasks) : s.Recorded own s' t := by
  have hi := h.inv
  cases hs with
  | idle o tape => exact Shifts.recorded (.single (.quiet _ _ _ _ tape)) hi ht
  | release x rc _ hr => exact Shifts.recorded (.single hr.shift) hi ht
  | fd o _ _ ho => exact Shifts.recorded (ho.shifts hi) hi ht
  | go rc _ _ hc => exact hc.recorded hi ht
  | chanCreate rc _ _ hc => exact hc.created.recorded hi ht
  | cancel x _ hc => exact hc.recorded hi ht
  | send kind ch value rc _ _ hsend => exact Moves.recorded hsend.moves hi ht
  | sendNot => exact .inl ⟨ht, .same⟩
  | recv ch out rc _ _ hrecv => exact Moves.recorded hrecv.moves hi ht
  | recvNot => exact .inl ⟨ht, .same⟩
  | close ch rc _ _ hc => exact Moves.recorded hc.moves hi ht
  | destroy ch rc _ hl hd => exact Moves.recorded (hd.moves hl.1) hi ht
  | unselect u rc hd hrun hf =>
      obtain ⟨_, _, _, _, _, _, _, _, _, _, _, _, rfl⟩ := Registers.enrols hf.registers
      exact .update ht rfl (.selects _ _ _ _ _ _ (hown u hd) hrun.2)
  | unwait u rc x hd _ hrun hq =>
      obtain ⟨gens, polling, interest, filters, tape, rfl⟩ := hq
      exact .update ht rfl (.waits (hown u hd) hrun.2)

/-- The record of a task that has registered its waiters. -/
theorem enrolled_task_eq (hws : (s.task t).selectWaiters = []) {cases : List SelectCase}
    (hch : s.CasesRegistered cases) (plan : SelectPlan) (tape : List Bool) :
    ∃ ws n, (s.enrolled t cases plan tape).task = Function.update s.task t { s.task t with
      selectWaiters := ws, selectWaiterCount := n, selectResult := .ok
      selectIndex := plan.timeoutIndex.getD 0, selectInTimer := false
      selectCountedWaiting := false } := by
  obtain ⟨ws, n, h⟩ := addWaiters_task t 0 cases (s.prepareSelect t (plan.timeoutIndex.getD 0))
  have henr := Registers.enrols (enrolled_registers hws hch plan tape)
  refine ⟨ws, n, funext fun u => ?_⟩
  by_cases hu : u = t
  · subst hu
    rw [Function.update_self]
    refine h.trans ?_
    simp [prepareSelect, Rt.modTask]
  · rw [Function.update_of_ne hu, henr.task_of_ne hu]

theorem Rt.SelectParks.leaves {cases : List SelectCase} {plan : SelectPlan}
    (hp : SelectParks t cases plan s s') (hws : (s.task t).selectWaiters = [])
    (hch : s.CasesRegistered cases) :
    ∃ k, s'.task = Function.update s.task t k ∧ (s.task t).Leaves k := by
  cases hp with
  | untimed tape hi =>
      obtain ⟨ws, n, heq⟩ := enrolled_task_eq hws hch plan tape
      refine ⟨_, ?_, .select (s.task t).wakeNs (s.task t).timerSeq ws n
        (plan.timeoutIndex.getD 0) false⟩
      simp [Rt.parkSelect, heq]
  | timed tape timers wakeNs i hi hperm =>
      obtain ⟨ws, n, heq⟩ := enrolled_task_eq hws hch plan tape
      refine ⟨_, ?_, .select wakeNs (s.enrolled t cases plan tape).timers.nextSeq ws n i true⟩
      simp [Rt.parkSelectTimed, heq]

theorem Parks.leaves {c : CallId} {q p : Pc} (hp : Parks t c q s p s')
    (hws : (s.task t).selectWaiters = []) :
    ∃ k, s'.task = Function.update s.task t k ∧ (s.task t).Leaves k := by
  cases hp with
  | send ch value => exact ⟨_, rfl, .chan .send ch value (by simp)⟩
  | recv ch out => exact ⟨_, rfl, .chan .recv ch out (by simp)⟩
  | select cases plan _ hch hp => exact hp.leaves hws hch
  | join x => exact ⟨_, rfl, .join x⟩
  | sleep tape timers wakeNs => exact ⟨_, rfl, .sleep wakeNs _⟩
  | yield => exact ⟨_, rfl, .yield⟩
  | fd timers wakeNs x use _ hq =>
      obtain ⟨gens, polling, interest, filters, tape, rfl⟩ := hq
      exact ⟨_, rfl, .fd wakeNs _ _⟩

/-- A select that parks reports nothing. -/
theorem Rt.SelectParks.log_eq {cases : List SelectCase} {plan : SelectPlan}
    (hp : SelectParks t cases plan s s') (hws : (s.task t).selectWaiters = [])
    (hch : s.CasesRegistered cases) : s'.log = s.log := by
  have key := fun tape => Registers.log_eq (enrolled_registers hws hch plan tape)
  cases hp with
  | untimed tape => exact key tape
  | timed tape => exact key tape

theorem Parks.log_eq {c : CallId} {q p : Pc} (hp : Parks t c q s p s')
    (hws : (s.task t).selectWaiters = []) : s'.log = s.log := by
  cases hp with
  | select cases plan _ hch hp => exact hp.log_eq hws hch
  | fd timers wakeNs x use _ hq =>
      obtain ⟨gens, polling, interest, filters, tape, rfl⟩ := hq
      rfl
  | _ => rfl

theorem Task.Leaves.call_eq {k k' : Task} (h : k.Leaves k') : k'.call = k.call := by
  cases h <;> rfl

theorem Rt.Marked.allTasks_eq (hm : Marked s s') : s'.allTasks = s.allTasks := by
  rcases hm with rfl | ⟨x, st, -, rfl⟩ <;> rfl

/-- The agent that takes an action. -/
def Act.agent? : Act → Option Agent
  | .api a _ | .cont a _ | .write a _ _ | .osOpen a _ _ | .osClose a _ => some a.agent
  | .finish _ t => some (.task t)
  | .worker .. | .collect .. => none

namespace Sys

variable {s s' : Sys}

theorem Case.recorded {act : Act} (hc : Case s act s') (h : s.Ok) (ht : t ∈ s'.rt.allTasks) :
    s.rt.Recorded (fun u => act.agent? = some (.task u)) s'.rt t := by
  have hi := h.rest.inv
  cases hc with
  | calls a call hen hpc =>
      cases a with
      | ext n => exact .inl ⟨ht, .same⟩
      | task w u =>
          have hrun := (h.runs u).mpr ⟨w, by simpa [Sys.enabled] using hen⟩
          exact .update ht rfl (.calls _ rfl hrun.2)
  | acts a env c o p es os sel hen hc hp hr _ hs hon =>
      exact (hs.recorded h.rest (fun u hu => congrArg some hu) ht).before rfl
  | resumesFd w u env c v use o p es hw hpc ho hon =>
      have hrun := (h.runs u).mpr ⟨w, hw⟩
      exact .update ht rfl (.collects rfl hrun.2)
  | parks w u env c p hw hl hcall hnp hp hm =>
      have hrun := (h.runs u).mpr ⟨w, hw⟩
      obtain ⟨k, htask, hk⟩ := hp.leaves (h.rest.noWaiters u hrun)
      have hall := (hp.parked h.rest hrun).allTasks
      exact .update (hall ▸ hm.allTasks_eq ▸ ht) (hm.task_eq.trans htask) (.leaves rfl hrun.2 hk)
  | finishes w u hw hl hpc hb =>
      have hrun := (h.runs u).mpr ⟨w, hw⟩
      have hdie := hi.leave.die hrun.1 hrun.2 (h.rest.noWaiters u hrun)
      obtain ⟨hne, hmem⟩ := (hb.mem hdie).mp ht
      have hsame : (s.rt.leave.die u).task t = s.rt.task t := Function.update_of_ne hne _ _
      have hw := hb.task_eq_or hdie hmem hne
      rw [hsame] at hw
      refine .woken hmem (hw.imp_right ?_)
      rintro ⟨o, hw, -⟩
      exact ⟨o, hw⟩
  | @shutsDown n env c rt hpc hinit hr halone hd =>
      have : t ∈ rt.allTasks := ht
      simp [hd.off.allTasks] at this
  | halts n env c hpc hr hm =>
      have hinv : s.rt.halt.Inv := hi.congr (by constructor <;> rfl) rfl rfl rfl rfl
      have hrec : s.rt.halt.Recorded (fun u => (Act.cont (.ext n) env).agent? = some (.task u)) _ t :=
        Shifts.recorded (FdShifts.shifts hm) hinv ht
      exact (hrec.after (s := s.rt) rfl rfl rfl).before rfl
  | loops w q lock _ hl hm => exact Shifts.recorded (Ticks.shifts hm) hi ht
  | dispatches w env u q hw hl hq hm =>
      obtain ⟨-, hready⟩ := hi.mem_runq (t := u) (by simp [(Queue.pop_eq_some.mp hq).1])
      exact .update (hm.allTasks_eq ▸ ht) hm.task_eq (.runs hready)
  | _ => exact .inl ⟨ht, .same⟩

/-- A running task that stops running by a step of its own has parked. -/
theorem Case.parks_own {act : Act} (hc : Case s act s') (h : s.Ok)
    (ha : act.agent? = some (.task t)) (hrun : (s.rt.task t).state = .running)
    (ht : t ∈ s'.rt.allTasks) (hst : (s'.rt.task t).state ≠ .running) :
    ∃ c p r, (s.pc (.task t)).call? = some c ∧ Parks t c (s.pc (.task t)) s.rt p r ∧
      s'.pc (.task t) = p ∧ s'.rt.task = r.task ∧ s'.rt.selw = r.selw := by
  -- otherwise it still has its worker
  have still : ∀ w, s'.workers w = .running t → False := fun w hw =>
    hst (((hc.ok h).runs t).mpr ⟨w, hw⟩).2
  have enabled : ∀ a : Actor, a.agent = .task t → s.enabled a = true → ∃ w, s.workers w = .running t :=
    fun a hag hen => by
      cases a with
      | ext n => cases hag
      | task w u =>
          obtain rfl := Agent.task.inj hag
          exact ⟨w, enabled_task.mp hen⟩
  cases hc with
  | calls a call hen hpc =>
      obtain ⟨w, hw⟩ := enabled a (Option.some.inj ha) hen
      exact absurd hw (still w)
  | acts a env c o p es os sel hen =>
      obtain ⟨w, hw⟩ := enabled a (Option.some.inj ha) hen
      exact absurd hw (still w)
  | resumesFd w u env c v use o p es hw =>
      obtain rfl := Agent.task.inj (Option.some.inj ha)
      exact absurd hw (still w)
  | returns w u env c rc sel hw | goesOn w u env hw =>
      obtain rfl := Agent.task.inj (Option.some.inj ha)
      exact absurd hw (still w)
  | @parks w u env c p r b hw hl hcall hnp hp hm =>
      obtain rfl := Agent.task.inj (Option.some.inj ha)
      refine ⟨c, p, r, hcall, hp, Function.update_self .., hm.task_eq, ?_⟩
      rcases hm with rfl | ⟨x, st, -, rfl⟩ <;> rfl
  | finishes w u hw hl hpc hb =>
      obtain rfl := Agent.task.inj (Option.some.inj ha)
      have hr := (h.runs u).mpr ⟨w, hw⟩
      have hdie := h.rest.inv.leave.die hr.1 hr.2 (h.rest.noWaiters u hr)
      exact absurd rfl ((hb.mem hdie).mp ht).1
  | writes | descriptors => exact absurd hrun hst
  | loops w q lock hact => rcases hact with ⟨env, rfl⟩ | ⟨batch, rfl⟩ <;> cases ha
  | _ => cases ha

/-- An agent that has started moves on only by itself. -/
theorem Case.pc_kept {act : Act} {g : Agent} (hc : Case s act s') (hf : s.pc g ≠ .fresh) :
    act.agent? = some g ∨ s'.pc g = s.pc g := by
  have moves : ∀ {k : Agent} {p : Pc}, act.agent? = some k →
      act.agent? = some g ∨ Function.update s.pc k p g = s.pc g := by
    intro k p hk
    by_cases hkg : k = g
    · exact .inl (hkg ▸ hk)
    · exact .inr (Function.update_of_ne (Ne.symm hkg) _ _)
  cases hc with
  | calls a call => exact moves rfl
  | acts a env => exact moves rfl
  | resumesFd w u => exact moves rfl
  | returns w u => exact moves rfl
  | goesOn w u => exact moves rfl
  | parks w u => exact moves rfl
  | finishes w u => exact moves rfl
  | dispatches w env u =>
      refine .inr ?_
      by_cases hgu : g = .task u
      · subst hgu
        exact (Function.update_self ..).trans (if_neg hf)
      · exact Function.update_of_ne hgu _ _
  | runBegins n | runPrepares n | runFails n | spawns n | launches n | aborts n | runEnds n
  | abortEnds n | halts n | shutsDown n => exact moves rfl
  | _ => exact .inr rfl

end Sys

end Microthread
