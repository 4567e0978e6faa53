import Microthread.Invariant.Counters
import Microthread.Properties.Location

/-!
# The counters in every run

`mt_task_cancel` on a task that waits for a channel or for a join takes the task
out of its queue with a helper that decrements the counter of waiting tasks, and
then completes the wait with another one that decrements it again. In runs
without such a cancellation every counter of the runtime is exact.
-/

namespace Microthread

open Foundation Rt

variable {s s' : Rt} {t : TaskId}

/-! ## Sections and parking -/

theorem Registers.counted (hr : Registers t s s') (h : s.Counted) : s'.Counted := by
  obtain ⟨_, _, _, _, _, _, _, _, _, _, _, _, rfl⟩ := Registers.enrols hr
  refine h.congr rfl (fun u _ => ?_) rfl rfl rfl
  by_cases hu : u = t
  · subst hu
    simp
  · simp [hu]

theorem Rt.CancelCall.counted {x : HandleId} (hc : CancelCall s x s') (h : s.Counted) (hi : s.Inv)
    (hx : ∀ t, (s.handle x).task = some t →
      (s.task t).state ≠ .waitingChan ∧ (s.task t).state ≠ .waitingJoin) : s'.Counted := by
  cases hc with
  | late => exact Shifts.counted (.single (.request x)) h hi
  | wake t a _ hcomp htask hcancel =>
      obtain ⟨hchan, hjoin⟩ := hx t htask
      exact hcancel.counted (Shifts.counted (reported_shifts hcomp) h hi)
        (Shifts.inv (reported_shifts hcomp) hi) hchan hjoin

theorem Rt.Section.counted {does : Op → Prop} {c : CallId} {o : Option (Role × Rc)}
    (hs : Section does c s o s') (h : s.Counted) (hi : s.Inv)
    (hx : ∀ x, does (.cancel x) → ∀ t, (s.handle x).task = some t →
      (s.task t).state ≠ .waitingChan ∧ (s.task t).state ≠ .waitingJoin) : s'.Counted := by
  cases hs with
  | idle o tape => exact Shifts.counted (.single (.quiet _ _ _ _ tape)) h hi
  | release x rc _ hr => exact Shifts.counted (.single hr.shift) h hi
  | fd o _ _ ho => exact Shifts.counted (ho.shifts hi) h hi
  | go rc _ _ hc => exact hc.counted h hi
  | chanCreate rc _ _ hc => exact hc.created.counted h hi
  | cancel x hd hc => exact hc.counted h hi (hx x hd)
  | send kind ch value rc _ _ hsend => exact Moves.counted hsend.moves h hi
  | sendNot => exact h
  | recv ch out rc _ _ hrecv => exact Moves.counted hrecv.moves h hi
  | recvNot => exact h
  | close ch rc _ _ hc => exact Moves.counted hc.moves h hi
  | destroy ch rc _ hl hd => exact Moves.counted (hd.moves hl.1) h hi
  | unselect t rc _ _ hf => exact Registers.counted hf.registers h
  | unwait t rc x _ _ hrun hq =>
      obtain ⟨gens, polling, interest, filters, tape, rfl⟩ := hq
      refine h.congr rfl (fun u _ => ?_) rfl rfl rfl
      by_cases hu : u = t
      · subst hu
        simp [Rt.wasteFd, Rt.waste, Rt.touchFd, Rt.modTask]
      · simp [Rt.wasteFd, Rt.waste, Rt.touchFd, Rt.modTask, hu]

theorem Rt.SelectParks.counted {cases : List SelectCase} {plan : SelectPlan}
    (hp : SelectParks t cases plan s s') (h : s.Counted) (hn : s.allTasks.Nodup) (hr : s.Runs t)
    (hws : (s.task t).selectWaiters = []) (hch : s.CasesRegistered cases) : s'.Counted := by
  have key : ∀ tape, (s.enrolled t cases plan tape).Counted ∧
      (s.enrolled t cases plan tape).allTasks = s.allTasks ∧
      ((s.enrolled t cases plan tape).task t).state = .running := fun tape => by
    have hreg := enrolled_registers hws hch plan tape
    have hcount := Registers.counted hreg h
    obtain ⟨_, _, _, _, _, _, _, _, _, _, _, _, heq⟩ := Registers.enrols hreg
    refine ⟨hcount, ?_, ?_⟩
    · rw [heq]
    · rw [heq]
      simpa using hr.2
  cases hp with
  | untimed tape hi =>
      obtain ⟨hcount, hall, hrun⟩ := key tape
      refine hcount.update (hall ▸ hn) (hall ▸ hr.1) rfl rfl ?_ ?_ hcount.exact
      · simp [Rt.parkSelect, hrun, TaskState.onChannel]
      · simp [Rt.parkSelect, hrun]
  | timed tape timers wakeNs i hi hperm =>
      obtain ⟨hcount, hall, hrun⟩ := key tape
      refine hcount.update (hall ▸ hn) (hall ▸ hr.1) rfl rfl ?_ ?_ hcount.exact
      · simp [Rt.parkSelectTimed, hrun, TaskState.onChannel]
      · simp [Rt.parkSelectTimed, hrun]

theorem Parks.counted {c : CallId} {q p : Pc} (hp : Parks t c q s p s') (h : s.Counted)
    (hrest : s.Rest) (hr : s.Runs t) : s'.Counted := by
  have hn := hrest.inv.task.nodup
  cases hp with
  | send ch value _ _ _ | recv ch out _ _ _ =>
      exact h.update hn hr.1 rfl rfl (by simp [Rt.parkChan, hr.2, TaskState.onChannel])
        (by simp [Rt.parkChan, hr.2]) h.exact
  | select cases plan _ hch hp => exact hp.counted h hn hr (hrest.noWaiters t hr) hch
  | join x _ _ _ =>
      exact h.update hn hr.1 rfl rfl (by simp [Rt.parkJoin, hr.2, TaskState.onChannel])
        (by simp [Rt.parkJoin, hr.2]) h.exact
  | sleep tape timers wakeNs _ =>
      exact h.update hn hr.1 rfl rfl (by simp [Rt.parkSleep, hr.2, TaskState.onChannel])
        (by simp [Rt.parkSleep, hr.2]) h.exact
  | yield =>
      exact h.update hn hr.1 rfl rfl (by simp [Rt.parkYield, hr.2, TaskState.onChannel])
        (by simp [Rt.parkYield, hr.2]) h.exact
  | fd timers wakeNs x use _ hq _ _ =>
      obtain ⟨gens, polling, interest, filters, tape, rfl⟩ := hq
      exact h.update hn hr.1 rfl rfl (by simp [Rt.parkFd, hr.2, TaskState.onChannel])
        (by simp [Rt.parkFd, hr.2]) h.exact

namespace Sys

variable {s s' : Sys} {w : Nat} {t : TaskId}

/-- The step does not cancel a task that waits for a channel or for a join. -/
def Gentle (s : Sys) : Act → Prop
  | .cont a _ =>
    match s.pc a.agent with
    | .called _ (.cancel x) => ∀ t ∈ (s.rt.handle x).task,
        (s.rt.task t).state ≠ .waitingChan ∧ (s.rt.task t).state ≠ .waitingJoin
    | _ => True
  | _ => True

instance (s : Sys) (a : Act) : Decidable (s.Gentle a) := by
  induction a using Act.casesOn with
  | cont a env =>
      dsimp only [Gentle]
      generalize s.pc a.agent = p
      induction p using Pc.casesOn with
      | called c call => induction call using Api.casesOn <;> dsimp only <;> infer_instance
      | _ => exact instDecidableTrue
  | _ => exact instDecidableTrue

theorem Prepared.pc_eq {s₀ : Sys} (hp : s.Prepared s₀) : s₀.pc = s.pc := by
  obtain ⟨tape, rfl | rfl⟩ := hp <;> rfl

theorem Prepared.task_eq {s₀ : Sys} (hp : s.Prepared s₀) (h : s.Ok) : s₀.rt.task = s.rt.task := by
  rcases hp.cases h with ⟨tape, rfl⟩ | ⟨-, -, rt, hb, rfl⟩
  · rfl
  · exact hb.task

theorem Prepared.handle_eq {s₀ : Sys} (hp : s.Prepared s₀) (h : s.Ok) :
    s₀.rt.handle = s.rt.handle := by
  rcases hp.cases h with ⟨tape, rfl⟩ | ⟨-, -, rt, hb, rfl⟩
  · rfl
  · exact hb.handle

theorem Gentle.prepared {s₀ : Sys} {a : Act} (hg : s.Gentle a) (h : s.Ok) (hp : s.Prepared s₀) :
    s₀.Gentle a := by
  cases a with
  | cont a env =>
      simp only [Gentle] at hg ⊢
      rw [hp.pc_eq, hp.handle_eq h, hp.task_eq h]
      exact hg
  | _ => trivial

theorem Case.counted {act : Act} (hc : Case s act s') (h : s.Ok) (hk : s.rt.Counted)
    (hg : s.Gentle act) : s'.rt.Counted := by
  have hi := h.rest.inv
  have same : ∀ {rt : Rt}, rt.allTasks = s.rt.allTasks → rt.task = s.rt.task →
      rt.channelWaitingCount = s.rt.channelWaitingCount →
      rt.joinWaitingCount = s.rt.joinWaitingCount → rt.suppressed = s.rt.suppressed →
      rt.Counted := fun h1 h2 h3 h4 h5 => hk.same h1 (fun u _ => by rw [h2]) h3 h4 h5
  cases hc with
  | calls a call hen hpc =>
      cases a with
      | ext n => exact same rfl rfl rfl rfl rfl
      | task w t =>
          refine hk.congr rfl (fun u _ => ?_) rfl rfl rfl
          by_cases hu : u = t
          · subst hu
            simp [Sys.enter, Rt.modTask, Sys.setPc]
          · simp [Sys.enter, Rt.modTask, Sys.setPc, hu]
  | acts a env c o p es os sel hen hc hp hr _ hs hon =>
      have hcount := hs.counted hk hi (by
        rintro x ⟨d, hd⟩ t htask
        simp only [Gentle, hd] at hg
        exact hg t htask)
      exact ⟨hcount.chan, hcount.join, hcount.exact⟩
  | resumesFd w t env c v use o p es hw hpc ho hon =>
      refine hk.congr rfl (fun u _ => ?_) rfl rfl rfl
      by_cases hu : u = t
      · subst hu
        simp [Rt.finishFd, Sys.setPc]
      · simp [Rt.finishFd, Sys.setPc, hu]
  | parks w t env c p hw hl hcall hnp hp hm =>
      have hr : s.rt.Runs t := (h.runs t).mpr ⟨w, hw⟩
      have hpark := hp.counted hk h.rest hr
      have hcount := (hp.parked h.rest hr).count
      have hinv := (hp.parked h.rest hr).inv
      have hpos := h.rest.runningTasks_pos hr
      exact Shifts.counted hm.shifts (hpark.leave (by omega)) hinv.leave
  | finishes w t hw hl hpc hb =>
      have hr : s.rt.Runs t := (h.runs t).mpr ⟨w, hw⟩
      have hleave := hk.leave (h.rest.runningTasks_pos hr)
      exact hb.counted (hleave.die hi.leave hr.1 hr.2)
        (hi.leave.die hr.1 hr.2 (h.rest.noWaiters t hr))
  | @shutsDown n env c rt hpc hinit hr halone hd =>
      have hall := hd.off.allTasks
      refine ⟨hd.channelWaiting.trans ?_, hd.joinWaiting.trans ?_, hd.exact h.rest.noDead hk.exact⟩
      · change 0 = rt.allTasks.countP _
        rw [hall, List.countP_nil]
      · change 0 = rt.allTasks.countP _
        rw [hall, List.countP_nil]
  | halts n env c hpc hr hm =>
      have hhalt : s.rt.halt.Counted := same rfl rfl rfl rfl rfl
      have hinv : s.rt.halt.Inv := hi.congr (by constructor <;> rfl) rfl rfl rfl rfl
      have hcount := Shifts.counted (FdShifts.shifts hm) hhalt hinv
      exact ⟨hcount.chan, hcount.join, hcount.exact⟩
  | loops w q lock _ hl hm => exact Shifts.counted (Ticks.shifts hm) hk hi
  | exits w env rc hw hl _ =>
      refine ⟨hk.chan, hk.join, ?_⟩
      have hpos := h.activeWorkers_pos (locked_active hw).1
      simp [Sys.workerExit, Sys.setWorker, Rt.guarded, hk.exact, Nat.pos_iff_ne_zero.mp hpos]
  | dispatches w env t q hw hl hq hm =>
      obtain ⟨hmem, hready⟩ := hi.mem_runq (t := t) (by simp [(Queue.pop_eq_some.mp hq).1])
      exact Shifts.counted hm.shifts (hk.dispatch hi hmem hready) (h.rest.dispatch hq).1.inv
  | _ => exact same rfl rfl rfl rfl rfl

theorem counted_of_reach (h : machine.Reach (Under Gentle) s) : s.rt.Counted := by
  refine invariant_of_cases (fun kind => ⟨rfl, rfl, rfl⟩) (fun s s₀ hok hp hk => ?_)
    (fun s s₀ a hok hp hg => hg.prepared hok hp)
    (fun s a s' hok hk hg hc => hc.counted hok hk hg) h
  rcases hp.cases hok with ⟨tape, rfl⟩ | ⟨-, -, rt, hb, rfl⟩
  · exact hk.same rfl (fun _ _ => rfl) rfl rfl rfl
  · refine ⟨hb.channelWaiting.trans ?_, hb.joinWaiting.trans ?_, hb.suppressed.trans hk.exact⟩
    · simp [hb.off.allTasks]
    · simp [hb.off.allTasks]

/-- Every counter of the runtime equals what it counts, and no saturating guard has
swallowed a decrement. -/
structure Exact (s : Sys) : Prop where
  channelWaiting : s.rt.channelWaitingCount = s.rt.allTasks.countP fun t =>
    (s.rt.task t).state = .waitingChan ∨ (s.rt.task t).state = .waitingSelect
  joinWaiting : s.rt.joinWaitingCount =
    s.rt.allTasks.countP fun t => (s.rt.task t).state = .waitingJoin
  fdWaiting : s.rt.fdWaitingCount =
    s.rt.fdWaiters.countP fun v => (s.rt.fdw v).state = .active
  runnable : s.rt.runq.count = s.rt.runq.items.length
  running : s.rt.runningTasks = s.rt.allTasks.countP fun t => (s.rt.task t).state = .running
  live : s.rt.liveCount = s.rt.allTasks.length
  waiters : ∀ r, (s.rt.waitq r).count = (s.rt.waitq r).items.length
  selectWaiters : ∀ r, (s.rt.selectq r).count = (s.rt.selectq r).items.length
  unsuppressed : s.rt.suppressed = false

/-- In a run that cancels no task waiting for a channel or for a join, every counter is
exact. -/
theorem counters_exact (h : machine.Reach (Under Gentle) s) : s.Exact := by
  have hok := ok_of_under h
  have hcount := counted_of_reach h
  have hinv := hok.rest.inv
  refine ⟨?_, hcount.join, hinv.fd.count, hinv.task.runqExact, hok.rest.running, ?_,
    hinv.task.waitqExact, hinv.select.exact, hcount.exact⟩
  · rw [hcount.chan]
    refine List.countP_congr fun t _ => ?_
    cases (s.rt.task t).state <;> simp [TaskState.onChannel]
  · rw [hinv.task.live, List.countP_eq_length]
    exact fun t ht => by simpa using fun hdead => hok.rest.noDead t ⟨ht, hdead⟩

/-- Two tasks wait for values of one channel; a third one cancels the first. -/
def cancelTrace : List Act := List.flatten [
  invoke (.ext 0) (.go true 0 true), invoke (.ext 0) (.go true 0 false),
  invoke (.ext 0) (.go true 0 false), invoke (.ext 0) (.chanCreate 4 0),
  invoke (.ext 0) (.run 1 true) 2, works 0 3,
  invoke (.task 0 1) (.chanRecv (some 4) (some 100)), works 0 2,
  invoke (.task 0 2) (.chanRecv (some 4) (some 200)), works 0 2]

theorem counters_exact_two_waiting : ∃ s, machine.Reach (Under Gentle) s ∧
    s.rt.channelWaitingCount = 2 ∧ s.Exact := by
  obtain ⟨s, hs, hp⟩ := reach_of_trace_under Gentle .poll cancelTrace
    (fun s => s.rt.channelWaitingCount == 2) (by decide +kernel)
  exact ⟨s, hs, by simpa using hp, counters_exact hs⟩

/-- The cancellation counts the second waiter out as well. -/
theorem cancel_decrements_twice : ∃ s, machine.Reach Sys.Contract s ∧ s.lock = none ∧
    ¬s.Exact := by
  obtain ⟨s, hs, hp⟩ := reach_of_promised .poll
    (List.flatten [cancelTrace, invoke (.task 0 3) (.cancel 0)]) (fun s =>
      s.lock.isNone && s.rt.channelWaitingCount == 0 && s.rt.allTasks.contains 2 &&
        (s.rt.task 2).state == .waitingChan) (by decide +kernel)
  simp only [Bool.and_eq_true, beq_iff_eq, Option.isNone_iff_eq_none, List.contains_iff_mem] at hp
  obtain ⟨⟨⟨hl, hcount⟩, hmem⟩, hstate⟩ := hp
  refine ⟨s, hs, hl, fun hex => ?_⟩
  have := List.countP_eq_zero.mp (hex.channelWaiting.symm.trans hcount) 2 hmem
  simp [hstate] at this

end Sys

end Microthread
