import Microthread.Foundation.Coroutines
import Microthread.System.Ledger
import Microthread.System.Records

/-!
# Which context is on which worker

A task has a context, and so has the loop of each worker. A worker's thread is in the context
of the task that it runs, or in that of its loop, and the two take turns: dispatching a task
leaves the loop, and a task that parks, yields or finishes leaves for the loop of the worker
that runs it. Tasks move between workers; a loop stays with its thread.
-/

namespace Microthread

open Foundation Rt

/-- The contexts: `ctx` of a task, and `scheduler_ctx` of a worker. -/
inductive Ctx where
  | task (t : TaskId) | sched (w : Nat)
  deriving DecidableEq, Repr

/-- The context that a worker's thread is in. -/
def WorkerPc.ctx (w : Nat) : WorkerPc → Option Ctx
  | .off | .exited => none
  | .running t => some (.task t)
  | _ => some (.sched w)

namespace WorkerPc

variable {w : Nat} {q : WorkerPc}

theorem ctx_of_active (ha : q.active = true) (hr : ∀ t, q ≠ .running t) :
    q.ctx w = some (.sched w) := by
  cases q with
  | running u => exact absurd rfl (hr u)
  | off | start | exited => cases ha
  | _ => rfl

theorem ctx_of_locked (h : q.locked = true) : q.ctx w = some (.sched w) := by
  cases q with
  | top | pop => rfl
  | _ => cases h

end WorkerPc

/-- The worker whose thread takes the step. -/
def Act.worker? : Act → Option Nat
  | .worker w _ | .collect w _ | .finish w _ | .cont (.task w _) _ => some w
  | _ => none

namespace Sys

/-- `mt_current_scheduler_ctx`, or the context of the running task. -/
def ctx (s : Sys) (w : Nat) : Option Ctx := (s.workers w).ctx w

def ctxLive (s : Sys) : Ctx → Bool
  | .task t => decide (t ∈ s.rt.allTasks)
  | .sched w => (s.ctx w).isSome

/-- The tasks that a step creates. -/
def ctxBorn (s s' : Sys) : List Ctx :=
  (s'.rt.allTasks.filter fun t => t ∉ s.rt.allTasks).map .task

/-- The task has been freed. -/
def CtxGone (s : Sys) : Ctx → Prop
  | .task t => s.rt.made (.task t) = true ∧ t ∉ s.rt.allTasks
  | .sched _ => False

end Sys

/-- The runtime as a machine that moves contexts between threads. -/
def contexts : Control Sys Act Nat Ctx where
  toMachine := machine
  on := Sys.ctx
  live := Sys.ctxLive
  born := Sys.ctxBorn
  acting := Act.worker?

namespace Sys

variable {s s' : Sys} {act : Act} {w v : Nat} {t : TaskId}

/-- What a step does to the context of a thread. -/
inductive Turn (s : Sys) (act : Act) (s' : Sys) (v : Nat) : Prop where
  | stays : s'.ctx v = s.ctx v → Turn s act s' v
  | starts : s.ctx v = none → s'.ctx v = some (.sched v) → Turn s act s' v
  | ends : s.ctx v = some (.sched v) → s'.ctx v = none → Turn s act s' v
  | leaves (t : TaskId) : act.worker? = some v → s.ctx v = some (.task t) → s'.ctx v = some (.sched v) →
      Turn s act s' v
  | enters (t : TaskId) : act.worker? = some v → s.ctx v = some (.sched v) → s'.ctx v = some (.task t) →
      t ∈ s.rt.allTasks → ¬s.rt.Runs t → Turn s act s' v

theorem Turn.of_eq (hw : s'.workers v = s.workers v) : s.Turn act s' v := by
  apply Turn.stays
  unfold ctx
  rw [hw]

/-- Only the worker `w` moves. -/
theorem Turn.of_update {q : WorkerPc} (hw : s'.workers = Function.update s.workers w q)
    (h : s'.workers w = q → s.Turn act s' w) : s.Turn act s' v := by
  by_cases hv : v = w
  · subst hv
    exact h (by rw [hw, Function.update_self])
  · exact .of_eq (by rw [hw, Function.update_of_ne hv])

theorem ctx_eq {q : WorkerPc} (hw : s.workers w = q) : s.ctx w = q.ctx w := congrArg _ hw

theorem ctx_of_running (hw : s.workers w = .running t) : s.ctx w = some (.task t) := ctx_eq hw

theorem ctx_eq_task : s.ctx w = some (.task t) ↔ s.workers w = .running t := by
  constructor
  · intro h
    unfold ctx at h
    cases hw : s.workers w with
    | running u => simpa [hw, WorkerPc.ctx] using h
    | _ => simp [hw, WorkerPc.ctx] at h
  · exact ctx_of_running

theorem ctx_eq_sched {v : Nat} (h : s.ctx w = some (.sched v)) : v = w := by
  unfold ctx at h
  cases hw : s.workers w with
  | off | exited | running u => simp [hw, WorkerPc.ctx] at h
  | _ => simpa [hw, WorkerPc.ctx, eq_comm] using h

/-- A worker in its loop stays in the loop's context. -/
theorem Loops.ctx_eq {p q : WorkerPc} {l l' : Option Nat} (h : Loops w p l q l') :
    p.ctx w = some (.sched w) ∧ q.ctx w = some (.sched w) := by
  cases h with
  | keep hp hq => exact ⟨WorkerPc.ctx_of_locked hp, WorkerPc.ctx_of_locked hq⟩
  | drop hp hq _ hr => exact ⟨WorkerPc.ctx_of_locked hp, WorkerPc.ctx_of_active hq hr⟩
  | take hp _ hr hq => exact ⟨WorkerPc.ctx_of_active hp hr, WorkerPc.ctx_of_locked hq⟩
  | collect => exact ⟨rfl, rfl⟩

/-- The context of each thread stays, or changes in one of these ways. -/
theorem Case.turn (hc : Case s act s') (h : s.Ok) : s.Turn act s' v := by
  cases hc with
  | calls a call => cases a <;> exact .of_eq rfl
  | parks w t env c p hw | finishes w t hw =>
      refine .of_update rfl fun hw' => ?_
      exact .leaves t rfl (ctx_of_running hw) (ctx_eq hw')
  | spawns n env c k j hpc =>
      obtain ⟨-, -, -, -, hoff⟩ := h.run.spawn _ _ _ _ hpc
      exact .of_update rfl fun hw' => .starts (ctx_eq (hoff j le_rfl)) (ctx_eq hw')
  | launches n env c hpc =>
      have hoff : s.workers 0 = .off := by
        rcases hpc with ⟨k, hpc⟩ | ⟨k, j, hpc, -⟩
        · exact h.run.alloc _ _ _ hpc 0
        · exact (h.run.spawn _ _ _ _ hpc).2.2.2.1
      exact .of_update rfl fun hw' => .starts (ctx_eq hoff) (ctx_eq hw')
  | runEnds n env c hpc hl hw | abortEnds n env c hpc hl hw =>
      apply Turn.stays
      have hgone : s.workers v = .exited ∨ s.workers v = .off := by
        by_cases hv : s.workers v = .off
        · exact .inr hv
        · exact hw v (h.run.bound v hv).1
      rcases hgone with hgone | hgone
      · exact (ctx_eq hgone).symm
      · exact (ctx_eq hgone).symm
  | starts w env hw =>
      exact .of_update rfl fun hw' => .stays ((ctx_eq hw').trans (ctx_eq hw).symm)
  | startFails w env hw =>
      exact .of_update rfl fun hw' => .ends (ctx_eq hw) (ctx_eq hw')
  | loops w q lock hact hl =>
      refine .of_update rfl fun hw' => .stays ?_
      obtain ⟨hp, hq⟩ := Loops.ctx_eq hl
      exact (ctx_eq hw').trans (hq.trans hp.symm)
  | exits w env rc hw =>
      refine .of_update rfl fun hw' => .ends ?_ (ctx_eq hw')
      exact WorkerPc.ctx_of_locked hw
  | dispatches w env t q hw hl hq =>
      obtain ⟨hmem, hready⟩ := h.rest.inv.mem_runq (t := t) (by simp [(Queue.pop_eq_some.mp hq).1])
      refine .of_update rfl fun hw' => .enters t rfl (ctx_eq hw) (ctx_of_running hw') hmem ?_
      intro hr
      simp [hr.2] at hready
  | _ => exact .of_eq rfl

/-! ## The rules that the scheduler keeps to -/

theorem Prepared.allTasks_eq {s₀ : Sys} (hp : s.Prepared s₀) (h : s.Ok) :
    s₀.rt.allTasks = s.rt.allTasks := by
  rcases hp.cases h with ⟨tape, rfl⟩ | ⟨-, hoff, rt, hb, rfl⟩
  · rfl
  · exact hb.off.allTasks.trans hoff.allTasks.symm

/-- A step from a reachable state, for the contexts. -/
theorem turn_of_step (hr : machine.Reach Contract s) (hok : s.Contract act)
    (hs : machine.step s act = some s') (v : Nat) : s.Turn act s' v := by
  have h := ok_of_reach (fun _ _ hc => hc) hr
  obtain ⟨s₀, hp, hc⟩ := h.step_cases hok hs
  have hworkers : s₀.workers = s.workers := by
    obtain ⟨tape, rfl | rfl⟩ := hp <;> rfl
  have hctx : s₀.ctx v = s.ctx v := congrArg (WorkerPc.ctx v) (congrFun hworkers v)
  have hall := hp.allTasks_eq h
  have h₀ := hp.ok h
  cases hc.turn (v := v) h₀ with
  | stays heq => exact .stays (heq.trans hctx)
  | starts hold hnew => exact .starts (hctx ▸ hold) hnew
  | ends hold hnew => exact .ends (hctx ▸ hold) hnew
  | leaves t ha hold hnew => exact .leaves t ha (hctx ▸ hold) hnew
  | enters t ha hold hnew hmem hrun =>
      refine .enters t ha (hctx ▸ hold) hnew (hall ▸ hmem) fun hr => hrun ?_
      obtain ⟨w, hw⟩ := (h.runs t).mp hr
      exact (h₀.runs t).mpr ⟨w, hworkers ▸ hw⟩

/-- A registered task stays, or it is freed; a new one has not been there before. -/
theorem tasks_of_step (hr : machine.Reach Contract s) (hok : s.Contract act)
    (hs : machine.step s act = some s') (t : TaskId) :
    (s.rt.made (.task t) = true → s'.rt.made (.task t) = true) ∧
      (t ∈ s'.rt.allTasks → t ∈ s.rt.allTasks ∨ s.rt.made (.task t) = false) := by
  have h := ok_of_reach (fun _ _ hc => hc) hr
  obtain ⟨s₀, hp, hc⟩ := h.step_cases hok hs
  have hmade := hp.made_eq h
  constructor
  · intro ho
    exact hc.made_mono (hp.ok h) _ (hmade ▸ ho)
  · intro hmem
    rcases hc.recorded (hp.ok h) hmem with ⟨hold, -⟩ | ⟨hnot, -⟩
    · exact .inl (hp.allTasks_eq h ▸ hold)
    · exact .inr (hmade ▸ hnot)

theorem task_lasts (hr : machine.Reach Contract s) (hok : s.Contract act)
    (hs : machine.step s act = some s') (hmem : t ∈ s.rt.allTasks) :
    s'.ctxLive (.task t) = true ∨ s'.CtxGone (.task t) := by
  have hmade := ((ok_of_reach (fun _ _ hc => hc) hr).rest.inv.heap.task t hmem).1
  by_cases hmem' : t ∈ s'.rt.allTasks
  · exact .inl (decide_eq_true hmem')
  · exact .inr ⟨(tasks_of_step hr hok hs t).1 hmade, hmem'⟩

end Sys

open Sys in
/-- The runtime moves contexts by the rules: the loop of a worker and the tasks take turns on
its thread, and a task is taken up only if it is registered and runs nowhere. -/
theorem contexts_lawful : contexts.Lawful Sys.Contract Sys.CtxGone where
  init s hs c := by
    obtain ⟨kind, rfl⟩ := hs
    cases c <;> rfl
  live s hr v c hc := by
    have h := ok_of_reach (fun _ _ hc => hc) hr
    cases c with
    | task t =>
        have hrun : s.rt.Runs t := (h.runs t).mpr ⟨v, ctx_eq_task.mp hc⟩
        exact decide_eq_true hrun.1
    | sched w =>
        obtain rfl := ctx_eq_sched hc
        exact Option.isSome_iff_exists.mpr ⟨_, hc⟩
  acts s act s' hr hok hs v c d hc hd hne := by
    cases turn_of_step hr hok hs v with
    | stays heq => exact absurd (Option.some.inj (hc.symm.trans (heq.symm.trans hd))) hne
    | starts hold => cases hold.symm.trans hc
    | ends _ hnew => cases hnew.symm.trans hd
    | leaves t ha => exact ha
    | enters t ha => exact ha
  enters s act s' hr hok hs v c hsus hon := by
    cases turn_of_step hr hok hs v with
    | stays heq => exact absurd (heq.symm.trans hon) (hsus.2 v)
    | starts hold hnew =>
        obtain rfl := Option.some.inj (hnew.symm.trans hon)
        have hlive : (s.ctx v).isSome = true := hsus.1
        rw [hold] at hlive
        cases hlive
    | ends hold => exact ⟨_, hold⟩
    | leaves t _ hold => exact ⟨_, hold⟩
    | enters t _ hold => exact ⟨_, hold⟩
  leaves s act s' hr hok hs v c d hc hd hne := by
    cases c with
    | task t =>
        have h := ok_of_reach (fun _ _ hc => hc) hr
        have hrun : s.rt.Runs t := (h.runs t).mpr ⟨v, ctx_eq_task.mp hc⟩
        exact task_lasts hr hok hs hrun.1
    | sched w =>
        obtain rfl := ctx_eq_sched hc
        exact .inl (Option.isSome_iff_exists.mpr ⟨_, hd⟩)
  lasts s act s' hr hok hs c hsus := by
    cases c with
    | task t => exact task_lasts hr hok hs (of_decide_eq_true hsus.1)
    | sched w =>
        refine .inl ?_
        obtain ⟨c, hc⟩ := Option.isSome_iff_exists.mp hsus.1
        cases turn_of_step hr hok hs w with
        | stays heq => exact Option.isSome_iff_exists.mpr ⟨c, heq.trans hc⟩
        | starts hold => cases hold.symm.trans hc
        | ends hold => exact absurd hold (hsus.2 w)
        | leaves t _ _ hnew => exact Option.isSome_iff_exists.mpr ⟨_, hnew⟩
        | enters t _ _ hnew => exact Option.isSome_iff_exists.mpr ⟨_, hnew⟩
  stays s act s' hr hok hs c hgone := by
    cases c with
    | task t =>
        obtain ⟨hmade, hnot⟩ := hgone
        obtain ⟨hmono, hold⟩ := tasks_of_step hr hok hs t
        refine ⟨hmono hmade, fun hmem => ?_⟩
        rcases hold hmem with hmem | hfresh
        · exact hnot hmem
        · simp [hmade] at hfresh
    | sched w => exact hgone
  away s hr v c hgone hc := by
    cases c with
    | task t =>
        have h := ok_of_reach (fun _ _ hc => hc) hr
        have hrun : s.rt.Runs t := (h.runs t).mpr ⟨v, ctx_eq_task.mp hc⟩
        exact hgone.2 hrun.1
    | sched w => exact hgone
  born s act s' hr hok hs c hc := by
    obtain ⟨t, ht, rfl⟩ := List.mem_map.mp hc
    obtain ⟨hnew, hold⟩ := List.mem_filter.mp ht
    exact ⟨decide_eq_false (of_decide_eq_true hold), decide_eq_true hnew⟩

end Microthread
