import Microthread.System.Records
import Microthread.System.Trace

/-!
# A select that cannot be registered

Registration fails where a waiter cannot be allocated or the timer heap cannot
grow. Whatever prefix of the cases was linked by then, and however many of its
waiters stand in one queue, the section returns with every queue as it found it.
-/

namespace Microthread

open Foundation Rt

/-- What an aborted registration of task `t` leaves behind. -/
structure Rt.RolledBack (t : TaskId) (s s' : Rt) : Prop where
  waitq : s'.waitq = s.waitq
  selectq : s'.selectq = s.selectq
  timers : s'.timers = s.timers
  runq : s'.runq = s.runq
  count : s'.channelWaitingCount = s.channelWaitingCount
  running : (s.task t).state = .running ∧ (s'.task t).state = .running
  waiters : (s'.task t).selectWaiters = []

theorem Rt.SelectFails.rolledBack {t : TaskId} {s s' : Rt} (hf : SelectFails t s s') (h : s.Inv)
    (hr : s.Runs t) : s.RolledBack t s' := by
  obtain ⟨hinv, -, hrun⟩ := Registers.inv hf.registers h hr.1 hr.2
  have hselectq : s'.selectq = s.selectq :=
    funext fun r => Queue.Exact.ext (hinv.select.exact r) (h.select.exact r) (hf.items r)
  have hwaiters := hf.waiters
  obtain ⟨_, _, _, _, _, _, _, _, _, _, _, _, rfl⟩ := Registers.enrols hf.registers
  exact ⟨rfl, hselectq, rfl, rfl, rfl, ⟨hr.2, hrun⟩, hwaiters⟩

namespace Sys

variable {s s' : Sys} {w : Nat} {t : TaskId} {c : CallId} {cases : List SelectCase}
  {plan : SelectPlan} {env : Env}

theorem Case.rolledBack (hcase : Case s (.cont (.task w t) env) s') (h : s.Ok)
    (hpc : s.pc (.task t) = .selectReg c cases plan)
    (hret : s'.rt.log = s.rt.log ++ [.done c .neither .nomem, .ret c .nomem]) :
    s.rt.RolledBack t s'.rt := by
  have hlog : s'.rt.log ≠ s.rt.log := fun heq => by
    rw [heq] at hret
    simp at hret
  cases hcase with
  | acts _ _ _ o p es os sel hen hcall hnp hrun hos hsec hon =>
      have hr := h.runs_of_enabled hen
      rw [show (Actor.task w t).agent = .task t from rfl, hpc] at hsec
      -- a registration section does nothing but register and give up
      cases hsec with
      | idle _ tape => exact ⟨rfl, rfl, rfl, rfl, rfl, ⟨hr.2, hr.2⟩, h.rest.noWaiters t hr⟩
      | sendNot ch rc hne =>
          cases hon
          simp [setPc] at hret
      | recvNot ch rc hne =>
          cases hon
          simp [setPc] at hret
      | unselect u rc hu hru hf =>
          cases hu
          obtain ⟨hq, hsq, ht, hrq, hn, hst, hws⟩ := hf.rolledBack h.rest.inv hru
          exact ⟨hq, hsq, ht, hrq, hn, hst, hws⟩
      | release x rc hd => simp [Pc.Does] at hd
      | fd o ho hd => simp [Pc.Does, Pc.onFd] at hd
      | go rc hd => simp [Pc.Does] at hd
      | chanCreate rc hd => simp [Pc.Does] at hd
      | cancel x hd => simp [Pc.Does] at hd
      | send kind ch value rc hd => cases kind <;> simp [Pc.Does] at hd
      | recv ch out rc hd => simp [Pc.Does] at hd
      | close ch rc hd => simp [Pc.Does] at hd
      | destroy ch rc hd => simp [Pc.Does] at hd
      | unwait u rc x hd hfd => simp [Pc.Does, Pc.onFd] at hfd
  | resumesFd _ _ _ _ v use o p es hw hpark => simp [hpc] at hpark
  | returns _ _ _ _ rc sel hw hreturns =>
      rw [hpc] at hreturns
      cases hreturns
  | goesOn _ _ _ hw hpark => simp [hpc] at hpark
  | descriptors os interest filters hact => simp at hact
  | loops v q lock hact => simp at hact
  | parks _ _ _ _ p hw hl hcall hnp hparks hm =>
      rw [hpc] at hparks
      have hws := h.rest.noWaiters t ((h.runs t).mpr ⟨w, hw⟩)
      cases hparks with
      | send ch value hq => cases hq
      | recv ch out hq => cases hq
      | join x hq => cases hq
      | select cases plan hq hch hp => exact absurd (hm.log_eq.trans (hp.log_eq hws hch)) hlog
      | sleep tape timers wakeNs hperm => exact absurd hm.log_eq hlog
      | yield => exact absurd hm.log_eq hlog
      | fd timers wakeNs x use hq => simp [Pc.onFd] at hq

end Sys

/-- When the registration section of `mt_select` returns `MT_ERR_NOMEM`, wherever the
allocator or the timer heap failed, no queue, timer or counter differs from before the
section, the task is still running and it has no waiters. -/
theorem select_nomem_rolls_back {s s' : Sys} {w : Nat} {t : TaskId} {c : CallId}
    {cases : List SelectCase} {plan : SelectPlan} {env : Env} (h : machine.Reach Sys.Contract s)
    (hc : s.Contract (.cont (.task w t) env)) (hpc : s.pc (.task t) = .selectReg c cases plan)
    (hstep : machine.step s (.cont (.task w t) env) = some s')
    (hret : s'.rt.log = s.rt.log ++ [.done c .neither .nomem, .ret c .nomem]) :
    s.rt.RolledBack t s'.rt := by
  have hok := Sys.ok_of_reach (fun _ _ hc => hc) h
  obtain ⟨s₀, hp, hcase⟩ := hok.step_cases hc hstep
  have hw : s.workers w = .running t := by
    simpa [Sys.enabled] using Sys.enabled_of_step hstep
  obtain ⟨tape, rfl⟩ := hp.tick hok (w := w) (by simp [hw])
  obtain ⟨hq, hsq, ht, hrq, hn, hst, hws⟩ := hcase.rolledBack (hok.tick tape) hpc hret
  exact ⟨hq, hsq, ht, hrq, hn, hst, hws⟩

/-- Two cases on one channel, one in each direction, and a timeout. -/
def bothWays : List SelectCase :=
  [⟨.recv, some 0, some 10, 0⟩, ⟨.send, some 0, some 11, 0⟩, ⟨.timeout, none, none, 5⟩]

/-- A task is about to register a select on both ways of a channel. -/
def bothWaysTrace : List Act := List.flatten
  [invoke (.ext 0) (.chanCreate 1 0), invoke (.ext 0) (.go true 0 false),
    invoke (.ext 0) (.run 1 true) 2, works 0 3, invoke (.task 0 1) (.select bothWays) 5]

/-- Both waiters are linked and the heap cannot grow. -/
theorem select_nomem_rolls_back_timer : ∃ s s', machine.Reach Sys.Contract s ∧
    machine.step s (.cont (.task 0 1) { tape := [true, true, false] }) = some s' ∧
    s.rt.nextAddr + 2 = s'.rt.nextAddr ∧ s.rt.RolledBack 1 s'.rt := by
  obtain ⟨s, hs, hp⟩ := reach_of_promised .poll bothWaysTrace (fun s =>
      s.promised (.cont (.task 0 1) { tape := [true, true, false] }) &&
        s.pc (.task 1) == .selectReg 3 bothWays ⟨none, some 2, 5, 2⟩ &&
        (machine.step s (.cont (.task 0 1) { tape := [true, true, false] })).any fun s' =>
          s'.rt.log == s.rt.log ++ [.done 3 .neither .nomem, .ret 3 .nomem] &&
            s.rt.nextAddr + 2 == s'.rt.nextAddr)
    (by decide +kernel)
  simp only [Bool.and_eq_true, beq_iff_eq, Option.any_eq_true] at hp
  obtain ⟨⟨hprom, hpc⟩, s', hstep, hlog, hnext⟩ := hp
  exact ⟨s, s', hs, hstep, hnext, select_nomem_rolls_back hs (Sys.contract_of_promised hprom) hpc hstep
    hlog⟩

end Microthread
