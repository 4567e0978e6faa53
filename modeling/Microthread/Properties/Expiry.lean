import Microthread.Properties.Cancellation
import Microthread.Properties.Timers

/-!
# The timers in every run

The heap order of the timers outlasts every step: nothing but the operations of `timer.c`
moves a task in the heap or changes the deadline of one that is in it. So a worker that looks
at the timers wakes every task whose time has come.
-/

namespace Microthread

open Foundation Rt

variable {s s' : Rt} {t u : TaskId} {k : Task} {items : List TaskId}

/-! ## Elementary changes -/

theorem Rt.Inv.timers_nodup (h : s.Inv) : s.timers.items.Nodup := h.task.placed.nodup .timers

theorem Rt.Inv.mem_timers (h : s.Inv) (ht : t ∈ s.timers.items) :
    t ∈ s.allTasks ∧ (s.task t).slot = some .timers := (h.task.placed.mem .timers t).mp ht

theorem Rt.Inv.not_timer_of_state (h : s.Inv) {st : TaskState} (hs : (s.task t).state = st)
    (hst : st ≠ .waitingFd) (hst' : st ≠ .waitingSelect) (hst'' : st ≠ .sleeping) :
    t ∉ s.timers.items := fun hmem => by
  have hslot := (h.mem_timers hmem).2
  cases st with
  | waitingFd => exact hst rfl
  | waitingSelect => exact hst' rfl
  | sleeping => exact hst'' rfl
  | _ => simp [Task.slot, hs] at hslot

namespace Rt.Heaped

theorem of_nil (h : s.timers.items = []) : s.Heaped := by
  intro j _ x hx
  simp [h] at hx

theorem keep (h : s.Heaped) (ht : s'.timers = s.timers)
    (hk : ∀ u ∈ s.timers.items, s'.timerKey u = s.timerKey u) : s'.Heaped := by
  unfold Heaped
  rw [ht]
  exact Heap.Ordered.congr h hk

theorem same (h : s.Heaped) (ht : s'.timers = s.timers) (hs : s'.task = s.task) : s'.Heaped :=
  h.keep ht fun u _ => by rw [timerKey, timerKey, hs]

/-- A record that keeps its deadline and its number. -/
theorem update (h : s.Heaped) (ht : s'.timers = s.timers)
    (hs : s'.task = Function.update s.task t k) (hw : k.wakeNs = (s.task t).wakeNs)
    (hn : k.timerSeq = (s.task t).timerSeq) : s'.Heaped :=
  h.keep ht fun _ _ => congrFun (timerKey_of_update hs hw hn) _

/-- The record of a task without a timer. -/
theorem outside (h : s.Heaped) (ht : s'.timers = s.timers) (hmem : t ∉ s.timers.items)
    (hs : ∀ u, u ≠ t → s'.task u = s.task u) : s'.Heaped :=
  h.keep ht fun u hu => by rw [timerKey, timerKey, hs u (ne_of_mem_of_not_mem hu hmem)]

theorem disarm (h : s.Heaped) (hi : s.Inv) (hp : s.Disarms t items) (ht : s'.timers.items = items)
    (hs : ∀ u, u ≠ t → s'.task u = s.task u) : s'.Heaped := by
  have hnot := (List.nodup_cons.mp (hp.perm.nodup_iff.mp hi.timers_nodup)).1
  unfold Heaped
  rw [ht]
  refine Heap.Ordered.congr (hp.ordered h) fun u hu => ?_
  rw [timerKey, timerKey, hs u (ne_of_mem_of_not_mem hu hnot)]

theorem arm (h : s.Heaped) {timers : Timers} {wakeNs : Nat} (hmem : t ∉ s.timers.items)
    (hp : s.Arms t timers wakeNs) (ht : s'.timers = timers)
    (hs : s'.task = Function.update s.task t k) (hw : k.wakeNs = wakeNs)
    (hn : k.timerSeq = s.timers.nextSeq) : s'.Heaped := by
  unfold Heaped
  rw [ht]
  refine Heap.Ordered.congr (hp.ordered hmem h) fun u _ => ?_
  rw [timerKey, hs]
  by_cases hu : u = t
  · subst hu
    rw [Function.update_self, Function.update_self, hw, hn]
  · rw [Function.update_of_ne hu, Function.update_of_ne hu, timerKey]

theorem wakeSelect (h : s.Heaped) (hi : s.Inv) (hp : s.TimersAfter t items) (role : Role) (rc : Rc)
    (index : Nat) : (s.wakeSelect t items role rc index).Heaped := by
  unfold TimersAfter at hp
  split at hp
  · exact h.disarm hi hp rfl fun u hu => Function.update_of_ne hu _ _
  · next hin =>
      subst hp
      exact h.update rfl rfl (by simp [hin]) rfl

theorem wakeFd (h : s.Heaped) (hi : s.Inv) {w : FdWaiterId} (hp : s.Disarms (s.fdw w).task items)
    (rc : Rc) (ready : Nat) : (s.wakeFd w items rc ready).Heaped :=
  h.disarm hi hp rfl fun _ hu => Function.update_of_ne hu _ _

end Rt.Heaped

theorem Drain.heaped {ch : ChanId} (hd : Drain ch s s') (h : s.Heaped) (hi : s.Inv) :
    s'.Heaped := by
  cases hd with
  | task r t => exact h.update rfl rfl rfl rfl
  | select r w items _ _ _ _ htimers => exact h.wakeSelect hi htimers _ _ _

theorem Shift.heaped (hm : Shift s s') (h : s.Heaped) (hi : s.Inv) : s'.Heaped := by
  cases hm with
  | drain hd => exact hd.heaped h hi
  | timeout t items _ _ hin hp =>
      exact h.wakeSelect hi (by simpa [TimersAfter, hin] using hp) _ _ _
  | wakeJoin x t => exact h.update rfl rfl rfl rfl
  | wakeSleep t items _ _ hp => exact h.disarm hi hp rfl fun u hu => Function.update_of_ne hu _ _
  | wakeFd w items rc ready _ _ hp => exact h.wakeFd hi hp rc ready
  | wasteTask k nextId =>
      refine h.keep rfl fun u hu => ?_
      have hne : u ≠ s.nextAddr := (hi.heap.task_lt (hi.mem_timers hu).1).ne
      simp [timerKey, Rt.wasteTask, hne]
  | _ => exact h.same rfl rfl

theorem Move.heaped (hm : Move s s') (h : s.Heaped) (hi : s.Inv) : s'.Heaped := by
  cases hm with
  | shift hm => exact hm.heaped h hi
  | deliver r t => exact h.update rfl rfl rfl rfl
  | deliverSelect r w items _ _ hp => exact h.wakeSelect hi hp _ _ _
  | _ => exact h.same rfl rfl

theorem Moves.heaped (hm : Moves s s') (h : s.Heaped) (hi : s.Inv) : s'.Heaped := by
  induction hm with
  | refl => exact h
  | tail hpre hm ih => exact hm.heaped ih (Moves.inv hpre hi)

theorem Shifts.heaped (hm : Shifts s s') (h : s.Heaped) (hi : s.Inv) : s'.Heaped :=
  Moves.heaped (Shifts.moves hm) h hi

theorem Rt.Created.heaped (hc : Created s s') (h : s.Heaped) (hi : s.Inv) : s'.Heaped := by
  have fresh : ∀ {n : TaskId} {k : Task}, n ∉ s.allTasks → s'.timers = s.timers →
      s'.task = Function.update s.task n k → s'.Heaped := fun hn ht hs =>
    h.outside ht (fun hmem => hn (hi.mem_timers hmem).1) fun u hu => by
      rw [hs, Function.update_of_ne hu]
  cases hc with
  | no a hs => exact Shifts.heaped (Wastes.shifts hs) h hi
  | task tape => exact fresh (hi.fresh_task (le_refl _)) rfl rfl
  | handle tape => exact fresh (hi.fresh_task (Nat.le_succ _)) rfl rfl
  | chan tape elemSize capacity => exact h.same rfl rfl

theorem Buries.heaped (hb : Buries t s s') (h : s.Heaped) (hi : s.Inv) : s'.Heaped := by
  obtain ⟨hm, ht, hd, -⟩ := hb
  replace hm := HandleShifts.shifts hm
  refine (Shifts.heaped hm h hi).outside ?_ ?_ fun u hu => reap_task_of_ne _ hu
  · unfold Rt.reap
    split <;> rfl
  · exact (Shifts.inv hm hi).not_timer_of_state hd (by simp) (by simp) (by simp)

theorem Cancels.heaped (hc : Cancels t s s') (h : s.Heaped) (hi : s.Inv) : s'.Heaped := by
  cases hc with
  | nothing => exact h
  | sleep items _ _ hp => exact h.disarm hi hp rfl fun u hu => Function.update_of_ne hu _ _
  | chan r => exact h.update rfl rfl rfl rfl
  | select items _ _ hp => exact h.wakeSelect hi hp _ _ _
  | fd w items _ _ htask hp =>
      refine h.disarm hi hp rfl fun u hu => Function.update_of_ne ?_ _ _
      exact fun heq => hu (heq.trans htask)
  | join x => exact h.update rfl rfl rfl rfl
  | destroy ht hs hb => exact hb.heaped (h.update rfl rfl rfl rfl) (hi.killReady ht hs)

theorem Registers.heaped (hr : Registers t s s') (h : s.Heaped) : s'.Heaped := by
  obtain ⟨_, _, _, _, _, _, _, _, _, _, _, _, rfl⟩ := Registers.enrols hr
  exact h.update rfl rfl rfl rfl

/-! ## Sections and parking -/

theorem Rt.CancelCall.heaped {x : HandleId} (hc : CancelCall s x s') (h : s.Heaped) (hi : s.Inv) :
    s'.Heaped := by
  cases hc with
  | late => exact Shifts.heaped (.single (.request x)) h hi
  | wake t a _ hcomp _ hcancel =>
      exact hcancel.heaped (Shifts.heaped (reported_shifts hcomp) h hi)
        (Shifts.inv (reported_shifts hcomp) hi)

theorem Rt.Section.heaped {does : Op → Prop} {c : CallId} {o : Option (Role × Rc)}
    (hs : Section does c s o s') (h : s.Heaped) (hi : s.Inv) : s'.Heaped := by
  cases hs with
  | idle o tape => exact h.same rfl rfl
  | release x rc _ hr => exact Shifts.heaped (.single hr.shift) h hi
  | fd o _ _ ho => exact Shifts.heaped (ho.shifts hi) h hi
  | go rc _ _ hc => exact hc.heaped h hi
  | chanCreate rc _ _ hc => exact hc.created.heaped h hi
  | cancel x _ hc => exact hc.heaped h hi
  | send kind ch value rc _ _ hsend => exact Moves.heaped hsend.moves h hi
  | sendNot => exact h
  | recv ch out rc _ _ hrecv => exact Moves.heaped hrecv.moves h hi
  | recvNot => exact h
  | close ch rc _ _ hc => exact Moves.heaped hc.moves h hi
  | destroy ch rc _ hl hd => exact Moves.heaped (hd.moves hl.1) h hi
  | unselect t rc _ _ hf => exact Registers.heaped hf.registers h
  | unwait t rc x _ _ _ hq =>
      obtain ⟨gens, polling, interest, filters, tape, rfl⟩ := hq
      exact h.update rfl rfl rfl rfl

theorem Parks.heaped {c : CallId} {q p : Pc} (hp : Parks t c q s p s') (h : s.Heaped)
    (hrest : s.Rest) (hr : s.Runs t) : s'.Heaped := by
  have hnot : t ∉ s.timers.items :=
    hrest.inv.not_timer_of_state hr.2 (by simp) (by simp) (by simp)
  cases hp with
  | send | recv | join | yield => exact h.update rfl rfl rfl rfl
  | select cases plan _ hch hp =>
      have hreg := enrolled_registers (hrest.noWaiters t hr) hch plan
      cases hp with
      | untimed tape hi => exact (Registers.heaped (hreg tape) h).update rfl rfl rfl rfl
      | timed tape timers wakeNs i hi hperm =>
          have henr := hreg tape
          generalize s.enrolled t cases plan tape = a at henr
          obtain ⟨_, _, _, _, _, _, _, _, _, _, _, _, rfl⟩ := Registers.enrols henr
          exact (Registers.heaped henr h).arm hnot
            (hperm.congr (timerKey_of_update rfl rfl rfl) rfl) rfl rfl rfl rfl
  | sleep tape timers wakeNs hperm => exact h.arm hnot hperm rfl rfl rfl rfl
  | fd timers wakeNs x use _ hq hfd hperm =>
      obtain ⟨gens, polling, interest, filters, tape, rfl⟩ := hq
      exact h.arm hnot hperm rfl rfl rfl rfl

namespace Sys

variable {s s' : Sys} {v : Nat} {env : Env}

theorem Case.heaped {act : Act} (hc : Case s act s') (h : s.Ok) (hk : s.rt.Heaped) :
    s'.rt.Heaped := by
  have hi := h.rest.inv
  cases hc with
  | calls a call hen hpc =>
      cases a with
      | ext n => exact hk.same rfl rfl
      | task w t => exact hk.update rfl rfl rfl rfl
  | acts a env c o p es os sel hen hc hp hr _ hs hon => exact (hs.heaped hk hi).same rfl rfl
  | resumesFd w t env c v use o p es hw hpc ho hon => exact hk.update rfl rfl rfl rfl
  | parks w t env c p hw hl hcall hnp hp hm =>
      have hr : s.rt.Runs t := (h.runs t).mpr ⟨w, hw⟩
      have hpark := hp.heaped hk h.rest hr
      have hinv := (hp.parked h.rest hr).inv
      exact Shifts.heaped hm.shifts (hpark.same rfl rfl) hinv.leave
  | finishes w t hw hl hpc hb =>
      have hr : s.rt.Runs t := (h.runs t).mpr ⟨w, hw⟩
      exact hb.heaped (hk.update rfl rfl rfl rfl)
        (hi.leave.die hr.1 hr.2 (h.rest.noWaiters t hr))
  | shutsDown n env c hpc hinit hr halone hd => exact .of_nil hd.off.timers
  | halts n env c hpc hr hm =>
      have hinv : s.rt.halt.Inv := hi.congr (by constructor <;> rfl) rfl rfl rfl rfl
      exact (Shifts.heaped (FdShifts.shifts hm) (hk.same rfl rfl) hinv).same rfl rfl
  | loops w q lock _ hl hm => exact Shifts.heaped (Ticks.shifts hm) hk hi
  | dispatches w env t q hw hl hq hm =>
      exact Shifts.heaped hm.shifts (hk.update rfl rfl rfl rfl) (h.rest.dispatch hq).1.inv
  | _ => exact hk.same rfl rfl

/-- In every reachable state the timers are in order. -/
theorem heaped_of_reach (h : machine.Reach Contract s) : s.rt.Heaped := by
  refine invariant_of_cases (C := fun _ _ => True) (fun kind => .of_nil rfl)
    (fun s s₀ hok hp hk => ?_) (fun _ _ _ _ _ _ => trivial)
    (fun s a s' hok hk _ hc => hc.heaped hok hk) (h.mono fun _ _ hc => ⟨hc, trivial⟩)
  rcases hp.cases hok with ⟨tape, rfl⟩ | ⟨-, -, rt, hb, rfl⟩
  · exact hk.same rfl rfl
  · exact .of_nil hb.off.timers

/-- A worker at the head of its loop makes a pass over the timers, unless the runtime stops. -/
theorem top_passes (hv : s.workers v = .top) (hstop : s.rt.stopping = false)
    (hs : s.step (.worker v env) = some s') :
    s'.rt.task = ((s.tick env.tape).rt.wakeExpiredTimers env.nowNs).task ∧
      s'.rt.timers = ((s.tick env.tape).rt.wakeExpiredTimers env.nowNs).timers := by
  change (s.tick env.tape).workerStep v env = some s' at hs
  have hv' : (s.tick env.tape).workers v = .top := hv
  have hstop' : (s.tick env.tape).rt.stopping = false := hstop
  simp only [workerStep, hv'] at hs
  split at hs
  · cases hs
    simp only [workerTop, hstop', Bool.false_and, Bool.false_eq_true, if_false, workerPoll]
    split
    · split <;> exact ⟨rfl, rfl⟩
    · exact ⟨rfl, rfl⟩
  · cases hs

/-- Such a pass wakes every task whose time has come. -/
theorem due_expires (h : machine.Reach Contract s) (hv : s.workers v = .top)
    (hstop : s.rt.stopping = false) (hs : s.step (.worker v env) = some s')
    (ht : t ∈ s.rt.timers.items) (hdue : (s.rt.task t).wakeNs ≤ env.nowNs) :
    s'.rt.task t = expiredTask (s.rt.task t) := by
  have hok := ok_of_reach (fun _ _ hc => hc) h
  have hheap : (s.tick env.tape).rt.Heaped := (heaped_of_reach h).same rfl rfl
  obtain ⟨woken, hx⟩ := expires_of_ordered (hok.tick env.tape).rest.inv hheap env.nowNs
    (le_refl _)
  obtain ⟨htask, -⟩ := top_passes hv hstop hs
  rw [htask]
  rcases List.mem_append.mp (hx.split.mem_iff.mp ht) with hmem | hmem
  · exact hx.ready t hmem
  · exact absurd (hx.later t hmem) (Nat.not_lt.mpr hdue)

end Sys

end Microthread
