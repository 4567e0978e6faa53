import Mathlib.Algebra.Order.Floor.Div
import Microthread.Properties.Waits
import Microthread.System.Answers

/-!
# Deadlines

A deadline is a reading of the clock plus a timeout, cut off at the largest 64-bit number.
What is left until a deadline is rounded up to milliseconds. The rounding adds a millisecond
less one nanosecond first, and the sum wraps if the deadline is almost the whole range of
the clock away; what is left is then 0. As long as no sum wraps, a read, a write or an
accept times out only after the clock has reached its deadline.
-/

namespace Microthread

open Foundation Rt

/-! ## The arithmetic -/

section Arithmetic

variable {deadlineNs nowNs timeoutMs : Nat}

/-- A deadline is exact, or the largest number that there is. -/
theorem deadlineFromTimeout_eq (hnow : nowNs < 2 ^ 64) :
    deadlineFromTimeout nowNs timeoutMs = min (nowNs + timeoutMs * nsPerMs) uint64Max := by
  simp only [deadlineFromTimeout]
  by_cases hlong : timeoutMs > uint64Max / nsPerMs
  · rw [if_pos hlong]
    split
    all_goals simp only [uint64Max, nsPerMs] at *
    all_goals omega
  · rw [if_neg hlong]
    split
    all_goals simp only [uint64Max, nsPerMs] at *
    all_goals omega

/-- What is left until the deadline, in milliseconds: nothing once it has come, and the
exact ceiling before. -/
def ExactLeft (deadlineNs nowNs leftMs : Nat) : Prop :=
  (leftMs = 0 ↔ deadlineNs ≤ nowNs) ∧
    (nowNs < deadlineNs → leftMs = (deadlineNs - nowNs) ⌈/⌉ nsPerMs)

/-- The sum by which the rest is rounded up fits into 64 bits. -/
def LeftFits (deadlineNs nowNs : Nat) : Prop := deadlineNs - nowNs ≤ 2 ^ 64 - nsPerMs

instance : Decidable (LeftFits deadlineNs nowNs) := inferInstanceAs (Decidable (_ ≤ _))

theorem LeftFits.left_eq (h : LeftFits deadlineNs nowNs) (hlt : nowNs < deadlineNs) :
    timeoutLeftMs deadlineNs nowNs = (deadlineNs - nowNs) ⌈/⌉ nsPerMs := by
  have hsum : deadlineNs - nowNs + nsPerMs - 1 < 2 ^ 64 := by
    simp only [LeftFits, nsPerMs] at h ⊢
    omega
  rw [timeoutLeftMs, if_neg (Nat.not_le.mpr hlt), Nat.mod_eq_of_lt hsum, Nat.ceilDiv_eq_add_pred_div]

/-- Where the sum wraps, nothing seems to be left. -/
theorem left_eq_zero (h : ¬LeftFits deadlineNs nowNs) (hd : deadlineNs < 2 ^ 64) :
    timeoutLeftMs deadlineNs nowNs = 0 := by
  simp only [LeftFits, nsPerMs] at h
  simp only [timeoutLeftMs, nsPerMs]
  split
  · rfl
  · omega

theorem LeftFits.exact (h : LeftFits deadlineNs nowNs) :
    ExactLeft deadlineNs nowNs (timeoutLeftMs deadlineNs nowNs) := by
  refine ⟨⟨fun hzero => ?_, fun hle => if_pos hle⟩, h.left_eq⟩
  by_contra hlt
  rw [h.left_eq (Nat.lt_of_not_le hlt), Nat.ceilDiv_eq_add_pred_div] at hzero
  simp only [nsPerMs] at hzero
  omega

/-- A wait for what is left ends no sooner than the deadline. -/
theorem LeftFits.rearmed {laterNs : Nat} (h : LeftFits deadlineNs nowNs) (hd : deadlineNs < 2 ^ 64)
    (hle : nowNs ≤ laterNs) (hlater : laterNs < 2 ^ 64) :
    deadlineNs ≤ deadlineFromTimeout laterNs (timeoutLeftMs deadlineNs nowNs) := by
  rw [deadlineFromTimeout_eq hlater]
  by_cases hlt : nowNs < deadlineNs
  · rw [h.left_eq hlt, Nat.ceilDiv_eq_add_pred_div]
    simp only [nsPerMs, uint64Max]
    omega
  · simp only [uint64Max]
    omega

/-- What is left is exact, and a wait for it is long enough, exactly if the sum fits. -/
theorem left_exact_iff (hd : deadlineNs < 2 ^ 64) (hnow : nowNs < 2 ^ 64) :
    (ExactLeft deadlineNs nowNs (timeoutLeftMs deadlineNs nowNs) ∧
      deadlineNs ≤ deadlineFromTimeout nowNs (timeoutLeftMs deadlineNs nowNs)) ↔
      LeftFits deadlineNs nowNs := by
  refine ⟨fun hexact => ?_, fun h => ⟨h.exact, h.rearmed hd le_rfl hnow⟩⟩
  by_contra h
  have hle := hexact.1.1.mp (left_eq_zero h hd)
  simp only [LeftFits, nsPerMs] at h
  omega

/-- The poll timeout of an idle worker is cut off at 10 ms, and else exact where the sum
fits. -/
theorem pollTimeout_exact_iff {wakeNs : Nat} (hw : wakeNs < 2 ^ 64) :
    Sys.pollTimeoutMs (some wakeNs) nowNs =
      (if wakeNs ≤ nowNs then 0 else min ((wakeNs - nowNs) ⌈/⌉ nsPerMs) 10) ↔
      LeftFits wakeNs nowNs := by
  simp only [Sys.pollTimeoutMs, LeftFits, Nat.ceilDiv_eq_add_pred_div]
  by_cases hle : wakeNs ≤ nowNs
  · rw [if_pos hle, if_pos hle]
    exact iff_of_true rfl (by omega)
  · rw [if_neg hle, if_neg hle]
    by_cases hshort : (wakeNs - nowNs + nsPerMs - 1) % 2 ^ 64 / nsPerMs < 10
    · rw [if_pos hshort]
      simp only [nsPerMs] at hshort ⊢
      omega
    · rw [if_neg hshort]
      simp only [nsPerMs] at hshort ⊢
      omega

end Arithmetic

/-! ## Arming the timer -/

namespace Rt

variable {s : Rt} {t : TaskId} {nowNs timeoutMs : Nat}

theorem timerPushState_wakes (s : Rt) (t : TaskId) (deadlineNs : Nat) (state : TaskState)
    (h : (s.timerPushState t deadlineNs state).1 = .ok) :
    ((s.timerPushState t deadlineNs state).2.task t).wakeNs = deadlineNs ∧
      ((s.timerPushState t deadlineNs state).2.task t).state = state := by
  rcases s.timerPushState_eq t deadlineNs state with ⟨timers, tape, -, heq⟩ | ⟨tape, heq⟩
  · rw [heq]
    simp
  · rw [heq] at h
    cases h

/-- A sleep lasts until its deadline. -/
theorem sleepMs_wakes (hms : timeoutMs ≠ 0) (h : (s.sleepMs t timeoutMs nowNs).1 = .park) :
    ((s.sleepMs t timeoutMs nowNs).2.task t).wakeNs = deadlineFromTimeout nowNs timeoutMs := by
  simp only [sleepMs, if_neg hms, timerPush] at h ⊢
  have hwakes := s.timerPushState_wakes t (deadlineFromTimeout nowNs timeoutMs) .sleeping
  generalize s.timerPushState t (deadlineFromTimeout nowNs timeoutMs) .sleeping = r at h hwakes
  obtain ⟨rc, a⟩ := r
  cases rc with
  | ok => exact (hwakes rfl).1
  | _ => cases h

theorem taskBlockOnSelect_wakeNs (s : Rt) (t : TaskId) :
    ((s.taskBlockOnSelect t).task t).wakeNs = (s.task t).wakeNs := by
  simp only [taskBlockOnSelect]
  split <;> simp [modTask]

/-- A select with a timeout waits until its deadline. -/
theorem selectPark_wakes {p : SelectPlan} (hp : p.timeoutIndex.isSome = true)
    (h : (s.selectPark t p nowNs).1 = .park) :
    ((s.selectPark t p nowNs).2.task t).wakeNs = deadlineFromTimeout nowNs p.timeoutMs := by
  obtain ⟨i, hi⟩ := Option.isSome_iff_exists.mp hp
  simp only [selectPark, hi] at h ⊢
  generalize (s.modTask t fun k => { k with selectIndex := i }) = a at h ⊢
  have hwakes := a.timerPushState_wakes t (deadlineFromTimeout nowNs p.timeoutMs) .waitingSelect
  generalize a.timerPushState t (deadlineFromTimeout nowNs p.timeoutMs) .waitingSelect = r
    at h hwakes
  obtain ⟨rc, b⟩ := r
  cases rc with
  | ok =>
      refine (taskBlockOnSelect_wakeNs _ t).trans ?_
      rw [← (hwakes rfl).1]
      simp [modTask]
  | _ => cases h

theorem registerError_ne_timeout (s : Rt) : s.registerError.1 ≠ .timeout := by
  unfold registerError
  split <;> simp

theorem fdWaiterAdd_ne_timeout (s : Rt) (w : FdWaiterId) : (s.fdWaiterAdd w).1 ≠ .timeout := by
  have hadd : (s.ioBackendAdd w).1 ≠ .timeout := by
    unfold ioBackendAdd
    split
    · simp only [epollBackendAdd]
      split
      · simp
      · exact registerError_ne_timeout _
    · simp only [kqueueBackendAdd]
      split
      · simp
      · exact registerError_ne_timeout _
    · simp
  unfold fdWaiterAdd
  split
  · simp
  · next rc a _ heq => simpa [heq] using hadd

/-- A descriptor wait that parks waits until its deadline, and never answers with a timeout
at once. -/
theorem fdWaitRegister_wakes (s : Rt) (t : TaskId) (w : FdWaiterId) (timeoutMs nowNs : Nat) :
    (s.fdWaitRegister t w timeoutMs nowNs).1 ≠ .ret .timeout ∧
      ((s.fdWaitRegister t w timeoutMs nowNs).1 = .park →
        ((s.fdWaitRegister t w timeoutMs nowNs).2.task t).wakeNs =
            deadlineFromTimeout nowNs timeoutMs ∧
          ((s.fdWaitRegister t w timeoutMs nowNs).2.task t).state = .waitingFd) := by
  unfold fdWaitRegister
  have hadd := s.fdWaiterAdd_ne_timeout w
  generalize s.fdWaiterAdd w = r at hadd
  obtain ⟨rc, a⟩ := r
  cases rc with
  | ok =>
      simp only
      have hwakes := a.timerPushState_wakes t (deadlineFromTimeout nowNs timeoutMs) .waitingFd
      generalize a.timerPushState t (deadlineFromTimeout nowNs timeoutMs) .waitingFd = q at hwakes
      obtain ⟨rc, b⟩ := q
      cases rc with
      | ok => simpa [modTask] using hwakes
      | _ => simp
  | timeout => exact absurd rfl hadd
  | _ => simp

theorem fdWaitPark_wakes (s : Rt) (t : TaskId) (fd events timeoutMs nowNs : Nat)
    (inst : Option Nat) :
    (s.fdWaitPark t fd events timeoutMs nowNs inst).1 ≠ .ret .timeout ∧
      ((s.fdWaitPark t fd events timeoutMs nowNs inst).1 = .park →
        ((s.fdWaitPark t fd events timeoutMs nowNs inst).2.task t).wakeNs =
            deadlineFromTimeout nowNs timeoutMs ∧
          ((s.fdWaitPark t fd events timeoutMs nowNs inst).2.task t).state = .waitingFd) := by
  unfold fdWaitPark
  split
  · simp
  · exact fdWaitRegister_wakes ..

theorem handleSetStatus_task (s : Rt) (t : TaskId) (st : TaskStatus) :
    (s.handleSetStatus t st).task = s.task := by
  unfold handleSetStatus
  split
  · rfl
  · simp only
    split <;> rfl

/-- The first section of `mt_fd_wait` times out at once only if there is no time at all, and a
task that it parks waits until the deadline. -/
theorem fdWait_wakes (s : Rt) (t : TaskId) (fd events timeoutMs nowNs : Nat) (poll : PollResult)
    (inst : Option Nat) :
    ((s.fdWait t fd events timeoutMs nowNs poll inst).1 = .ret .timeout → timeoutMs = 0) ∧
      ((s.fdWait t fd events timeoutMs nowNs poll inst).1 = .park →
        ((s.fdWait t fd events timeoutMs nowNs poll inst).2.2.task t).wakeNs =
            deadlineFromTimeout nowNs timeoutMs ∧
          ((s.fdWait t fd events timeoutMs nowNs poll inst).2.2.task t).state = .waitingFd) := by
  unfold fdWait
  split
  · simp
  split
  · simp
  split
  · next ebadf => cases ebadf <;> simp
  split
  · split <;> simp
  split
  · next hzero => simp [hzero]
  have hpark := s.fdWaitPark_wakes t fd events timeoutMs nowNs inst
  generalize s.fdWaitPark t fd events timeoutMs nowNs inst = q at hpark
  exact ⟨fun hret => absurd hret hpark.1, hpark.2⟩

end Rt

/-! ## Runs -/

/-- Where a call stands that has computed the deadline `endNs` and not returned since. -/
def Pc.DueBy (endNs : Nat) : Pc → Prop
  | .ioCall _ op | .ioWait _ op | .fdPark _ _ (.io op) => op.deadlineNs = endNs
  | .fdAdopt _ _ .accepted | .fdAdopting _ _ _ .accepted | .acceptDrop .. => True
  | _ => False

/-- The wait of the task lasts until `endNs` at least, or has ended before without a timeout. -/
def Task.WaitsUntil (k : Task) (endNs : Nat) : Prop :=
  (k.state = .waitingFd → endNs ≤ k.wakeNs) ∧ (k.state ≠ .waitingFd → k.fdResult ≠ .timeout)

/-- The clock shows less than `endNs` whenever it is read in the step. -/
def Act.Before (endNs : Nat) : Act → Prop
  | .cont _ env | .worker _ env => env.nowNs < endNs ∧ env.nowNs2 < endNs
  | _ => True

instance (endNs : Nat) (act : Act) : Decidable (act.Before endNs) := by
  induction act using Act.casesOn with
  | cont a env => exact inferInstanceAs (Decidable (_ ∧ _))
  | worker w env => exact inferInstanceAs (Decidable (_ ∧ _))
  | _ => exact instDecidableTrue

namespace Sys

variable {s s' : Sys} {a : Actor} {g : Agent} {c : CallId} {endNs : Nat} {act : Act}

/-- Where a call computes how long it still has to wait, the sum fits. The clock does not go
back between its two readings there. -/
def LeftFitting (s : Sys) : Act → Prop
  | .cont a env =>
    match s.pc a.agent with
    | .ioWait _ op => LeftFits op.deadlineNs env.nowNs ∧ env.nowNs ≤ env.nowNs2
    | _ => True
  | _ => True

instance (s : Sys) (act : Act) : Decidable (s.LeftFitting act) := by
  induction act using Act.casesOn with
  | cont a env =>
      dsimp only [LeftFitting]
      generalize s.pc a.agent = p
      induction p using Pc.casesOn with
      | ioWait c op => exact inferInstanceAs (Decidable (_ ∧ _))
      | _ => exact instDecidableTrue
  | _ => exact instDecidableTrue

/-- The call `c` of `g` is under way with the deadline `endNs`. -/
structure Pends (s : Sys) (g : Agent) (c : CallId) (endNs : Nat) : Prop where
  call : (s.pc g).call? = some c
  due : (s.pc g).DueBy endNs
  waits : ∀ t, g = .task t → t ∈ s.rt.allTasks → (s.pc g).parked = true →
    (s.rt.task t).WaitsUntil endNs

/-- The call `c` of `g` has not timed out. -/
def InTime (s : Sys) (g : Agent) (c : CallId) (endNs : Nat) : Prop :=
  s.Pends g c endNs ∨ ∃ role rc, Event.done c role rc ∈ s.rt.log ∧ rc ≠ .timeout

/-- An agent in a call goes on only by itself. -/
theorem Case.pc_cont (hc : Case s act s') (hcall : (s.pc g).call? = some c) :
    (∃ a env, act = .cont a env ∧ a.agent = g) ∨ s'.pc g = s.pc g := by
  have hbusy : s.pc g ≠ .user := fun hpc => by simp [hpc, Pc.call?] at hcall
  have hold : s.pc g ≠ .fresh := fun hpc => by simp [hpc, Pc.call?] at hcall
  rcases hc.pc_kept hold with ha | hpc
  · cases hc with
    | calls a call hen hpc => exact absurd (Option.some.inj ha ▸ hpc) hbusy
    | acts a env => exact .inl ⟨a, env, rfl, Option.some.inj ha⟩
    | resumesFd w t env | returns w t env | goesOn w t env | parks w t env =>
        exact .inl ⟨.task w t, env, rfl, Option.some.inj ha⟩
    | finishes w t hw hl hpc => exact absurd (Option.some.inj ha ▸ hpc) hbusy
    | runBegins n env | runPrepares n env | runFails n env | spawns n env | launches n env
    | aborts n env | runEnds n env | abortEnds n env | halts n env | shutsDown n env =>
        exact .inl ⟨.ext n, env, rfl, Option.some.inj ha⟩
    | writes | descriptors | loops => exact .inr rfl
    | _ => cases ha
  · exact .inr hpc

/-! ### The own steps of the call -/

theorem inTime_ret (b : Sys) {role : Role} {rc : Rc} {rt : Rt} (hrc : rc ≠ .timeout) :
    (b.ret a c role rc rt).InTime a.agent c endNs :=
  .inr ⟨role, rc, by simp [Sys.ret, Sys.setPc, Rt.record], hrc⟩

theorem inTime_goes (b : Sys) {p : Pc} (hcall : p.call? = some c) (hdue : p.DueBy endNs)
    (hp : p.parked = false) : (b.setPc a.agent p).InTime a.agent c endNs := by
  have hself : (b.setPc a.agent p).pc a.agent = p := Function.update_self ..
  refine .inl ⟨by rw [hself]; exact hcall, by rw [hself]; exact hdue, fun t _ _ hpark => ?_⟩
  rw [hself, hp] at hpark
  cases hpark

theorem result_ne_timeout {op : IoOp} {rc : Rc} (h : rc ≠ .timeout) : op.result rc ≠ .timeout := by
  unfold IoOp.result
  split
  · simp
  · exact h

theorem inTime_waitReturn (b : Sys) {op : IoOp} {rc : Rc} {rt : Rt} (hrc : rc ≠ .timeout)
    (hop : op.deadlineNs = endNs) :
    (b.waitReturn a c rc rt (.io op)).InTime a.agent c endNs := by
  unfold waitReturn
  split
  · next heq => cases heq
  · next heq =>
      cases heq
      split
      · exact inTime_goes _ rfl hop rfl
      · exact inTime_ret b (result_ne_timeout hrc)

theorem inTime_adoptFailed (b : Sys) {fd : Nat} {rc : Rc} {rt : Rt} :
    (b.adoptFailed a c fd rc rt .accepted).InTime a.agent c endNs :=
  inTime_goes _ rfl trivial rfl

theorem inTime_ioStep (b : Sys) {op : IoOp} {env : Env} (hop : op.deadlineNs = endNs)
    (hs : b.ioStep a c op env = some s') : s'.InTime a.agent c endNs := by
  unfold ioStep at hs
  split at hs
  · cases hs
    exact inTime_goes b rfl hop rfl
  · cases hs
    exact inTime_ret b (result_ne_timeout (by split <;> simp))
  · cases hs
    exact inTime_ret b (by simp)
  · split at hs
    · cases hs
      exact inTime_goes b rfl hop rfl
    · cases hs
      exact inTime_ret b (by simp)
  · split at hs
    · cases hs
    · cases hs
      exact inTime_goes _ rfl trivial rfl

/-- Waiting for what is left neither times out at once nor ends before the deadline. -/
theorem inTime_waitSection (b : Sys) {op : IoOp} {env : Env} (hop : op.deadlineNs = endNs)
    (hend : endNs < 2 ^ 64) (hfits : LeftFits op.deadlineNs env.nowNs)
    (hclock : env.nowNs ≤ env.nowNs2) (hnow : env.nowNs < endNs) (hnow2 : env.nowNs2 < endNs) :
    (b.waitSection a c op.fd op.events (timeoutLeftMs op.deadlineNs env.nowNs) env.nowNs2 (.io op)
      env).InTime a.agent c endNs := by
  unfold waitSection
  split
  · exact inTime_waitReturn b (by simp) hop
  · next w t =>
      have hleft : timeoutLeftMs op.deadlineNs env.nowNs ≠ 0 := fun hzero =>
        absurd (hfits.exact.1.mp hzero) (by omega)
      have hlong := hfits.rearmed (by omega) hclock (by omega)
      have hwakes := b.rt.fdWait_wakes t op.fd op.events (timeoutLeftMs op.deadlineNs env.nowNs)
        env.nowNs2 (b.pollAnswer op.fd env) (b.os.inst op.fd)
      generalize b.rt.fdWait t op.fd op.events (timeoutLeftMs op.deadlineNs env.nowNs)
        env.nowNs2 (b.pollAnswer op.fd env) (b.os.inst op.fd) = q at hwakes
      obtain ⟨o, ready, rt⟩ := q
      cases o with
      | ret rc => exact inTime_waitReturn b (fun hrc => hleft (hwakes.1 (hrc ▸ rfl))) hop
      | park =>
          obtain ⟨hwake, hstate⟩ := hwakes.2 rfl
          simp only at hwake hstate
          have hself : ∀ p, (b.switch w t rt p).pc (.task t) = p := fun p => Function.update_self ..
          have htask : (b.switch w t rt (.fdPark c ((rt.task t).fdWaiter.getD 0) (.io op))).rt.task t =
              rt.task t := by
            simp only [switch, Sys.setPc, Sys.setWorker, Rt.taskAfterSwitch, Rt.guarded, hstate]
            rw [Rt.handleSetStatus_task]
          refine .inl ⟨congrArg Pc.call? (hself _), ?_, fun u hu _ _ => ?_⟩
          · rw [Actor.agent, hself]
            exact hop
          · cases hu
            rw [htask]
            exact ⟨fun _ => by omega, fun hnot => absurd hstate hnot⟩

/-- A step of the call itself leads it on, or ends it without a timeout. -/
theorem Pends.own {env : Env} (hp : s.Pends a.agent c endNs) (h : s.Ok) (hend : endNs < 2 ^ 64)
    (hfits : s.LeftFitting (.cont a env)) (hb : (Act.cont a env).Before endNs)
    (hs : s.step (.cont a env) = some s') : s'.InTime a.agent c endNs := by
  obtain ⟨hcall, hdue, hwaits⟩ := hp
  simp only [Sys.step] at hs
  split at hs
  case isFalse => cases hs
  next hen =>
    change (s.tick env.tape).continueCall a env = some s' at hs
    simp only [Sys.continueCall] at hs
    have hpc : (s.tick env.tape).pc a.agent = s.pc a.agent := rfl
    generalize hq : s.pc a.agent = q at *
    cases q with
    | ioCall d op =>
        cases hcall
        simp only [hpc] at hs
        exact inTime_ioStep _ hdue hs
    | ioWait d op =>
        cases hcall
        simp only [hpc] at hs
        simp only [LeftFitting, hq] at hfits
        split at hs
        · cases hs
        · cases hs
          exact inTime_waitSection _ hdue hend hfits.1 hfits.2 hb.1 hb.2
    | fdAdopt d fd use =>
        cases use with
        | accepted =>
            cases hcall
            simp only [hpc] at hs
            cases hs
            unfold adoptFcntl
            split
            · exact inTime_adoptFailed _
            · split
              · exact inTime_goes _ rfl trivial rfl
              · exact inTime_adoptFailed _
        | _ => cases hdue
    | fdAdopting d fd flags use =>
        cases use with
        | accepted =>
            cases hcall
            simp only [hpc] at hs
            split at hs
            · cases hs
            · cases hs
              unfold adoptSection
              split
              · exact inTime_ret _ (by simp)
              · exact inTime_adoptFailed _
        | _ => cases hdue
    | acceptDrop d fd =>
        cases hcall
        simp only [hpc] at hs
        cases hs
        exact inTime_ret _ (by simp)
    | fdPark d w use =>
        cases use with
        | wait => cases hdue
        | io op =>
            cases hcall
            cases a with
            | ext n =>
                simp only [hpc] at hs
                cases hs
            | task v t =>
                simp only [hpc] at hs
                split at hs
                · cases hs
                · cases hs
                  have hrun := (h.runs t).mpr ⟨v, enabled_task.mp hen⟩
                  refine inTime_waitReturn _ ?_ hdue
                  exact (hwaits t rfl hrun.1 rfl).2 (by simp [hrun.2])
    | _ => cases hdue

/-! ### The steps of others -/

theorem Pc.DueBy.parked {p : Pc} (hdue : p.DueBy endNs) (hp : p.parked = true) :
    ∃ d w op, p = .fdPark d w (.io op) := by
  cases p with
  | fdPark d w use =>
      cases use with
      | wait => cases hdue
      | io op => exact ⟨d, w, op, rfl⟩
  | chanPark | selectPark | joinPark | switchPark => cases hdue
  | _ => cases hp

/-- A task in a wait for a descriptor waits, or its wait has ended. -/
theorem Fits.waits_or_awake {k : Task} {d : CallId} {w : FdWaiterId} {use : WaitUse}
    (hf : Fits k (.fdPark d w use)) (hlive : k.state ≠ .dead) :
    k.state = .waitingFd ∨ k.awake := by
  cases hs : k.state with
  | waitingFd => exact .inl rfl
  | ready => exact .inr (.inl hs)
  | running => exact .inr (.inr hs)
  | sleeping => cases hf.sleeping hs
  | waitingChan => cases hf.chan hs
  | waitingSelect => obtain ⟨_, _, hpc⟩ := hf.select hs; cases hpc
  | waitingJoin => obtain ⟨_, hpc, -⟩ := hf.join hs; cases hpc
  | dead => exact absurd hs hlive

theorem Pends.other (hp : s.Pends g c endNs) (h : s.Ok) (h' : s'.Ok) (hc : Case s act s')
    (hpc : s'.pc g = s.pc g) (hnot : ¬∃ a env, act = .cont a env ∧ a.agent = g)
    (hb : act.Before endNs) : s'.Pends g c endNs := by
  refine ⟨hpc ▸ hp.call, hpc ▸ hp.due, fun t hg ht' hpark => ?_⟩
  subst hg
  rw [hpc] at hpark
  rcases hc.recorded h ht' with ⟨ht, hstep⟩ | ⟨hmade, -⟩
  · obtain ⟨d, w, op, hat⟩ := Pc.DueBy.parked hp.due hpark
    have hwaits := hp.waits t rfl ht hpark
    have hfits := h.fits t ht
    rw [hat] at hfits
    rcases hfits.waits_or_awake fun hs => h.rest.noDead t ⟨ht, hs⟩ with hs | haw
    · rcases hc.expires h h' ht ht' hs ((hfits.fdWaiter w).mpr ⟨d, _, rfl⟩) with
        heq | ⟨rc, ready, hrc, heq⟩
      · rw [heq]
        exact hwaits
      · rw [heq]
        refine ⟨fun hready => (nomatch hready), fun _ hout => ?_⟩
        obtain ⟨v, env, rfl, hle⟩ := hrc hout
        have hlong := hwaits.1 hs
        have hearly := hb.1
        omega
    · by_cases ha : act.agent? = some (.task t)
      · rcases hc.own_parked hpark ha with ⟨v, env, rfl⟩ | ⟨-, htask, -⟩
        · exact absurd ⟨_, env, rfl, rfl⟩ hnot
        · rw [htask]
          exact hwaits
      · have hawake := hstep.awake ha haw
        refine ⟨fun hs => ?_, fun _ => ?_⟩
        · rcases hawake with hready | hrun
          · rw [hready] at hs
            cases hs
          · rw [hrun] at hs
            cases hs
        · rw [(hstep.sameResults ha haw).fdResult]
          refine hwaits.2 fun hs => ?_
          rcases haw with hready | hrun
          · rw [hready] at hs
            cases hs
          · rw [hrun] at hs
            cases hs
  · have hfresh := h.fresh t hmade
    rw [hfresh] at hpark
    cases hpark

theorem Prepared.pends {s₀ : Sys} (hp : s.Prepared s₀) (h : s.Ok) (hpends : s.Pends g c endNs) :
    s₀.Pends g c endNs := by
  rcases hp.cases h with ⟨tape, rfl⟩ | ⟨-, -, rt, hb, rfl⟩
  · exact ⟨hpends.call, hpends.due, hpends.waits⟩
  · refine ⟨hpends.call, hpends.due, fun t _ ht => ?_⟩
    have hnone : t ∈ rt.allTasks := ht
    simp [hb.off.allTasks] at hnone

/-- Before the deadline no step lets a call time out. -/
theorem InTime.step (hin : s.InTime g c endNs) (hr : machine.Reach Contract s)
    (hend : endNs < 2 ^ 64) (hok : s.Contract act) (hfits : s.LeftFitting act)
    (hb : act.Before endNs) (hs : machine.step s act = some s') : s'.InTime g c endNs := by
  have h := ok_of_reach (fun _ _ hc => hc) hr
  rcases hin with hp | ⟨role, rc, hdone, hrc⟩
  · by_cases hown : ∃ a env, act = .cont a env ∧ a.agent = g
    · obtain ⟨a, env, rfl, rfl⟩ := hown
      exact hp.own h hend hfits hb hs
    · obtain ⟨s₀, hprep, hcase⟩ := h.step_cases hok hs
      have h₀ := hprep.ok h
      have hp₀ := hprep.pends h hp
      rcases hcase.pc_cont hp₀.call with hcont | hpc
      · exact absurd hcont hown
      · exact .inl (hp₀.other h₀ (hcase.ok h₀) hcase hpc hown hb)
  · have hpath : machine.Path Contract s s' := .step .refl hok hs
    exact .inr ⟨role, rc, log_subset_of_path hr hpath hdone, hrc⟩

/-- A call that has not timed out does not return that it has. -/
theorem InTime.not_timeout (hin : s.InTime g c endNs) (hr : machine.Reach Contract s) :
    Event.ret c .timeout ∉ s.rt.log := by
  intro hret
  rcases hin with hp | ⟨role, rc, hdone, hrc⟩
  · have hopen : (s.pc g).open? = some c := by
      have hcall := hp.call
      have hdue := hp.due
      generalize s.pc g = p at hcall hdue
      cases p with
      | chanPark | selectPark | joinPark => cases hdue
      | _ => exact hcall
    obtain ⟨role, hdone⟩ := (answered_of_reach hr).returned c .timeout hret
    have hbooks := (booked_of_reach hr).books.notEnded c ⟨g, hopen⟩
    exact hbooks.1 (List.mem_filterMap.mpr ⟨_, hdone, rfl⟩)
  · exact hrc (returns_of_done hr .refl hdone hret).symm

/-- A call that has computed its deadline does not time out before the clock reaches it. -/
theorem not_timeout_of_path {op : IoOp} (hr : machine.Reach Contract s)
    (hpc : s.pc a.agent = .ioCall c op) (hend : op.deadlineNs < 2 ^ 64)
    (hp : machine.Path (Under fun s act => s.LeftFitting act ∧ act.Before op.deadlineNs) s s') :
    Event.ret c .timeout ∉ s'.rt.log := by
  have hcontract := hp.mono fun _ _ hc => hc.1
  suffices hin : s'.InTime a.agent c op.deadlineNs from hin.not_timeout (hr.path hcontract)
  induction hp with
  | refl =>
      refine .inl ⟨by rw [hpc]; rfl, by rw [hpc]; rfl, fun t _ _ hpark => ?_⟩
      rw [hpc] at hpark
      cases hpark
  | step hp hact hs ih =>
      have hpre := hp.mono fun _ _ hc => hc.1
      exact (ih hpre).step (hr.path hpre) hend hact.1 hact.2.1 hact.2.2 hs

/-- The deadline is computed when the descriptor has been adopted. -/
theorem deadline_of_adopt {env : Env} {fd flags : Nat} {op op₁ : IoOp}
    (hpc : s.pc a.agent = .fdAdopting c fd flags (.io op))
    (hs : machine.step s (.cont a env) = some s') (hpc' : s'.pc a.agent = .ioCall c op₁) :
    op₁.deadlineNs = deadlineFromTimeout env.nowNs op.timeoutMs := by
  have hself : ∀ (b : Sys) p, (b.setPc a.agent p).pc a.agent = p := fun b p =>
    Function.update_self ..
  change s.step (.cont a env) = some s' at hs
  simp only [Sys.step] at hs
  split at hs
  case isFalse => cases hs
  change (s.tick env.tape).continueCall a env = some s' at hs
  have hpc₀ : (s.tick env.tape).pc a.agent = .fdAdopting c fd flags (.io op) := hpc
  simp only [Sys.continueCall, hpc₀] at hs
  split at hs
  · cases hs
  · cases hs
    unfold adoptSection at hpc'
    split at hpc'
    · rw [adoptDone, hself] at hpc'
      cases hpc'
      rfl
    · rw [adoptFailed, ret, hself] at hpc'
      cases hpc'

end Sys

/-! ## Every deadline -/

/-- A deadline is the reading of the clock plus the timeout, or the largest number, for
descriptor operations, sleeps and selects. What is left until a deadline is its exact
ceiling, and the poll timeout of an idle worker is, exactly if the sum by which it is
rounded up fits. In every run in which these sums fit, a read, a write or an accept does not
time out while the clock has not reached the deadline it has computed. -/
theorem deadlines_exact {s : Sys} (h : machine.Reach Sys.Contract s) :
    (∀ nowNs timeoutMs, nowNs < 2 ^ 64 →
      deadlineFromTimeout nowNs timeoutMs = min (nowNs + timeoutMs * nsPerMs) uint64Max) ∧
    (∀ (r : Rt) t ms nowNs, ms ≠ 0 → nowNs < 2 ^ 64 → (r.sleepMs t ms nowNs).1 = .park →
      ((r.sleepMs t ms nowNs).2.task t).wakeNs = min (nowNs + ms * nsPerMs) uint64Max) ∧
    (∀ (r : Rt) t p nowNs, p.timeoutIndex.isSome = true → nowNs < 2 ^ 64 →
      (r.selectPark t p nowNs).1 = .park →
      ((r.selectPark t p nowNs).2.task t).wakeNs = min (nowNs + p.timeoutMs * nsPerMs) uint64Max) ∧
    (∀ deadlineNs nowNs, deadlineNs < 2 ^ 64 → nowNs < 2 ^ 64 →
      ((ExactLeft deadlineNs nowNs (timeoutLeftMs deadlineNs nowNs) ∧
        deadlineNs ≤ deadlineFromTimeout nowNs (timeoutLeftMs deadlineNs nowNs)) ↔
        LeftFits deadlineNs nowNs)) ∧
    (∀ wakeNs nowNs, wakeNs < 2 ^ 64 → (Sys.pollTimeoutMs (some wakeNs) nowNs =
      (if wakeNs ≤ nowNs then 0 else min ((wakeNs - nowNs) ⌈/⌉ nsPerMs) 10) ↔
        LeftFits wakeNs nowNs)) ∧
    ∀ (s₁ s' : Sys) a env c fd flags op op₁,
      s.pc a.agent = .fdAdopting c fd flags (.io op) → s.Contract (.cont a env) →
      machine.step s (.cont a env) = some s₁ → s₁.pc a.agent = .ioCall c op₁ →
      env.nowNs < 2 ^ 64 → op₁.deadlineNs = min (env.nowNs + op.timeoutMs * nsPerMs) uint64Max ∧
        (machine.Path
            (Sys.Under fun s act => s.LeftFitting act ∧ act.Before op₁.deadlineNs) s₁ s' →
          Event.ret c .timeout ∉ s'.rt.log) := by
  refine ⟨fun _ _ hnow => deadlineFromTimeout_eq hnow, fun r t ms nowNs hms hnow hpark => ?_,
    fun r t p nowNs hp hnow hpark => ?_, fun _ _ hd hnow => left_exact_iff hd hnow,
    fun _ _ hw => pollTimeout_exact_iff hw, ?_⟩
  · rw [sleepMs_wakes hms hpark, deadlineFromTimeout_eq hnow]
  · rw [selectPark_wakes hp hpark, deadlineFromTimeout_eq hnow]
  · intro s₁ s' a env c fd flags op op₁ hpc hok hs hpc₁ hnow
    have hdeadline := (Sys.deadline_of_adopt hpc hs hpc₁).trans (deadlineFromTimeout_eq hnow)
    refine ⟨hdeadline, Sys.not_timeout_of_path (h.step hok hs) hpc₁ ?_⟩
    rw [hdeadline, uint64Max]
    omega

/-- A task has called `mt_fd_read` and is about to adopt the descriptor. -/
def readTrace (timeoutMs : Nat) : List Act := List.flatten
  [[.osOpen (.ext 0) 5 0], invoke (.ext 0) (.go true 0 false), invoke (.ext 0) (.run 1 true) 2,
    works 0 3, invoke (.task 0 0) (.fdRead 5 8 timeoutMs)]

/-- A read with a timeout of 10 ms, called at 1 ms, waits at 2 ms for the 9 ms that are left. -/
theorem deadlines_exact_read : ∃ s₁ s' : Sys,
    s₁.pc (.task 0) = .ioCall 2 ⟨.read, 5, 8, 10, 0, 11000000⟩ ∧
    (s'.rt.task 0).state = .waitingFd ∧ (s'.rt.task 0).wakeNs = 11000001 ∧
    Event.ret 2 .timeout ∉ s'.rt.log := by
  let test : Sys → Act → Bool := fun s act =>
    s.promised act && decide (s.LeftFitting act ∧ act.Before 11000000)
  have htest : ∀ s act, test s act = true →
      s.Under (fun s act => s.LeftFitting act ∧ act.Before 11000000) act := fun s act ha => by
    simp only [test, Bool.and_eq_true, decide_eq_true_eq] at ha
    exact ⟨Sys.contract_of_promised ha.1, ha.2⟩
  obtain ⟨s, hs, hp⟩ := reach_of_promised .poll (readTrace 10) (fun s =>
      s.pc (.task 0) == .fdAdopting 2 5 0 (.io ⟨.read, 5, 8, 10, 0, 0⟩) &&
        s.promised (.cont (.task 0 0) { nowNs := 1000000 }) &&
        (machine.step s (.cont (.task 0 0) { nowNs := 1000000 })).any fun s₁ : Sys =>
          s₁.pc (.task 0) == .ioCall 2 ⟨.read, 5, 8, 10, 0, 11000000⟩ &&
          (machine.replay test s₁ [.cont (.task 0 0) {},
            .cont (.task 0 0) { nowNs := 2000000, nowNs2 := 2000001 }]).any fun s' : Sys =>
              (s'.rt.task 0).state == .waitingFd && (s'.rt.task 0).wakeNs == 11000001)
    (by decide +kernel)
  simp only [Bool.and_eq_true, beq_iff_eq, Option.any_eq_true] at hp
  obtain ⟨⟨hpc, hcon⟩, s₁, hstep, hpc₁, s', hrun, hstate, hwake⟩ := hp
  refine ⟨s₁, s', hpc₁, hstate, hwake, ?_⟩
  have hread := (deadlines_exact hs).2.2.2.2.2 s₁ s' (.task 0 0) _ 2 5 0 _ _ hpc
    (Sys.contract_of_promised hcon) hstep hpc₁ (by decide)
  exact hread.2 (Machine.Path.refl.replay htest hrun)

/-- With the largest timeout a read at time 0 finds nothing left until its deadline, the end
of time, and times out at once. -/
theorem read_times_out_early :
    ¬ExactLeft (2 ^ 64 - 1) 0 (timeoutLeftMs (2 ^ 64 - 1) 0) ∧ ∃ s s' : Sys,
      machine.Reach Sys.Contract s ∧
      s.pc (.task 0) = .ioWait 2 ⟨.read, 5, 8, 2 ^ 64 - 1, 0, 2 ^ 64 - 1⟩ ∧
      machine.step s (.cont (.task 0 0) {}) = some s' ∧ Event.ret 2 .timeout ∈ s'.rt.log := by
  obtain ⟨s, hs, hp⟩ := reach_of_promised .poll
    (readTrace (2 ^ 64 - 1) ++ [.cont (.task 0 0) {}, .cont (.task 0 0) {}]) (fun s =>
      s.pc (.task 0) == .ioWait 2 ⟨.read, 5, 8, 2 ^ 64 - 1, 0, 2 ^ 64 - 1⟩ &&
        (machine.step s (.cont (.task 0 0) {})).any fun s' : Sys =>
          s'.rt.log.contains (.ret 2 .timeout))
    (by decide +kernel)
  simp only [Bool.and_eq_true, beq_iff_eq, Option.any_eq_true, List.contains_eq_mem,
    decide_eq_true_eq] at hp
  obtain ⟨hpc, s', hstep, hlog⟩ := hp
  refine ⟨fun hexact => ?_, s, s', hs, hpc, hstep, hlog⟩
  have hle := hexact.1.mp (by decide +kernel)
  omega

end Microthread
