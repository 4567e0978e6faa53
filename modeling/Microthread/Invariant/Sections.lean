import Microthread.Invariant.Descriptors

/-!
# Complete sections

Between two locked sections the runtime is at rest: the invariant holds, running
tasks have no select waiters, no registered task is dead, and `running_tasks` is
exact. A section keeps every running task running (`Section`), takes one off its
processor (`Parks` and `Departs`, or its burial), or puts one on (`Marked` after
`dispatch`). The three kinds keep the runtime at rest and say which tasks run
afterwards.
-/

namespace Microthread

open Foundation

namespace Rt

variable {s s' : Rt} {t u : TaskId}

/-- What holds when no section is in progress. -/
structure Rest (s : Rt) : Prop where
  inv : s.Inv
  noWaiters : s.NoWaiters
  noDead : ∀ u, ¬s.Dead u
  running : s.runningTasks = s.allTasks.countP fun t => (s.task t).state = .running

/-- The record of a task is unchanged, or the task's wait has ended. -/
def Woken (s s' : Rt) (u : TaskId) : Prop :=
  s'.task u = s.task u ∨ ∃ o, (s.task u).Wake (s'.task u) o

theorem Woken.running_iff (h : Woken s s' u) :
    (s'.task u).state = .running ↔ (s.task u).state = .running := by
  rcases h with heq | ⟨o, hw⟩
  · rw [heq]
  · simp [hw.state_new, hw.state_old.2.1]

theorem Woken.dead_iff (h : Woken s s' u) :
    (s'.task u).state = .dead ↔ (s.task u).state = .dead := by
  rcases h with heq | ⟨o, hw⟩
  · rw [heq]
  · simp [hw.state_new, hw.state_old.2.2]

theorem Woken.task_eq (h : Woken s s' u) (hr : (s.task u).state = .running) :
    s'.task u = s.task u := by
  rcases h with heq | ⟨o, hw⟩
  · exact heq
  · exact absurd hr hw.state_old.2.1

theorem Effect.woken (he : Effect s s') (hu : u ∈ s.allTasks) : Woken s s' u :=
  (he.task_eq_or hu).imp_right fun ⟨o, hw, _⟩ => ⟨o, hw⟩

/-- Waking tasks leaves the runtime at rest. -/
theorem Rest.of_woken (h : s.Rest) (hinv : s'.Inv) (hall : s'.allTasks = s.allTasks)
    (hcount : s'.runningTasks = s.runningTasks) (hw : ∀ u ∈ s.allTasks, Woken s s' u) :
    s'.Rest ∧ ∀ u, s'.Runs u ↔ s.Runs u := by
  have hruns : ∀ u, s'.Runs u ↔ s.Runs u := fun u => by
    rw [Runs, Runs, hall]
    exact and_congr_right fun hu => (hw u hu).running_iff
  refine ⟨⟨hinv, fun u hu => ?_, fun u hu => ?_, ?_⟩, hruns⟩
  · have hrun := (hruns u).mp hu
    rw [(hw u hrun.1).task_eq hrun.2]
    exact h.noWaiters u hrun
  · refine h.noDead u ⟨hall ▸ hu.1, ?_⟩
    exact (hw u (hall ▸ hu.1)).dead_iff.mp hu.2
  · rw [hcount, hall, h.running]
    refine List.countP_congr fun u hu => ?_
    simp only [decide_eq_true_eq, (hw u hu).running_iff]

/-- A registered task goes, and others may be woken. -/
theorem Rest.of_removed (h : s.Rest) (hinv : s'.Inv) (ht : t ∈ s.allTasks)
    (hmem : ∀ u, u ∈ s'.allTasks ↔ u ≠ t ∧ u ∈ s.allTasks)
    (hcount : s'.runningTasks + (if (s.task t).state = .running then 1 else 0) = s.runningTasks)
    (hw : ∀ u ∈ s.allTasks, u ≠ t → Woken s s' u) :
    s'.Rest ∧ ∀ u, s'.Runs u ↔ u ≠ t ∧ s.Runs u := by
  have hruns : ∀ u, s'.Runs u ↔ u ≠ t ∧ s.Runs u := fun u => by
    rw [Runs, Runs, hmem, and_assoc]
    refine and_congr_right fun hne => and_congr_right fun hu => ?_
    exact (hw u hu hne).running_iff
  refine ⟨⟨hinv, fun u hu => ?_, fun u hu => ?_, ?_⟩, hruns⟩
  · obtain ⟨hne, hrun⟩ := (hruns u).mp hu
    rw [(hw u hrun.1 hne).task_eq hrun.2]
    exact h.noWaiters u hrun
  · obtain ⟨hne, hu'⟩ := (hmem u).mp hu.1
    exact h.noDead u ⟨hu', (hw u hu' hne).dead_iff.mp hu.2⟩
  · have hperm : s.allTasks.Perm (t :: s'.allTasks) := by
      refine (List.perm_ext_iff_of_nodup h.inv.task.nodup ?_).mpr fun u => ?_
      · exact List.nodup_cons.mpr ⟨fun hm => ((hmem t).mp hm).1 rfl, hinv.task.nodup⟩
      · rw [List.mem_cons, hmem]
        constructor
        · exact fun hu => (em (u = t)).imp_right fun hne => ⟨hne, hu⟩
        · rintro (rfl | hu)
          · exact ht
          · exact hu.2
    have hsame : s'.allTasks.countP (fun u => (s'.task u).state = .running) =
        s'.allTasks.countP fun u => (s.task u).state = .running := by
      refine List.countP_congr fun u hu => ?_
      obtain ⟨hne, hu'⟩ := (hmem u).mp hu
      simp only [decide_eq_true_eq, (hw u hu' hne).running_iff]
    have htotal := hperm.countP_eq fun u => decide ((s.task u).state = .running)
    rw [List.countP_cons] at htotal
    simp only [decide_eq_true_eq] at htotal
    have hrun := h.running
    rw [hsame]
    omega

/-! ## Sections that stop nobody -/

/-- What a section is for. -/
inductive Op where
  | go | chanCreate
  | cancel (x : HandleId)
  | release (x : HandleId)
  | send (kind : SendKind) (ch : ChanId) (value : Addr)
  | recv (ch : ChanId) (out : Addr)
  | close (ch : ChanId)
  | destroy (ch : ChanId)
  /-- a wait of the calling task has not begun -/
  | unpark (t : TaskId)
  /-- the registration of a select -/
  | select
  /-- a descriptor operation -/
  | fd
  | fdWait (fd events : Nat)
  | fdAdopt (fd flags : Nat)
  | fdRelease (fd : Nat)
  | fdClose (fd : Nat)
  /-- the mark of `mt_fd_close` is taken back -/
  | fdUnmark (fd : Nat)
  /-- the OS closes the descriptor -/
  | osClose (fd : Nat)

/-- A section of a descriptor operation that parks nobody and registers nothing. -/
inductive FdOp (does : Op → Prop) (s : Rt) : Rt → Prop where
  | tape (tape) : FdOp does s { s with tape := tape }
  | adopt (fd flags) : does (.fdAdopt fd flags) → FdOp does s (s.fdAdopt fd flags).2
  | release (fd) : does (.fdRelease fd) → FdOp does s (s.fdRelease fd).2.2
  | close (fd) : does (.fdClose fd) → FdOp does s (s.fdCloseBegin fd).2
  | unmark (fd) : does (.fdUnmark fd) → FdOp does s (s.fdCloseEnd fd)
  | forget (fd) : does (.osClose fd) → FdOp does s (s.kernelForgets fd)

theorem FdOp.shifts {does : Op → Prop} {s s' : Rt} (ho : FdOp does s s') (h : s.Inv) :
    Shifts s s' := by
  cases ho with
  | tape tape => exact .single (.quiet _ _ _ _ tape)
  | adopt fd flags => exact .single (s.fdAdopt_regen fd flags).quiet.shift
  | release fd => exact .single (s.fdRelease_regen fd).quiet.shift
  | close fd =>
      obtain ⟨a, hq, hm⟩ := h.fdCloseBegin fd
      exact .head hq.quiet.shift (FdShifts.shifts hm)
  | unmark fd => exact .single (s.fdCloseEnd_regen fd).quiet.shift
  | forget fd => exact .single (.quiet _ _ _ _ _)

/-- A locked section on behalf of call `c` that takes no task off its processor, with
the role and the result it ends the call with, if it does. The call has asked for
what `does` allows. -/
inductive Section (does : Op → Prop) (c : CallId) (s : Rt) : Option (Role × Rc) → Rt → Prop where
  | idle (o tape) : (∀ p ∈ o, p.1 = Role.neither) → Section does c s o { s with tape := tape }
  | release (x rc) {s'} : does (.release x) → Releases x s s' →
      Section does c s (some (.neither, rc)) s'
  | fd (o) {s'} : (∀ p ∈ o, p.1 = Role.neither) → does .fd → FdOp does s s' → Section does c s o s'
  | go (rc) {s'} : does .go → s.initialized = true → Created s s' →
      Section does c s (some (.neither, rc)) s'
  | chanCreate (rc) {s'} : does .chanCreate → s.initialized = true → ChanCreated s s' →
      Section does c s (some (.neither, rc)) s'
  | cancel (x) {s'} : does (.cancel x) → CancelCall s x s' →
      Section does c s (some (.neither, .ok)) s'
  | send (kind ch value rc) {s'} : does (.send kind ch value) → s.Live (.chan ch) →
      SendNow s c kind ch value rc s' → Section does c s (some (.send ch, rc)) s'
  | sendNot (ch rc) : rc ≠ .ok → Section does c s (some (.send ch, rc)) s
  | recv (ch out rc) {s'} : does (.recv ch out) → s.Live (.chan ch) → RecvNow s c ch out rc s' →
      Section does c s (some (.recv ch, rc)) s'
  | recvNot (ch rc) : rc ≠ .ok → Section does c s (some (.recv ch, rc)) s
  | close (ch rc) {s'} : does (.close ch) → s.Live (.chan ch) → Closes s ch rc s' →
      Section does c s (some (.neither, rc)) s'
  | destroy (ch rc) {s'} : does (.destroy ch) → s.Live (.chan ch) → Destroys s ch rc s' →
      Section does c s (some (.neither, rc)) s'
  | unselect (t rc) {s'} : does (.unpark t) → s.Runs t → SelectFails t s s' → does .select →
      Section does c s (some (.neither, rc)) s'
  | unwait (t rc x) {a} : does (.unpark t) → does .fd → s.Runs t → Quiet s a →
      (∃ fd events inst rc₀, does (.fdWait fd events) ∧
        FdWaits s t fd events inst (.ret rc₀) ((a.touchFd t).wasteFd x)) →
      Section does c s (some (.neither, rc)) ((a.touchFd t).wasteFd x)

end Rt

open Rt

variable {s s' : Rt} {t u : TaskId}

theorem Moves.woken (hm : Moves s s') (h : s.Inv) (hu : u ∈ s.allTasks) : Woken s s' u :=
  (hm.task_eq_or h hu).imp_right fun ⟨o, hw, _⟩ => ⟨o, hw⟩

theorem Moves.rest (hm : Moves s s') (h : s.Rest) : s'.Rest ∧ ∀ u, s'.Runs u ↔ s.Runs u := by
  refine h.of_woken (Moves.inv hm h.inv) hm.allTasks_eq ?_ fun u hu => Moves.woken hm h.inv hu
  have := hm.control_eq
  simp only [Rt.control, Prod.mk.injEq] at this
  exact this.2.2.2.2.2.2

theorem Shifts.rest (hm : Shifts s s') (h : s.Rest) : s'.Rest ∧ ∀ u, s'.Runs u ↔ s.Runs u :=
  Moves.rest (Shifts.moves hm) h

theorem Rt.Rest.tape (h : s.Rest) (tape : List Bool) : ({ s with tape := tape } : Rt).Rest :=
  (Shifts.rest (.single (.quiet _ _ _ _ tape)) h).1

/-- A task that did not exist before is ready. -/
theorem Rt.Rest.of_spawned {n : TaskId} {k : Task} (h : s.Rest) (hinv : s'.Inv)
    (hn : n ∉ s.allTasks) (hall : s'.allTasks = n :: s.allTasks)
    (htask : s'.task = Function.update s.task n k) (hk : k.state = .ready)
    (hcount : s'.runningTasks = s.runningTasks) :
    s'.Rest ∧ ∀ u, s'.Runs u ↔ s.Runs u := by
  have hnew : (s'.task n).state = .ready := by simp [htask, hk]
  have hold : ∀ u ∈ s.allTasks, s'.task u = s.task u := fun u hu => by
    rw [htask, Function.update_of_ne (ne_of_mem_of_not_mem hu hn)]
  have hruns : ∀ u, s'.Runs u ↔ s.Runs u := fun u => by
    rw [Runs, Runs, hall, List.mem_cons]
    constructor
    · rintro ⟨rfl | hu, hr⟩
      · simp [hnew] at hr
      · exact ⟨hu, hold u hu ▸ hr⟩
    · rintro ⟨hu, hr⟩
      exact ⟨.inr hu, (hold u hu).symm ▸ hr⟩
  refine ⟨⟨hinv, fun u hu => ?_, fun u hu => ?_, ?_⟩, hruns⟩
  · have hrun := (hruns u).mp hu
    rw [hold u hrun.1]
    exact h.noWaiters u hrun
  · obtain ⟨hu, hd⟩ := hu
    rw [hall, List.mem_cons] at hu
    rcases hu with rfl | hu
    · simp [hnew] at hd
    · exact h.noDead u ⟨hu, hold u hu ▸ hd⟩
  · rw [hcount, h.running, hall, List.countP_cons_of_neg (by simp [hnew])]
    exact List.countP_congr fun u hu => by rw [hold u hu]

theorem Rt.Created.rest (hc : Created s s') (h : s.Rest) : s'.Rest ∧ ∀ u, s'.Runs u ↔ s.Runs u := by
  have hinv := hc.inv h.inv
  cases hc with
  | no a hs => exact Shifts.rest (Wastes.shifts hs) h
  | task tape =>
      exact h.of_spawned hinv (h.inv.fresh_task (le_refl _)) rfl rfl rfl rfl
  | handle tape =>
      exact h.of_spawned hinv (h.inv.fresh_task (Nat.le_succ _)) rfl rfl rfl rfl
  | chan tape elemSize capacity =>
      exact h.of_woken hinv rfl rfl fun u _ => .inl rfl

theorem Cancels.rest (hc : Cancels t s s') (h : s.Rest) :
    s'.Rest ∧ ∀ u, s'.Runs u ↔ s.Runs u := by
  have hinv := hc.inv h.inv
  have hctrl := hc.control_eq
  simp only [Rt.control, Prod.mk.injEq] at hctrl
  rcases hc.effect_or h.inv with ⟨he, hall⟩ | ⟨ht, hs, hb⟩
  · exact h.of_woken hinv hall hctrl.2.2.2.2.2.2 fun u hu => he.woken hu
  · have hkill := h.inv.killReady ht hs
    have hmem : ∀ u, u ∈ s'.allTasks ↔ u ≠ t ∧ u ∈ s.allTasks := fun u => hb.mem hkill
    obtain ⟨hrest, hruns⟩ := h.of_removed hinv ht hmem (by simpa [hs] using hctrl.2.2.2.2.2.2)
      fun u hu hne => by
        have hsame : (s.killReady t).task u = s.task u := Function.update_of_ne hne _ _
        have hw := hb.task_eq_or hkill hu hne
        rw [hsame] at hw
        exact hw.imp_right fun ⟨o, hw, _⟩ => ⟨o, hw⟩
    refine ⟨hrest, fun u => (hruns u).trans (and_iff_right_of_imp fun hr hut => ?_)⟩
    subst hut
    exact absurd hr.2 (by simp [hs])

theorem Rt.CancelCall.rest {x : HandleId} (hc : CancelCall s x s') (h : s.Rest) :
    s'.Rest ∧ ∀ u, s'.Runs u ↔ s.Runs u := by
  cases hc with
  | late => exact Shifts.rest (.single (.request x)) h
  | wake t a hx hcomp htask hcancel =>
      obtain ⟨hr, hruns⟩ := Shifts.rest (reported_shifts hcomp) h
      obtain ⟨hr', hruns'⟩ := hcancel.rest hr
      exact ⟨hr', fun u => (hruns' u).trans (hruns u)⟩

/-- The record of a running task changes in fields that do not matter here. -/
theorem Rt.Rest.of_touched {k : Task} (h : s.Rest) (hinv : s'.Inv) (hrun : s.Runs t)
    (hall : s'.allTasks = s.allTasks) (htask : s'.task = Function.update s.task t k)
    (hk : k.state = .running) (hws : k.selectWaiters = [])
    (hcount : s'.runningTasks = s.runningTasks) :
    s'.Rest ∧ ∀ u, s'.Runs u ↔ s.Runs u := by
  have hruns : ∀ u, s'.Runs u ↔ s.Runs u := fun u => by
    rw [Runs, Runs, hall, htask]
    by_cases hu : u = t
    · subst hu
      simp [hk, hrun.2]
    · rw [Function.update_of_ne hu]
  refine ⟨⟨hinv, fun u hu => ?_, fun u hu => ?_, ?_⟩, hruns⟩
  · rw [htask]
    by_cases hut : u = t
    · subst hut
      simpa using hws
    · rw [Function.update_of_ne hut]
      exact h.noWaiters u ((hruns u).mp hu)
  · obtain ⟨hmem, hd⟩ := hu
    rw [htask] at hd
    by_cases hut : u = t
    · subst hut
      simp [hk] at hd
    · rw [Function.update_of_ne hut] at hd
      exact h.noDead u ⟨hall ▸ hmem, hd⟩
  · rw [hcount, h.running, hall, htask]
    exact (countP_update_same (f := s.task) (p := fun k : Task => decide (k.state = .running))
      (by simp [hk, hrun.2])).symm

theorem Rt.SelectFails.rest (hf : SelectFails t s s') (h : s.Rest) (hrun : s.Runs t) :
    s'.Rest ∧ ∀ u, s'.Runs u ↔ s.Runs u := by
  have hinv := (Registers.inv hf.registers h.inv hrun.1 hrun.2).1
  have hws := hf.waiters
  obtain ⟨_, _, _, _, _, _, _, _, _, _, _, _, rfl⟩ := Registers.enrols hf.registers
  exact h.of_touched hinv hrun rfl rfl hrun.2 (by simpa using hws) rfl

theorem Rt.Rest.touchFd (h : s.Rest) (hrun : s.Runs t) :
    (s.touchFd t).Rest ∧ ∀ u, (s.touchFd t).Runs u ↔ s.Runs u := by
  have hinv : (s.touchFd t).Inv := h.inv.touch hrun.2 hrun.2 rfl rfl rfl rfl
  exact h.of_touched hinv hrun rfl rfl hrun.2 (h.noWaiters t hrun) rfl

theorem Rt.Rest.finishFd {w : FdWaiterId} (h : s.Rest) (hrun : s.Runs t)
    (hw : (s.task t).fdWaiter = some w) :
    (s.finishFd t w).Rest ∧ ∀ u, (s.finishFd t w).Runs u ↔ s.Runs u :=
  h.of_touched (h.inv.finishFd hrun.1 hrun.2 hw) hrun rfl rfl hrun.2 (h.noWaiters t hrun) rfl

theorem Rt.Section.rest {does : Op → Prop} {c : CallId} {o : Option (Role × Rc)}
    (hs : Section does c s o s') (h : s.Rest) : s'.Rest ∧ ∀ u, s'.Runs u ↔ s.Runs u := by
  cases hs with
  | idle o tape => exact Shifts.rest (.single (.quiet _ _ _ _ tape)) h
  | release x rc _ hr => exact Shifts.rest (.single hr.shift) h
  | fd o _ _ ho => exact Shifts.rest (ho.shifts h.inv) h
  | go rc _ _ hc => exact hc.rest h
  | chanCreate rc _ _ hc => exact hc.created.rest h
  | cancel x _ hc => exact hc.rest h
  | send kind ch value rc _ _ hsend => exact Moves.rest hsend.moves h
  | sendNot => exact ⟨h, fun _ => Iff.rfl⟩
  | recv ch out rc _ _ hrecv => exact Moves.rest hrecv.moves h
  | recvNot => exact ⟨h, fun _ => Iff.rfl⟩
  | close ch rc _ _ hc => exact Moves.rest hc.moves h
  | destroy ch rc _ hl hd => exact Moves.rest (hd.moves hl.1) h
  | unselect t rc _ hrun hf => exact hf.rest h hrun
  | unwait t rc x _ _ hrun hq =>
      obtain ⟨h1, r1⟩ := Shifts.rest (.single hq.shift) h
      obtain ⟨h2, r2⟩ := h1.touchFd ((r1 t).mpr hrun)
      obtain ⟨h3, r3⟩ := Shifts.rest (.single (.wasteFd x)) h2
      exact ⟨h3, fun u => (r3 u).trans ((r2 u).trans (r1 u))⟩

/-! ## Leaving and entering a processor -/

theorem Rt.Rest.runningTasks_pos (h : s.Rest) (hrun : s.Runs t) : 0 < s.runningTasks := by
  rw [h.running]
  exact List.countP_pos_iff.mpr ⟨t, hrun.1, by simpa using hrun.2⟩

/-- A running task is parked. -/
theorem Rt.Rest.of_departed (h : s.Rest) (hrun : s.Runs t) (hinv : s'.Inv)
    (hall : s'.allTasks = s.allTasks) (hne : ∀ u, u ≠ t → s'.task u = s.task u)
    (hstate : (s'.task t).state ≠ .running ∧ (s'.task t).state ≠ .dead)
    (hcount : s'.runningTasks + 1 = s.runningTasks) :
    s'.Rest ∧ ∀ u, s'.Runs u ↔ u ≠ t ∧ s.Runs u := by
  have hruns : ∀ u, s'.Runs u ↔ u ≠ t ∧ s.Runs u := fun u => by
    rw [Runs, Runs, hall]
    by_cases hu : u = t
    · subst hu
      simp [hstate.1]
    · rw [hne u hu]
      simp [hu]
  refine ⟨⟨hinv, fun u hu => ?_, fun u hu => ?_, ?_⟩, hruns⟩
  · obtain ⟨hut, hr⟩ := (hruns u).mp hu
    rw [hne u hut]
    exact h.noWaiters u hr
  · by_cases hut : u = t
    · subst hut
      exact hstate.2 hu.2
    · exact h.noDead u ⟨hall ▸ hu.1, hne u hut ▸ hu.2⟩
  · have htask : s'.task = Function.update s.task t (s'.task t) := by
      funext u
      by_cases hu : u = t
      · subst hu
        simp
      · rw [Function.update_of_ne hu, hne u hu]
    have := countP_update_leave (f := s.task) (v := s'.task t)
      (p := fun k : Task => decide (k.state = .running)) h.inv.task.nodup hrun.1
      (by simpa using hrun.2) (by simpa using hstate.1)
    rw [← htask] at this
    rw [hall]
    have hcount' := h.running
    omega

/-- The function of a running task has returned and the task is buried. -/
theorem Rt.Rest.bury {b : Rt} (h : s.Rest) (hrun : s.Runs t) (hb : Buries t (s.leave.die t) b) :
    b.Rest ∧ ∀ u, b.Runs u ↔ u ≠ t ∧ s.Runs u := by
  have hdie : (s.leave.die t).Inv := h.inv.leave.die hrun.1 hrun.2 (h.noWaiters t hrun)
  have hctrl := hb.control_eq
  simp only [Rt.control, Prod.mk.injEq] at hctrl
  have hpos := h.runningTasks_pos hrun
  have hcount : b.runningTasks = s.runningTasks - 1 := hctrl.2.2.2.2.2.2
  refine h.of_removed (hb.inv hdie) hrun.1 (fun u => hb.mem hdie) ?_ fun u hu hne => ?_
  · rw [if_pos hrun.2]
    omega
  · have hsame : (s.leave.die t).task u = s.task u := Function.update_of_ne hne _ _
    have hw := hb.task_eq_or hdie hu hne
    rw [hsame] at hw
    exact hw.imp_right fun ⟨o, hw, _⟩ => ⟨o, hw⟩

/-- A queued task is ready. -/
theorem Rt.Inv.mem_runq (h : s.Inv) (ht : t ∈ s.runq.items) :
    t ∈ s.allTasks ∧ (s.task t).state = .ready := by
  obtain ⟨hall, hslot⟩ := (h.task.placed.mem .runq t).mp ht
  refine ⟨hall, ?_⟩
  unfold Task.slot at hslot
  split at hslot <;> simp_all

/-- The head of the run queue is dispatched. -/
theorem Rt.Rest.dispatch {q : Queue TaskId} (h : s.Rest) (hq : s.runq.pop = some (t, q)) :
    (s.dispatch t q).Rest ∧ ∀ u, (s.dispatch t q).Runs u ↔ u = t ∨ s.Runs u := by
  have hinv := h.inv.dispatch hq
  have hmem : t ∈ s.runq.items := by simp [(Queue.pop_eq_some.mp hq).1]
  obtain ⟨ht, hready⟩ := h.inv.mem_runq hmem
  have hruns : ∀ u, (s.dispatch t q).Runs u ↔ u = t ∨ s.Runs u := fun u => by
    simp only [Runs, Rt.dispatch]
    by_cases hu : u = t
    · subst hu
      simp [ht]
    · simp [hu]
  refine ⟨⟨hinv, fun u hu => ?_, fun u hu => ?_, ?_⟩, hruns⟩
  · simp only [Rt.dispatch]
    by_cases hut : u = t
    · subst hut
      simpa using h.inv.select.idle u ht (by simp [hready]) (by simp [hready])
    · rw [Function.update_of_ne hut]
      exact h.noWaiters u (((hruns u).mp hu).resolve_left hut)
  · obtain ⟨hmem, hd⟩ := hu
    simp only [Rt.dispatch] at hd
    by_cases hut : u = t
    · subst hut
      simp at hd
    · rw [Function.update_of_ne hut] at hd
      exact h.noDead u ⟨hmem, hd⟩
  · have := countP_update_enter (f := s.task) (v := { s.task t with state := .running })
      (p := fun k : Task => decide (k.state = .running)) h.inv.task.nodup ht
      (by simp [hready]) (by simp)
    simp only [Rt.dispatch, h.running]
    exact this.symm

end Microthread
