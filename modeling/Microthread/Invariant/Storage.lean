import Mathlib.Algebra.BigOperators.Group.List.Basic
import Microthread.Invariant.Passage

/-!
# What the runtime holds

Tasks and waiters are the runtime's own: it holds the registered tasks, their select
waiters and the linked descriptor waiters, and it frees such an object when it lets go
of it. A runtime that keeps to this is `Frugal`: what it holds has not been freed, and
everything of this kind that it has made and does not hold has been freed once.
-/

namespace Microthread

open Foundation

namespace Rt

variable {s s' : Rt} {t u : TaskId} {o : Obj}

/-- The runtime holds the object, which is none of the user's. -/
def Holds (s : Rt) : Obj → Prop
  | .task t => t ∈ s.allTasks
  | .selectWaiter w => ∃ t ∈ s.allTasks, w ∈ (s.task t).selectWaiters
  | .fdWaiter w => w ∈ s.fdWaiters
  | .handle _ | .chan _ => False

/-- Nothing is freed while it is held, and nothing is lost or freed twice. -/
structure Frugal (s : Rt) : Prop where
  held : ∀ o, s.Holds o → s.frees o = 0
  gone : ∀ o, o.internal = true → s.made o = true → ¬s.Holds o → s.frees o = 1

/-- What a change does to one object of the runtime. -/
inductive Fate (s s' : Rt) (o : Obj) : Prop where
  | kept : s'.made o = s.made o → s'.frees o = s.frees o → (s'.Holds o ↔ s.Holds o) → Fate s s' o
  | entered : s'.frees o = 0 → s'.Holds o → Fate s s' o
  | wasted : s'.frees o = 1 → ¬s'.Holds o → Fate s s' o
  | freed : s.Holds o → s'.frees o = s.frees o + 1 → ¬s'.Holds o → Fate s s' o

def Balances (s s' : Rt) : Prop := ∀ o, o.internal = true → Fate s s' o

theorem Holds.internal (h : s.Holds o) : o.internal = true := by
  cases o with
  | handle => exact h.elim
  | chan => exact h.elim
  | _ => rfl

theorem Frugal.step (h : s.Frugal) (ha : s.Balances s') : s'.Frugal := by
  refine ⟨fun o ho => ?_, fun o hi hm hno => ?_⟩
  · cases ha o ho.internal with
    | kept _ hf hh => exact hf.trans (h.held o (hh.mp ho))
    | entered hf _ => exact hf
    | wasted _ hno => exact absurd ho hno
    | freed _ _ hno => exact absurd ho hno
  · cases ha o hi with
    | kept hmade hf hh => exact hf.trans (h.gone o hi (hmade ▸ hm) fun hold => hno (hh.mpr hold))
    | entered _ hh => exact absurd hh hno
    | wasted hf _ => exact hf
    | freed hold hf _ => rw [hf, h.held o hold]

/-- What is held has been made. -/
theorem Inv.made_of_holds (h : s.Inv) (ho : s.Holds o) : s.made o = true := by
  cases o with
  | task t => exact (h.heap.task t ho).1
  | selectWaiter w =>
      obtain ⟨t, ht, hw⟩ := ho
      exact h.heap.selectWaiter t ht w hw
  | fdWaiter w => exact h.heap.fdWaiter w ho
  | handle => exact ho.elim
  | chan => exact ho.elim

theorem Inv.not_holds (h : s.Inv) (ho : s.nextAddr ≤ o.addr) : ¬s.Holds o := fun hold => by
  have hmade := h.made_of_holds hold
  rw [h.heap.not_made ho] at hmade
  cases hmade

/-- The holdings in terms of the fields they are read from. -/
theorem holds_congr (hall : s'.allTasks = s.allTasks) (hfd : s'.fdWaiters = s.fdWaiters)
    (hsel : ∀ u ∈ s.allTasks, (s'.task u).selectWaiters = (s.task u).selectWaiters) :
    s'.Holds o ↔ s.Holds o := by
  cases o with
  | task t => simp only [Holds, hall]
  | selectWaiter w =>
      simp only [Holds, hall]
      exact exists_congr fun u => and_congr_right fun hu => by rw [hsel u hu]
  | fdWaiter w => simp only [Holds, hfd]
  | handle => exact Iff.rfl
  | chan => exact Iff.rfl

theorem Balances.same (hall : s'.allTasks = s.allTasks) (hfd : s'.fdWaiters = s.fdWaiters)
    (hsel : ∀ u ∈ s.allTasks, (s'.task u).selectWaiters = (s.task u).selectWaiters)
    (hmade : ∀ o, o.internal = true → s'.made o = s.made o)
    (hfrees : ∀ o, o.internal = true → s'.frees o = s.frees o) : s.Balances s' :=
  fun o hi => .kept (hmade o hi) (hfrees o hi) (holds_congr hall hfd hsel)

theorem Balances.of_eq (hall : s'.allTasks = s.allTasks) (hfd : s'.fdWaiters = s.fdWaiters)
    (htask : ∀ u ∈ s.allTasks, s'.task u = s.task u) (hmade : s'.made = s.made)
    (hfrees : s'.frees = s.frees) : s.Balances s' :=
  .same hall hfd (fun u hu => by rw [htask u hu]) (fun _ _ => by rw [hmade])
    fun _ _ => by rw [hfrees]

theorem selectWaiters_update {f : TaskId → Task} {k : Task}
    (hk : k.selectWaiters = (f t).selectWaiters) (u : TaskId) :
    (Function.update f t k u).selectWaiters = (f u).selectWaiters := by
  by_cases hu : u = t
  · subst hu
    rw [Function.update_self, hk]
  · rw [Function.update_of_ne hu]

/-- Only the record of one task changes, and not the waiters in it. -/
theorem Balances.update {k : Task} (hall : s'.allTasks = s.allTasks)
    (hfd : s'.fdWaiters = s.fdWaiters) (htask : s'.task = Function.update s.task t k)
    (hk : k.selectWaiters = (s.task t).selectWaiters) (hmade : s'.made = s.made)
    (hfrees : s'.frees = s.frees) : s.Balances s' :=
  .same hall hfd (fun u _ => by rw [htask, selectWaiters_update hk]) (fun _ _ => by rw [hmade])
    fun _ _ => by rw [hfrees]

/-! ## Elementary changes -/

/-- A select waiter belongs to one task. -/
theorem Inv.waiter_of (h : s.Inv) {w : WaiterId} (ht : t ∈ s.allTasks)
    (hw : w ∈ (s.task t).selectWaiters) (hu : u ∈ s.allTasks)
    (hw' : w ∈ (s.task u).selectWaiters) : u = t :=
  (h.select.owner u hu w hw').1.symm.trans (h.select.owner t ht w hw).1

/-- The select waiters of a task are freed. -/
theorem Inv.balances_drop (h : s.Inv) (ht : t ∈ s.allTasks) (hall : s'.allTasks = s.allTasks)
    (hfd : s'.fdWaiters = s.fdWaiters) (hself : (s'.task t).selectWaiters = [])
    (hothers : ∀ u, u ≠ t → s'.task u = s.task u) (hmade : s'.made = s.made)
    (hfrees : s'.frees = fun o => s.frees o +
      (s.task t).selectWaiters.countP fun w => o = .selectWaiter w) : s.Balances s' := by
  intro o hi
  cases o with
  | task u => exact .kept (by rw [hmade]) (by simp [hfrees]) (by simp [Holds, hall])
  | fdWaiter w => exact .kept (by rw [hmade]) (by simp [hfrees]) (by simp [Holds, hfd])
  | handle => cases hi
  | chan => cases hi
  | selectWaiter w =>
      have hcount : s'.frees (.selectWaiter w) =
          s.frees (.selectWaiter w) + (s.task t).selectWaiters.count w := by
        simp only [hfrees, Obj.selectWaiter.injEq, List.count, beq_eq_decide]
        congr 2
        funext x
        exact decide_eq_decide.mpr eq_comm
      by_cases hw : w ∈ (s.task t).selectWaiters
      · refine .freed ⟨t, ht, hw⟩ ?_ ?_
        · rw [hcount, List.count_eq_one_of_mem (h.select.nodup t ht) hw]
        · rintro ⟨u, hu, hw'⟩
          rw [hall] at hu
          by_cases hut : u = t
          · rw [hut, hself] at hw'
            cases hw'
          · rw [hothers u hut] at hw'
            exact hut (h.waiter_of ht hw hu hw')
      · refine .kept (by rw [hmade]) (by rw [hcount, List.count_eq_zero_of_not_mem hw, add_zero]) ?_
        simp only [Holds, hall]
        refine exists_congr fun u => and_congr_right fun hu => ?_
        by_cases hut : u = t
        · rw [hut, hself]
          exact ⟨fun hn => absurd hn List.not_mem_nil, fun hn => absurd hn hw⟩
        · rw [hothers u hut]

theorem Inv.balances_wakeSelect (h : s.Inv) (ht : t ∈ s.allTasks) (items : List TaskId)
    (role : Role) (rc : Rc) (index : Nat) : s.Balances (s.wakeSelect t items role rc index) :=
  h.balances_drop ht rfl rfl (by simp [Rt.wakeSelect])
    (fun u hu => by simp [Rt.wakeSelect, hu]) rfl rfl

/-- An object is made and freed at once. -/
theorem Inv.balances_waste (h : s.Inv) (mk : Nat → Obj) (hmk : ∀ n, (mk n).addr = n)
    (hall : s'.allTasks = s.allTasks) (hfd : s'.fdWaiters = s.fdWaiters)
    (htask : ∀ u ∈ s.allTasks, s'.task u = s.task u) (hmade : s'.made = (s.waste mk).made)
    (hfrees : s'.frees = (s.waste mk).frees) : s.Balances s' := by
  have hholds : ∀ o, s'.Holds o ↔ s.Holds o := fun o =>
    holds_congr hall hfd fun u hu => by rw [htask u hu]
  intro o hi
  by_cases ho : o = mk s.nextAddr
  · have haddr : s.nextAddr ≤ o.addr := by rw [ho, hmk]
    refine .wasted ?_ fun hold => h.not_holds haddr ((hholds o).mp hold)
    rw [hfrees, ho]
    simp [Rt.waste, h.heap.frees_eq_zero (ho ▸ haddr)]
  · exact .kept (by simp [hmade, Rt.waste, ho]) (by simp [hfrees, Rt.waste, ho]) (hholds o)

end Rt

open Rt

variable {s s' : Rt} {t : TaskId}

theorem Drain.balances {ch : ChanId} (hd : Drain ch s s') (h : s.Inv) : s.Balances s' := by
  cases hd with
  | task r t => exact .update rfl rfl rfl rfl rfl rfl
  | select r w items hr hclosed hhead =>
      exact h.balances_wakeSelect (h.mem_selectq (List.mem_of_head? hhead)).1 _ _ _ _

theorem Shift.balances (hm : Shift s s') (h : s.Inv) : s.Balances s' := by
  cases hm with
  | drain hd => exact hd.balances h
  | timeout t items ht => exact h.balances_wakeSelect ht _ _ _ _
  | wakeJoin => exact .update rfl rfl rfl rfl rfl rfl
  | wakeSleep => exact .update rfl rfl rfl rfl rfl rfl
  | wakeFd => exact .update rfl rfl rfl rfl rfl rfl
  | dropHandle x =>
      refine .same rfl rfl (fun _ _ => rfl) (fun _ _ => rfl) fun o hi => ?_
      exact Function.update_of_ne (by rintro rfl; cases hi) _ _
  | releaseDrop x =>
      refine .same rfl rfl (fun _ _ => rfl) (fun _ _ => rfl) fun o hi => ?_
      exact Function.update_of_ne (by rintro rfl; cases hi) _ _
  | waste mk hmk => exact h.balances_waste mk hmk rfl rfl (fun _ _ => rfl) rfl rfl
  | wasteTask k nextId =>
      refine h.balances_waste .task (fun _ => rfl) rfl rfl (fun u hu => ?_) rfl rfl
      exact Function.update_of_ne (h.heap.task_lt hu).ne _ _
  | wasteHandle =>
      exact h.balances_waste .handle (fun _ => rfl) rfl rfl (fun _ _ => rfl) rfl rfl
  | wasteFd x =>
      exact h.balances_waste .fdWaiter (fun _ => rfl) rfl rfl (fun _ _ => rfl) rfl rfl
  | _ => exact .of_eq rfl rfl (fun _ _ => rfl) rfl rfl

theorem Move.balances (hm : Move s s') (h : s.Inv) : s.Balances s' := by
  cases hm with
  | shift hm => exact hm.balances h
  | deliver => exact .update rfl rfl rfl rfl rfl rfl
  | deliverSelect r w items hw => exact h.balances_wakeSelect (h.mem_selectq hw).1 _ _ _ _
  | dropChan ch =>
      refine .same rfl rfl (fun _ _ => rfl) (fun _ _ => rfl) fun o hi => ?_
      exact Function.update_of_ne (by rintro rfl; cases hi) _ _
  | _ => exact .of_eq rfl rfl (fun _ _ => rfl) rfl rfl

theorem Moves.frugal (hm : Moves s s') (h : s.Frugal) (hi : s.Inv) : s'.Frugal := by
  induction hm with
  | refl => exact h
  | tail hpre hm ih => exact ih.step (hm.balances (Moves.inv hpre hi))

theorem Shifts.frugal (hm : Shifts s s') (h : s.Frugal) (hi : s.Inv) : s'.Frugal :=
  Moves.frugal (Shifts.moves hm) h hi

/-! ## Creation and destruction -/

/-- A task is made and registered. -/
theorem Rt.Inv.balances_spawn (h : s.Inv) {n : TaskId} {k : Task} (hn : s.nextAddr ≤ n)
    (hk : k.selectWaiters = []) (hall : s'.allTasks = n :: s.allTasks)
    (hfd : s'.fdWaiters = s.fdWaiters) (htask : s'.task = Function.update s.task n k)
    (hmade : ∀ o, o.internal = true → o ≠ .task n → s'.made o = s.made o)
    (hfrees : s'.frees = s.frees) : s.Balances s' := by
  have hold : ∀ u ∈ s.allTasks, s'.task u = s.task u := fun u hu => by
    rw [htask, Function.update_of_ne]
    exact ((h.heap.task_lt hu).trans_le hn).ne
  intro o hi
  by_cases ho : o = .task n
  · subst ho
    refine .entered ?_ (by simp [Holds, hall])
    rw [hfrees]
    exact h.heap.frees_eq_zero hn
  · refine .kept (hmade o hi ho) (by rw [hfrees]) ?_
    cases o with
    | task u =>
        have hne : u ≠ n := fun heq => ho (by rw [heq])
        simp [Holds, hall, hne]
    | fdWaiter w => simp [Holds, hfd]
    | selectWaiter w =>
        have hnew : (s'.task n).selectWaiters = [] := by rw [htask, Function.update_self, hk]
        simp only [Holds, hall, List.exists_mem_cons_iff, hnew, List.not_mem_nil, false_or]
        exact exists_congr fun u => and_congr_right fun hu => by rw [hold u hu]
    | handle => cases hi
    | chan => cases hi

theorem Rt.Created.frugal (hc : Created s s') (h : s.Frugal) (hi : s.Inv) : s'.Frugal := by
  cases hc with
  | no a hs => exact Shifts.frugal (Wastes.shifts hs) h hi
  | task tape =>
      refine h.step (hi.balances_spawn (n := s.nextAddr) (le_refl _) (k := { id := s.nextId }) rfl
        rfl rfl rfl (fun o _ ho => ?_) rfl)
      exact Function.update_of_ne ho _ _
  | handle tape =>
      refine h.step (hi.balances_spawn (n := s.nextAddr + 1) (Nat.le_succ _)
        (k := { id := s.nextId, handle := some s.nextAddr }) rfl rfl rfl rfl (fun o hint ho => ?_) rfl)
      refine (Function.update_of_ne ho _ _).trans (Function.update_of_ne ?_ _ _)
      rintro rfl
      cases hint
  | chan tape elemSize capacity =>
      refine h.step (.same rfl rfl (fun _ _ => rfl) (fun o hint => ?_) fun _ _ => rfl)
      exact Function.update_of_ne (by rintro rfl; cases hint) _ _

/-- A dead task is unregistered and freed, with the waiter it may still have. -/
theorem Rt.Inv.balances_reap (h : s.Inv) (ht : t ∈ s.allTasks) (hd : (s.task t).state = .dead) :
    s.Balances (s.reap t) := by
  have hws : (s.task t).selectWaiters = [] := h.select.idle t ht (by simp [hd]) (by simp [hd])
  have hmem : ∀ u, u ∈ s.allTasks.erase t ↔ u ≠ t ∧ u ∈ s.allTasks := fun u =>
    h.task.nodup.mem_erase_iff
  intro o hi
  have hmade : (s.reap t).made o = s.made o := by rw [reap_made]
  cases o with
  | handle => cases hi
  | chan => cases hi
  | task u =>
      by_cases hut : u = t
      · subst hut
        refine .freed ht ?_ ?_
        · unfold Rt.reap
          split <;> simp
        · simp [Holds, reap_allTasks, hmem]
      · refine .kept hmade ?_ ?_
        · unfold Rt.reap
          split <;> simp [hut]
        · simp [Holds, reap_allTasks, hmem, hut]
  | selectWaiter w =>
      refine .kept hmade ?_ ?_
      · unfold Rt.reap
        split <;> simp
      · simp only [Holds, reap_allTasks, hmem]
        refine exists_congr fun u => ?_
        by_cases hut : u = t
        · subst hut
          simp [hws]
        · simp [hut, reap_task_of_ne s hut]
  | fdWaiter w =>
      cases hfd : (s.task t).fdWaiter with
      | none => exact .kept hmade (by simp [Rt.reap, hfd]) (by simp [Holds, Rt.reap, hfd])
      | some v =>
          have hv := (h.fd.linked t ht v hfd).1
          by_cases hwv : w = v
          · subst hwv
            exact .freed hv (by simp [Rt.reap, hfd])
              (by simp [Holds, Rt.reap, hfd, h.fd.nodup.mem_erase_iff])
          · exact .kept hmade (by simp [Rt.reap, hfd, hwv])
              (by simp [Holds, Rt.reap, hfd, h.fd.nodup.mem_erase_iff, hwv])

theorem Buries.frugal (hb : Buries t s s') (h : s.Frugal) (hi : s.Inv) : s'.Frugal := by
  obtain ⟨hm, ht, hd, -⟩ := hb
  replace hm := HandleShifts.shifts hm
  exact (Shifts.frugal hm h hi).step ((Shifts.inv hm hi).balances_reap ht hd)

theorem Cancels.frugal (hc : Cancels t s s') (h : s.Frugal) (hi : s.Inv) : s'.Frugal := by
  cases hc with
  | nothing => exact h
  | sleep => exact h.step (.update rfl rfl rfl rfl rfl rfl)
  | chan => exact h.step (.update rfl rfl rfl rfl rfl rfl)
  | select items ht => exact h.step (hi.balances_wakeSelect ht _ _ _ _)
  | fd => exact h.step (.update rfl rfl rfl rfl rfl rfl)
  | join => exact h.step (.update rfl rfl rfl rfl rfl rfl)
  | destroy ht hs hb =>
      have hkill : (s.killReady t).Frugal := h.step (.update rfl rfl rfl rfl rfl rfl)
      exact hb.frugal hkill (hi.killReady ht hs)

/-! ## Waiters -/

theorem Register.frugal (hm : Register t s s') (h : s.Frugal) (hi : s.Inv) (ht : t ∈ s.allTasks) :
    s'.Frugal := by
  cases hm with
  | quiet => exact h.step (.of_eq rfl rfl (fun _ _ => rfl) rfl rfl)
  | prepare index hws => exact h.step (.update rfl rfl rfl hws.symm rfl rfl)
  | setIndex => exact h.step (.update rfl rfl rfl rfl rfl rfl)
  | abandon =>
      exact h.step (hi.balances_drop ht rfl rfl (by simp [Rt.abandonSelect])
        (fun u hu => by simp [Rt.abandonSelect, hu]) rfl rfl)
  | add i k =>
      refine h.step fun o hint => ?_
      by_cases ho : o = .selectWaiter s.nextAddr
      · subst ho
        refine .entered (hi.heap.frees_eq_zero (le_refl _)) ⟨t, ht, ?_⟩
        simp [Rt.addWaiter]
      · refine .kept (Function.update_of_ne ho _ _) rfl ?_
        cases o with
        | task u => exact Iff.rfl
        | fdWaiter w => exact Iff.rfl
        | handle => cases hint
        | chan => cases hint
        | selectWaiter w =>
            have hne : w ≠ s.nextAddr := fun heq => ho (by rw [heq])
            refine exists_congr fun u => and_congr_right fun _ => ?_
            by_cases hut : u = t
            · subst hut
              simp [Rt.addWaiter, hne]
            · simp [Rt.addWaiter, hut]

theorem Registers.frugal (hm : Registers t s s') (h : s.Frugal) (hi : s.Inv)
    (ht : t ∈ s.allTasks) (hr : (s.task t).state = .running) : s'.Frugal := by
  induction hm with
  | refl => exact h
  | tail hpre hm ih =>
      obtain ⟨hinv, hmem, -⟩ := Registers.inv hpre hi ht hr
      exact hm.frugal ih hinv hmem

theorem Rt.Frugal.finishFd (h : s.Frugal) (hi : s.Inv) {w : FdWaiterId} (ht : t ∈ s.allTasks)
    (hw : (s.task t).fdWaiter = some w) : (s.finishFd t w).Frugal := by
  have hmem := (hi.fd.linked t ht w hw).1
  refine h.step fun o hint => ?_
  by_cases ho : o = .fdWaiter w
  · subst ho
    exact .freed hmem (by simp [Rt.finishFd]) (by simp [Holds, Rt.finishFd, hi.fd.nodup.mem_erase_iff])
  · refine .kept rfl (Function.update_of_ne ho _ _) ?_
    cases o with
    | task u => exact Iff.rfl
    | handle => cases hint
    | chan => cases hint
    | fdWaiter v =>
        have hne : v ≠ w := fun heq => ho (by rw [heq])
        simp [Holds, Rt.finishFd, hi.fd.nodup.mem_erase_iff, hne]
    | selectWaiter v =>
        refine exists_congr fun u => and_congr_right fun _ => ?_
        by_cases hut : u = t
        · subst hut
          simp [Rt.finishFd]
        · simp [Rt.finishFd, hut]

theorem Rt.Frugal.parkFd (h : s.Frugal) (hi : s.Inv) (t : TaskId) (timers : Timers) (wakeNs : Nat)
    (x : FdWaiter) : (s.parkFd t timers wakeNs x).Frugal := by
  refine h.step fun o hint => ?_
  by_cases ho : o = .fdWaiter s.nextAddr
  · subst ho
    exact .entered (hi.heap.frees_eq_zero (le_refl _)) (by simp [Holds, Rt.parkFd])
  · refine .kept (Function.update_of_ne ho _ _) rfl ?_
    cases o with
    | task u => exact Iff.rfl
    | handle => cases hint
    | chan => cases hint
    | fdWaiter v =>
        have hne : v ≠ s.nextAddr := fun heq => ho (by rw [heq])
        simp [Holds, Rt.parkFd, hne]
    | selectWaiter v =>
        refine exists_congr fun u => and_congr_right fun _ => ?_
        by_cases hut : u = t
        · subst hut
          simp [Rt.parkFd]
        · simp [Rt.parkFd, hut]

/-! ## Sections -/

theorem Rt.CancelCall.frugal {x : HandleId} (hc : CancelCall s x s') (h : s.Frugal) (hi : s.Inv) :
    s'.Frugal := by
  cases hc with
  | late => exact Shifts.frugal (.single (.request x)) h hi
  | wake t a hx hcomp htask hcancel =>
      have hrep := reported_shifts hcomp
      exact hcancel.frugal (Shifts.frugal hrep h hi) (Shifts.inv hrep hi)

theorem Rt.Section.frugal {does : Op → Prop} {c : CallId} {o : Option (Role × Rc)}
    (hs : Section does c s o s') (h : s.Frugal) (hr : s.Rest) : s'.Frugal := by
  have hi := hr.inv
  cases hs with
  | idle o tape => exact Shifts.frugal (.single (.quiet _ _ _ _ tape)) h hi
  | release x rc _ hr => exact Shifts.frugal (.single hr.shift) h hi
  | fd o _ _ ho => exact Shifts.frugal (ho.shifts hi) h hi
  | go rc _ _ hc => exact hc.frugal h hi
  | chanCreate rc _ _ hc => exact hc.created.frugal h hi
  | cancel x _ hc => exact hc.frugal h hi
  | send kind ch value rc _ _ hsend => exact Moves.frugal hsend.moves h hi
  | sendNot => exact h
  | recv ch out rc _ _ hrecv => exact Moves.frugal hrecv.moves h hi
  | recvNot => exact h
  | close ch rc _ _ hc => exact Moves.frugal hc.moves h hi
  | destroy ch rc _ hl hd => exact Moves.frugal (hd.moves hl.1) h hi
  | unselect t rc _ hrun hf => exact Registers.frugal hf.registers h hi hrun.1 hrun.2
  | unwait t rc x _ _ hrun hq =>
      obtain ⟨h1, r1⟩ := Shifts.rest (.single hq.shift) hr
      obtain ⟨h2, -⟩ := h1.touchFd ((r1 t).mpr hrun)
      have hquiet := Shifts.frugal (.single hq.shift) h hi
      exact Shifts.frugal (.single (.wasteFd x)) (hquiet.step (.update rfl rfl rfl rfl rfl rfl)) h2.inv

/-! ## Shutdown -/

namespace Rt

variable {o : Obj}

/-- One of the tasks owns the object, once. -/
theorem Inv.holdings_eq_one (h : s.Inv) (ho : s.Holds o) : s.holdings o = 1 := by
  have key : ∀ t ∈ s.allTasks, Task.owns (s.task t) t o = 1 →
      (∀ u, u ≠ t → u ∈ s.allTasks → Task.owns (s.task u) u o = 0) → s.holdings o = 1 := by
    intro t ht hone hzero
    rw [Rt.holdings, List.sum_map_eq_nsmul_single t _ hzero, hone,
      List.count_eq_one_of_mem h.task.nodup ht]
    rfl
  cases o with
  | task t =>
      refine key t ho (by simp [Task.owns, Task.waiters]) fun u hu _ => ?_
      simp [Task.owns, Task.waiters, hu.symm]
  | selectWaiter w =>
      obtain ⟨t, ht, hw⟩ := ho
      refine key t ht ?_ fun u hu humem => ?_
      · simp [Task.owns, Task.waiters, List.count_eq_one_of_mem (h.select.nodup t ht) hw]
      · have hnot : w ∉ (s.task u).selectWaiters := fun hw' => hu (h.waiter_of ht hw humem hw')
        simp [Task.owns, Task.waiters, List.count_eq_zero_of_not_mem hnot]
  | fdWaiter w =>
      obtain ⟨ht, hlink, -⟩ := h.fd.owner w ho
      refine key _ ht (by simp [Task.owns, Task.waiters, hlink]) fun u hu humem => ?_
      have hnot : (s.task u).fdWaiter ≠ some w := fun hw =>
        hu (h.fd.linked u humem w hw).2.symm
      simp [Task.owns, Task.waiters, hnot]
  | handle => exact ho.elim
  | chan => exact ho.elim

/-- None of the tasks owns an object that is not held. -/
theorem Inv.holdings_eq_zero (h : s.Inv) (hi : o.internal = true) (ho : ¬s.Holds o) :
    s.holdings o = 0 := by
  refine List.sum_eq_zero fun n hn => ?_
  obtain ⟨u, hu, rfl⟩ := List.mem_map.mp hn
  cases o with
  | task t =>
      have hne : t ≠ u := fun heq => ho (heq ▸ hu)
      simp [Task.owns, Task.waiters, hne]
  | selectWaiter w =>
      have hnot : w ∉ (s.task u).selectWaiters := fun hw => ho ⟨u, hu, hw⟩
      simp [Task.owns, Task.waiters, List.count_eq_zero_of_not_mem hnot]
  | fdWaiter w =>
      have hnot : (s.task u).fdWaiter ≠ some w := fun hw => ho (h.fd.linked u hu w hw).1
      simp [Task.owns, Task.waiters, hnot]
  | handle => cases hi
  | chan => cases hi

theorem Off.not_holds (h : s.Off) (o : Obj) : ¬s.Holds o := by
  cases o <;> simp [Holds, h.allTasks, h.fdWaiters]

/-- Everything the runtime has made for itself is freed, each object once. -/
theorem ShutDown.frees_eq_one (hd : ShutDown s s') (h : s.Frugal) (hi : s.Inv)
    (hint : o.internal = true) (hm : s.made o = true) : s'.frees o = 1 := by
  rw [hd.freesHeld o hint]
  by_cases ho : s.Holds o
  · rw [h.held o ho, hi.holdings_eq_one ho]
  · rw [h.gone o hint hm ho, hi.holdings_eq_zero hint ho]

theorem ShutDown.frugal (hd : ShutDown s s') (h : s.Frugal) (hi : s.Inv) : s'.Frugal := by
  refine ⟨fun o ho => absurd ho (hd.off.not_holds o), fun o hint hm _ => ?_⟩
  rw [hd.made] at hm
  exact hd.frees_eq_one h hi hint hm

end Rt

/-- What a running task leaves behind when it parks. -/
theorem Rt.Frugal.leave (h : s.Frugal) : s.leave.Frugal := ⟨h.held, h.gone⟩

end Microthread
