import Microthread.Invariant.Waking

/-!
# What a locked section leaves alone

An elementary change leaves the records of all tasks alone or ends the wait of
one of them (`Move.effect`); the history grows by the completion of that wait or
by a transfer. So no elementary change starts or stops a running task, and none
touches the flags and counters of the worker loop.

Between sections a running task has no select waiters and no registered task is
dead.
-/

namespace Microthread

open Foundation

/-- The end of a wait: how the record of a parked task changes, and with what role
and result its call is completed, if it is. -/
inductive Task.Wake (k : Task) : Task → Option (Role × Rc) → Prop where
  | chan (rc) : k.state = .waitingChan →
      k.Wake { k with chanResult := rc, chanWaitKind := .none, chanWaitCh := none, chanValue := none
                      state := .ready } (some (k.chanRole, rc))
  | cancelChan : k.state = .waitingChan →
      k.Wake { k with chanResult := .cancelled, chanWaitKind := .none, chanWaitCh := none
                      chanValue := none, state := .ready } (some (.neither, .cancelled))
  | select (role rc index) : k.state = .waitingSelect →
      k.Wake { k with wakeNs := if k.selectInTimer then 0 else k.wakeNs
                      selectInTimer := false, selectWaiters := [], selectWaiterCount := 0
                      selectCountedWaiting := false, selectResult := rc, selectIndex := index
                      state := .ready } (some (role, rc))
  | join (rc) : k.state = .waitingJoin →
      k.Wake { k with joinResult := rc, joinWaitingOn := none, state := .ready }
        (some (.neither, rc))
  | sleep : k.state = .sleeping → k.Wake { k with wakeNs := 0, state := .ready } none
  | fd (rc ready) : k.state = .waitingFd →
      k.Wake { k with wakeNs := 0, fdInTimer := false, fdResult := rc, fdReadyEvents := ready
                      state := .ready } none

namespace Task.Wake

variable {k k' : Task} {o : Option (Role × Rc)}

theorem state_new (h : k.Wake k' o) : k'.state = .ready := by
  cases h <;> rfl

theorem call (h : k.Wake k' o) : k'.call = k.call := by
  cases h <;> rfl

theorem fdWaiter (h : k.Wake k' o) : k'.fdWaiter = k.fdWaiter := by
  cases h <;> rfl

theorem handle (h : k.Wake k' o) : k'.handle = k.handle := by
  cases h <;> rfl

/-- Only parked tasks are woken. -/
theorem state_old (h : k.Wake k' o) :
    k.state ≠ .ready ∧ k.state ≠ .running ∧ k.state ≠ .dead := by
  cases h <;> simp [*]

end Task.Wake

/-- The entry that the completion of a call leaves in the history. -/
def completion (c : CallId) (o : Option (Role × Rc)) : List Event :=
  (o.map fun p => Event.done c p.1 p.2).toList

namespace Rt

/-- What an elementary change does to the tasks and to the history. -/
inductive Effect (s s' : Rt) : Prop where
  | still (es) : (∀ u ∈ s.allTasks, s'.task u = s.task u) → s'.log = s.log ++ es →
      (∀ e ∈ es, e.IsTransfer) → Effect s s'
  | wake (t k' o) : t ∈ s.allTasks → (s.task t).Wake k' o →
      s'.task = Function.update s.task t k' → s'.log = s.log ++ completion (s.task t).call o →
      Effect s s'

/-- The task is registered and running. -/
def Runs (s : Rt) (t : TaskId) : Prop := t ∈ s.allTasks ∧ (s.task t).state = .running

/-- The task is registered and dead. -/
def Dead (s : Rt) (t : TaskId) : Prop := t ∈ s.allTasks ∧ (s.task t).state = .dead

/-- Running tasks have no select waiters. -/
def NoWaiters (s : Rt) : Prop := ∀ t, s.Runs t → (s.task t).selectWaiters = []

/-- Flags and counters that only the worker loop and the lifecycle functions write. -/
def control (s : Rt) : Bool × Bool × Bool × Rc × Nat × Nat × Nat :=
  (s.initialized, s.running, s.stopping, s.runResult, s.workerCount, s.activeWorkers, s.runningTasks)

variable {s s' : Rt} {t u : TaskId}

/-- A record that changes belongs to a parked task, and its wait ends. -/
theorem Effect.task_eq_or (he : Effect s s') (hu : u ∈ s.allTasks) :
    s'.task u = s.task u ∨ ∃ o, (s.task u).Wake (s'.task u) o ∧
      ∀ e ∈ completion (s.task u).call o, e ∈ s'.log := by
  cases he with
  | still es htask => exact .inl (htask u hu)
  | wake t k' o ht hw htask hlog =>
      by_cases hut : u = t
      · subst hut
        rw [htask, Function.update_self]
        exact .inr ⟨o, hw, fun e he => by simp [hlog, he]⟩
      · exact .inl (by rw [htask, Function.update_of_ne hut])

theorem Effect.log_grows (he : Effect s s') : s.log <+: s'.log := by
  cases he with
  | still es _ hlog => exact ⟨es, hlog.symm⟩
  | wake t k' o _ _ _ hlog => exact ⟨_, hlog.symm⟩

end Rt

open Rt

variable {s s' : Rt} {t u : TaskId}

/-! ## The effect of an elementary change -/

theorem Drain.effect {ch : ChanId} (hd : Drain ch s s') (h : s.Inv) : Effect s s' := by
  cases hd with
  | task r t hr _ hhead =>
      obtain ⟨ht, hslot⟩ := h.mem_waitq (List.mem_of_head? hhead)
      exact .wake t _ _ ht (.chan _ (Task.chanRef_of_slot hslot (by simp [hr])).1) rfl rfl
  | select r w items _ _ hhead hs =>
      exact .wake _ _ _ (h.mem_selectq (List.mem_of_head? hhead)).1 (.select _ _ _ hs) rfl rfl

theorem Shift.effect (hm : Shift s s') (h : s.Inv) : Effect s s' := by
  cases hm with
  | drain hd => exact hd.effect h
  | timeout t items ht hs => exact .wake t _ _ ht (.select _ _ _ hs) rfl rfl
  | wakeJoin x t _ _ hhead =>
      obtain ⟨ht, hslot⟩ := h.mem_waitq (List.mem_of_head? hhead)
      exact .wake t _ _ ht (.join _ (Task.joinWaitingOn_of_slot hslot).1) rfl rfl
  | wakeSleep t items ht hs => exact .wake t _ none ht (.sleep hs) rfl (List.append_nil _).symm
  | wakeFd w items rc ready hw ha =>
      obtain ⟨ht, -, -, hs⟩ := h.fd.owner w hw
      exact .wake _ _ none ht (.fd _ _ (hs.mp ha)) rfl (List.append_nil _).symm
  | wasteTask k i =>
      refine .still [] (fun u hu => ?_) (List.append_nil _).symm (by simp)
      exact Function.update_of_ne (Nat.ne_of_lt (h.heap.task_lt hu)) _ _
  | _ => exact .still [] (fun _ _ => rfl) (List.append_nil _).symm (by simp)

theorem Move.effect (hm : Move s s') (h : s.Inv) : Effect s s' := by
  cases hm with
  | shift hm => exact hm.effect h
  | note e he => exact .still [e] (fun _ _ => rfl) rfl (by simpa using he)
  | deliver r t hr ht =>
      obtain ⟨hall, hslot⟩ := h.mem_waitq ht
      exact .wake t _ _ hall (.chan _ (Task.chanRef_of_slot hslot hr).1) rfl rfl
  | deliverSelect r w items hw hs =>
      exact .wake _ _ _ (h.mem_selectq hw).1 (.select _ _ _ hs) rfl rfl
  | _ => exact .still [] (fun _ _ => rfl) (List.append_nil _).symm (by simp)

theorem Drain.allTasks_eq {ch : ChanId} (hd : Drain ch s s') : s'.allTasks = s.allTasks := by
  cases hd <;> rfl

theorem Move.allTasks_eq (hm : Move s s') : s'.allTasks = s.allTasks := by
  cases hm with
  | shift hm =>
      cases hm with
      | drain hd => exact hd.allTasks_eq
      | _ => rfl
  | _ => rfl

theorem Moves.allTasks_eq (hm : Moves s s') : s'.allTasks = s.allTasks := by
  induction hm with
  | refl => rfl
  | tail _ hm ih => rw [hm.allTasks_eq, ih]

theorem Drain.control_eq {ch : ChanId} (hd : Drain ch s s') : s'.control = s.control := by
  cases hd <;> rfl

theorem Move.control_eq (hm : Move s s') : s'.control = s.control := by
  cases hm with
  | shift hm =>
      cases hm with
      | drain hd => exact hd.control_eq
      | _ => rfl
  | _ => rfl

theorem Moves.control_eq (hm : Moves s s') : s'.control = s.control := by
  induction hm with
  | refl => rfl
  | tail _ hm ih => rw [hm.control_eq, ih]

/-- What has been made stays made, and frees are not undone. -/
structure Rt.Grows (s s' : Rt) : Prop where
  made : ∀ o, s.made o = true → s'.made o = true
  frees : ∀ o, s.frees o ≤ s'.frees o

theorem Rt.Grows.refl (s : Rt) : s.Grows s := ⟨fun _ => id, fun _ => le_refl _⟩

theorem Rt.Grows.trans {a : Rt} (h : s.Grows a) (h' : a.Grows s') : s.Grows s' :=
  ⟨fun o ho => h'.made o (h.made o ho), fun o => (h.frees o).trans (h'.frees o)⟩

theorem le_update_succ (f : Obj → Nat) (x o : Obj) : f o ≤ Function.update f x (f x + 1) o := by
  by_cases ho : o = x
  · subst ho
    simp
  · simp [Function.update_of_ne ho]

theorem made_update {f : Obj → Bool} {x o : Obj} (ho : f o = true) :
    Function.update f x true o = true := by
  by_cases hx : o = x
  · subst hx
    simp
  · rwa [Function.update_of_ne hx]

theorem Shift.grows (hm : Shift s s') : s.Grows s' := by
  cases hm with
  | drain hd =>
      cases hd with
      | task => exact ⟨fun _ => id, fun _ => le_refl _⟩
      | select => exact ⟨fun _ => id, fun _ => Nat.le_add_right _ _⟩
  | timeout => exact ⟨fun _ => id, fun _ => Nat.le_add_right _ _⟩
  | dropHandle => exact ⟨fun _ => id, le_update_succ _ _⟩
  | releaseDrop => exact ⟨fun _ => id, le_update_succ _ _⟩
  | waste => exact ⟨fun _ => made_update, le_update_succ _ _⟩
  | wasteTask => exact ⟨fun _ => made_update, le_update_succ _ _⟩
  | wasteHandle => exact ⟨fun _ => made_update, le_update_succ _ _⟩
  | wasteFd => exact ⟨fun _ => made_update, le_update_succ _ _⟩
  | _ => exact ⟨fun _ => id, fun _ => le_refl _⟩

theorem Move.grows (hm : Move s s') : s.Grows s' := by
  cases hm with
  | shift hm => exact hm.grows
  | deliverSelect => exact ⟨fun _ => id, fun _ => Nat.le_add_right _ _⟩
  | dropChan => exact ⟨fun _ => id, le_update_succ _ _⟩
  | _ => exact ⟨fun _ => id, fun _ => le_refl _⟩

theorem Moves.grows (hm : Moves s s') : s.Grows s' := by
  induction hm with
  | refl => exact .refl s
  | tail _ hm ih => exact ih.trans hm.grows

/-- Along any number of elementary changes a task is woken at most once. -/
theorem Moves.task_eq_or (hm : Moves s s') (h : s.Inv) (hu : u ∈ s.allTasks) :
    s'.task u = s.task u ∨ ∃ o, (s.task u).Wake (s'.task u) o ∧
      ∀ e ∈ completion (s.task u).call o, e ∈ s'.log := by
  induction hm with
  | refl => exact .inl rfl
  | tail hms hm ih =>
      have he := hm.effect (Moves.inv hms h)
      have hu' := (Moves.allTasks_eq hms ▸ hu :)
      rcases ih with heq | ⟨o, hw, hlog⟩
      · rw [← heq]
        exact he.task_eq_or hu'
      · rcases he.task_eq_or hu' with heq | ⟨o', hw', -⟩
        · rw [heq]
          exact .inr ⟨o, hw, fun e h => he.log_grows.subset (hlog e h)⟩
        · exact absurd hw.state_new hw'.state_old.1

/-- A task that is not parked is left alone. -/
theorem Moves.task_eq (hm : Moves s s') (h : s.Inv) (hmem : u ∈ s.allTasks)
    (hu : (s.task u).state = .ready ∨ (s.task u).state = .running ∨ (s.task u).state = .dead) :
    s'.task u = s.task u := by
  rcases hm.task_eq_or h hmem with heq | ⟨o, hw, -⟩
  · exact heq
  · obtain ⟨h1, h2, h3⟩ := hw.state_old
    rcases hu with hu | hu | hu
    · exact absurd hu h1
    · exact absurd hu h2
    · exact absurd hu h3

/-- No task starts or stops running or dying. -/
theorem Moves.state_iff (hm : Moves s s') (h : s.Inv) {st : TaskState}
    (hst : st = .running ∨ st = .dead) (hmem : u ∈ s.allTasks) :
    (s'.task u).state = st ↔ (s.task u).state = st := by
  rcases hm.task_eq_or h hmem with heq | ⟨o, hw, -⟩
  · rw [heq]
  · have hnew := hw.state_new
    obtain ⟨-, h2, h3⟩ := hw.state_old
    rcases hst with rfl | rfl
    · simp [hnew, h2]
    · simp [hnew, h3]

theorem Moves.runs (hm : Moves s s') (h : s.Inv) (u : TaskId) : s'.Runs u ↔ s.Runs u := by
  rw [Runs, Runs, hm.allTasks_eq]
  exact and_congr_right fun hu => hm.state_iff h (.inl rfl) hu

theorem Moves.dead (hm : Moves s s') (h : s.Inv) (u : TaskId) : s'.Dead u ↔ s.Dead u := by
  rw [Dead, Dead, hm.allTasks_eq]
  exact and_congr_right fun hu => hm.state_iff h (.inr rfl) hu

theorem Moves.noWaiters (hm : Moves s s') (h : s.Inv) (hn : s.NoWaiters) : s'.NoWaiters := by
  intro t ht
  have hrun := (hm.runs h t).mp ht
  rw [hm.task_eq h hrun.1 (.inr (.inl hrun.2))]
  exact hn t hrun

/-! ## Queues -/

/-- Queues of waiting tasks and waiters only lose elements. -/
def Shrinks (s s' : Rt) : Prop :=
  (∀ r, (s'.waitq r).items.Sublist (s.waitq r).items) ∧
    ∀ r, (s'.selectq r).items.Sublist (s.selectq r).items

theorem Shrinks.refl (s : Rt) : Shrinks s s := ⟨fun _ => .refl _, fun _ => .refl _⟩

theorem Shrinks.trans {a : Rt} (h : Shrinks s a) (h' : Shrinks a s') : Shrinks s s' :=
  ⟨fun r => (h'.1 r).trans (h.1 r), fun r => (h'.2 r).trans (h.2 r)⟩

theorem Shrinks.waitq_nil {r : WaitqRef} (h : Shrinks s s') (hr : (s.waitq r).items = []) :
    (s'.waitq r).items = [] :=
  List.sublist_nil.mp (hr ▸ h.1 r)

theorem Shrinks.selectq_nil {r : SelectqRef} (h : Shrinks s s') (hr : (s.selectq r).items = []) :
    (s'.selectq r).items = [] :=
  List.sublist_nil.mp (hr ▸ h.2 r)

theorem shrinks_unlink {r : WaitqRef}
    (hw : s'.waitq = Function.update s.waitq r ((s.waitq r).remove t).2)
    (hs : s'.selectq = s.selectq) : Shrinks s s' := by
  refine ⟨fun x => ?_, fun x => by rw [hs]⟩
  by_cases hx : x = r
  · subst hx
    rw [hw, Function.update_self]
    by_cases ht : t ∈ (s.waitq x).items
    · rw [Queue.remove_of_mem ht]
      exact List.erase_sublist
    · rw [Queue.remove_of_not_mem ht]
  · rw [hw, Function.update_of_ne hx]

theorem shrinks_drop (ws : List WaiterId) (hw : s'.waitq = s.waitq)
    (hs : s'.selectq = (s.dropWaiters ws).selectq) : Shrinks s s' := by
  refine ⟨fun x => by rw [hw], fun x => ?_⟩
  rw [hs]
  exact List.filter_sublist

theorem Drain.shrinks {ch : ChanId} (hd : Drain ch s s') : Shrinks s s' := by
  cases hd with
  | task r t => exact shrinks_unlink (by rfl) (by rfl)
  | select r w items => exact shrinks_drop _ (by rfl) (by rfl)

theorem Shift.shrinks (hm : Shift s s') : Shrinks s s' := by
  cases hm with
  | drain hd => exact hd.shrinks
  | timeout t items => exact shrinks_drop _ (by rfl) (by rfl)
  | wakeJoin x t => exact shrinks_unlink (by rfl) (by rfl)
  | _ => exact .refl s

theorem Move.shrinks (hm : Move s s') : Shrinks s s' := by
  cases hm with
  | shift hm => exact hm.shrinks
  | deliver r t => exact shrinks_unlink (by rfl) (by rfl)
  | deliverSelect r w items => exact shrinks_drop _ (by rfl) (by rfl)
  | _ => exact .refl s

theorem Moves.shrinks (hm : Moves s s') : Shrinks s s' := by
  induction hm with
  | refl => exact .refl s
  | tail _ hm ih => exact ih.trans hm.shrinks

/-! ## Channels -/

theorem Drain.chan_eq {ch : ChanId} (hd : Drain ch s s') : s'.chan = s.chan := by
  cases hd <;> rfl

theorem Shift.chan_eq (hm : Shift s s') : s'.chan = s.chan := by
  cases hm with
  | drain hd => exact hd.chan_eq
  | _ => rfl

theorem Shifts.chan_eq (hm : Shifts s s') : s'.chan = s.chan := by
  induction hm with
  | refl => rfl
  | tail _ hm ih => rw [hm.chan_eq, ih]

/-! ## Burials and cancellations -/

theorem reap_allTasks (s : Rt) (t : TaskId) : (s.reap t).allTasks = s.allTasks.erase t := by
  unfold Rt.reap
  split <;> rfl

theorem reap_task_of_ne (s : Rt) (hu : u ≠ t) : (s.reap t).task u = s.task u := by
  unfold Rt.reap
  split <;> exact Function.update_of_ne hu _ _

theorem reap_runq (s : Rt) (t : TaskId) : (s.reap t).runq = s.runq := by
  unfold Rt.reap
  split <;> rfl

theorem reap_log (s : Rt) (t : TaskId) : (s.reap t).log = s.log := by
  unfold Rt.reap
  split <;> rfl

theorem reap_handle (s : Rt) (t : TaskId) : (s.reap t).handle = s.handle := by
  unfold Rt.reap
  split <;> rfl

/-- The completion of a handle concerns the tasks that wait for it only. -/
theorem HandleShift.task_eq (hm : HandleShift s s') (h : s.Inv)
    (hs : (s.task t).state ≠ .waitingJoin) : s'.task t = s.task t := by
  cases hm with
  | complete => rfl
  | wakeJoin x u hx hc hhead =>
      refine Function.update_of_ne ?_ _ _
      rintro rfl
      exact hs (Task.joinWaitingOn_of_slot (h.mem_waitq (List.mem_of_head? hhead)).2).1
  | drop => rfl

theorem HandleShifts.task_eq (hm : HandleShifts s s') (h : s.Inv)
    (hs : (s.task t).state ≠ .waitingJoin) : s'.task t = s.task t := by
  induction hm with
  | refl => rfl
  | tail hms hm ih =>
      exact (hm.task_eq (Shifts.inv (HandleShifts.shifts hms) h) (by rw [ih]; exact hs)).trans ih

theorem Rt.Inv.mem_reap (h : s.Inv) : u ∈ (s.reap t).allTasks ↔ u ≠ t ∧ u ∈ s.allTasks := by
  rw [reap_allTasks]
  exact h.task.nodup.mem_erase_iff

theorem Buries.control_eq (hb : Buries t s s') : s'.control = s.control := by
  obtain ⟨hm, ht, hs, hg⟩ := hb
  replace hm := HandleShifts.shifts hm
  rw [← Moves.control_eq (Shifts.moves hm)]
  unfold Rt.reap
  split <;> rfl

theorem Buries.mem (hb : Buries t s s') (h : s.Inv) :
    u ∈ s'.allTasks ↔ u ≠ t ∧ u ∈ s.allTasks := by
  obtain @⟨a, hm, ht, hs, hg⟩ := hb
  replace hm := HandleShifts.shifts hm
  rw [(Shifts.inv hm h).mem_reap, Moves.allTasks_eq (Shifts.moves hm)]

/-- The other tasks see only the completion of their joins. -/
theorem Buries.task_eq_or (hb : Buries t s s') (h : s.Inv) (hmem : u ∈ s.allTasks) (hu : u ≠ t) :
    s'.task u = s.task u ∨ ∃ o, (s.task u).Wake (s'.task u) o ∧
      ∀ e ∈ completion (s.task u).call o, e ∈ s'.log := by
  obtain @⟨a, hm, ht, hs, hg⟩ := hb
  replace hm := HandleShifts.shifts hm
  rw [reap_task_of_ne a hu, reap_log]
  exact Moves.task_eq_or (Shifts.moves hm) h hmem

theorem Cancels.control_eq (hc : Cancels t s s') : s'.control = s.control := by
  cases hc with
  | destroy ht hs hb => exact hb.control_eq
  | _ => rfl

/-- A cancellation that destroys nothing ends the wait of its target, if it has one. -/
theorem Cancels.effect_or (hc : Cancels t s s') (h : s.Inv) :
    (Effect s s' ∧ s'.allTasks = s.allTasks) ∨
      (t ∈ s.allTasks ∧ (s.task t).state = .ready ∧ Buries t (s.killReady t) s') := by
  cases hc with
  | nothing => exact .inl ⟨.still [] (fun _ _ => rfl) (List.append_nil _).symm (by simp), rfl⟩
  | sleep items ht hs =>
      exact .inl ⟨.wake t _ none ht (.sleep hs) rfl (List.append_nil _).symm, rfl⟩
  | chan r ht hr =>
      obtain ⟨hall, hslot⟩ := h.mem_waitq ht
      exact .inl ⟨.wake t _ _ hall (.cancelChan (Task.chanRef_of_slot hslot hr).1) rfl rfl, rfl⟩
  | select items ht hs => exact .inl ⟨.wake t _ _ ht (.select _ _ _ hs) rfl rfl, rfl⟩
  | fd w items hw ha =>
      obtain ⟨ht, -, -, hs⟩ := h.fd.owner w hw
      exact .inl ⟨.wake _ _ none ht (.fd _ _ (hs.mp ha)) rfl (List.append_nil _).symm, rfl⟩
  | join x ht =>
      obtain ⟨hall, hslot⟩ := h.mem_waitq ht
      exact .inl ⟨.wake t _ _ hall (.join _ (Task.joinWaitingOn_of_slot hslot).1) rfl rfl, rfl⟩
  | destroy ht hs hb => exact .inr ⟨ht, hs, hb⟩

end Microthread
