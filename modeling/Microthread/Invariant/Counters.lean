import Microthread.Invariant.Passage

/-!
# The counters of waiting tasks

`channel_waiting_count` and `join_waiting_count` are adjusted by many paths and
are not part of the invariant, because a cancellation of a task that waits for a
channel or a join decrements twice. Every other elementary change keeps them
exact and never reaches the guard of a decrement at zero.
-/

namespace Microthread

open Foundation

/-- The states that `channel_waiting_count` counts. -/
def TaskState.onChannel : TaskState → Bool
  | .waitingChan | .waitingSelect => true
  | _ => false

namespace Rt

variable {s s' : Rt} {t : TaskId} {k' : Task}

/-- The counters are exact, and no guard has swallowed a decrement. -/
structure Counted (s : Rt) : Prop where
  chan : s.channelWaitingCount = s.allTasks.countP fun t => (s.task t).state.onChannel
  join : s.joinWaitingCount = s.allTasks.countP fun t => decide ((s.task t).state = .waitingJoin)
  exact : s.suppressed = false

theorem Counted.congr (h : s.Counted) (hall : s'.allTasks = s.allTasks)
    (htask : ∀ u ∈ s.allTasks, (s'.task u).state = (s.task u).state)
    (hchan : s'.channelWaitingCount = s.channelWaitingCount)
    (hjoin : s'.joinWaitingCount = s.joinWaitingCount) (hsup : s'.suppressed = s.suppressed) :
    s'.Counted := by
  refine ⟨?_, ?_, hsup.trans h.exact⟩
  · rw [hchan, h.chan, hall]
    exact List.countP_congr fun u hu => by rw [htask u hu]
  · rw [hjoin, h.join, hall]
    exact List.countP_congr fun u hu => by rw [htask u hu]

/-- One task changes its state and the counters follow. -/
theorem Counted.update (h : s.Counted) (hn : s.allTasks.Nodup) (ht : t ∈ s.allTasks)
    (hall : s'.allTasks = s.allTasks) (htask : s'.task = Function.update s.task t k')
    (hchan : s'.channelWaitingCount + (if (s.task t).state.onChannel then 1 else 0) =
      s.channelWaitingCount + if k'.state.onChannel then 1 else 0)
    (hjoin : s'.joinWaitingCount + (if (s.task t).state = .waitingJoin then 1 else 0) =
      s.joinWaitingCount + if k'.state = .waitingJoin then 1 else 0)
    (hsup : s'.suppressed = false) : s'.Counted := by
  refine ⟨?_, ?_, hsup⟩
  · have hsum := countP_update (f := s.task) (v := k') (p := fun k : Task => k.state.onChannel) hn ht
    rw [hall, htask]
    have := h.chan
    omega
  · have hsum := countP_update (f := s.task) (v := k')
      (p := fun k : Task => decide (k.state = .waitingJoin)) hn ht
    simp only [decide_eq_true_eq] at hsum
    rw [hall, htask]
    have := h.join
    omega

theorem Counted.chan_pos (h : s.Counted) (ht : t ∈ s.allTasks)
    (hs : (s.task t).state.onChannel = true) : 0 < s.channelWaitingCount := by
  rw [h.chan]
  exact List.countP_pos_iff.mpr ⟨t, ht, hs⟩

theorem Counted.join_pos (h : s.Counted) (ht : t ∈ s.allTasks)
    (hs : (s.task t).state = .waitingJoin) : 0 < s.joinWaitingCount := by
  rw [h.join]
  exact List.countP_pos_iff.mpr ⟨t, ht, by simpa using hs⟩

/-! ## Elementary changes -/

theorem Inv.waitq_pos (h : s.Inv) {r : WaitqRef} (ht : t ∈ (s.waitq r).items) :
    ((s.waitq r).count == 0) = false := by
  have hex := h.task.waitqExact r
  have := List.length_pos_of_mem ht
  simp only [Queue.Exact] at hex
  simp
  omega

theorem Inv.waitingChan_of_mem (h : s.Inv) {r : WaitqRef} (hr : r.chan? ≠ none)
    (ht : t ∈ (s.waitq r).items) : t ∈ s.allTasks ∧ (s.task t).state = .waitingChan := by
  obtain ⟨hmem, hslot⟩ := h.mem_waitq ht
  exact ⟨hmem, (Task.chanRef_of_slot hslot hr).1⟩

theorem Inv.waitingJoin_of_mem (h : s.Inv) {x : HandleId} (ht : t ∈ (s.waitq (.joiners x)).items) :
    t ∈ s.allTasks ∧ (s.task t).state = .waitingJoin := by
  obtain ⟨hmem, hslot⟩ := h.mem_waitq ht
  exact ⟨hmem, (Task.joinWaitingOn_of_slot hslot).1⟩

theorem Counted.wakeChan (h : s.Counted) (hi : s.Inv) {r : WaitqRef} (hr : r.chan? ≠ none)
    (ht : t ∈ (s.waitq r).items) (rc : Rc) : (s.wakeChan r t rc).Counted := by
  obtain ⟨hmem, hs⟩ := hi.waitingChan_of_mem hr ht
  have hpos := h.chan_pos hmem (by simp [hs, TaskState.onChannel])
  refine h.update hi.task.nodup hmem rfl rfl ?_ ?_ ?_
  · simp only [Rt.wakeChan, hs, TaskState.onChannel]
    simp
    omega
  · simp [Rt.wakeChan, hs]
  · simp [Rt.wakeChan, h.exact, hi.waitq_pos ht, Nat.pos_iff_ne_zero.mp hpos]

theorem Counted.wakeJoin (h : s.Counted) (hi : s.Inv) {x : HandleId}
    (ht : t ∈ (s.waitq (.joiners x)).items) (rc : Rc) : (s.wakeJoin x t rc).Counted := by
  obtain ⟨hmem, hs⟩ := hi.waitingJoin_of_mem ht
  have hpos := h.join_pos hmem hs
  refine h.update hi.task.nodup hmem rfl rfl ?_ ?_ ?_
  · simp [Rt.wakeJoin, hs, TaskState.onChannel]
  · simp only [Rt.wakeJoin, hs]
    simp
    omega
  · simp [Rt.wakeJoin, h.exact, hi.waitq_pos ht, Nat.pos_iff_ne_zero.mp hpos]

theorem Counted.wakeSleep (h : s.Counted) (hi : s.Inv) (hmem : t ∈ s.allTasks)
    (hs : (s.task t).state = .sleeping) (items : List TaskId) : (s.wakeSleep t items).Counted :=
  h.update hi.task.nodup hmem rfl rfl (by simp [Rt.wakeSleep, hs, TaskState.onChannel])
    (by simp [Rt.wakeSleep, hs]) h.exact

theorem Counted.wakeSelect (h : s.Counted) (hi : s.Inv) (hmem : t ∈ s.allTasks)
    (hs : (s.task t).state = .waitingSelect) (items : List TaskId) (role : Role) (rc : Rc)
    (index : Nat) : (s.wakeSelect t items role rc index).Counted := by
  have hpos := h.chan_pos hmem (by simp [hs, TaskState.onChannel])
  refine h.update hi.task.nodup hmem rfl rfl ?_ ?_ ?_
  · simp only [Rt.wakeSelect, hs, TaskState.onChannel]
    simp
    omega
  · simp [Rt.wakeSelect, Rt.dropWaiters, hs]
  · simp [Rt.wakeSelect, h.exact, Nat.pos_iff_ne_zero.mp hpos]

theorem Inv.fdWaiting_pos (h : s.Inv) {w : FdWaiterId} (hw : w ∈ s.fdWaiters)
    (ha : (s.fdw w).state = .active) : 0 < s.fdWaitingCount := by
  rw [h.fd.count]
  exact List.countP_pos_iff.mpr ⟨w, hw, by simpa using ha⟩

theorem Counted.wakeFd (h : s.Counted) (hi : s.Inv) {w : FdWaiterId} (hw : w ∈ s.fdWaiters)
    (ha : (s.fdw w).state = .active) (items : List TaskId) (rc : Rc) (ready : Nat) :
    (s.wakeFd w items rc ready).Counted := by
  obtain ⟨hmem, -, -, hstate⟩ := hi.fd.owner w hw
  have hs := hstate.mp ha
  have hpos := hi.fdWaiting_pos hw ha
  refine h.update hi.task.nodup hmem rfl rfl ?_ ?_ ?_
  · simp [Rt.wakeFd, hs, TaskState.onChannel]
  · simp [Rt.wakeFd, hs]
  · simp [Rt.wakeFd, h.exact, Nat.pos_iff_ne_zero.mp hpos]

/-- A change that touches no registered task's record. -/
theorem Counted.same (h : s.Counted) (hall : s'.allTasks = s.allTasks)
    (htask : ∀ u ∈ s.allTasks, s'.task u = s.task u)
    (hchan : s'.channelWaitingCount = s.channelWaitingCount)
    (hjoin : s'.joinWaitingCount = s.joinWaitingCount) (hsup : s'.suppressed = s.suppressed) :
    s'.Counted :=
  h.congr hall (fun u hu => by rw [htask u hu]) hchan hjoin hsup

end Rt

open Rt

variable {s s' : Rt} {t : TaskId}

theorem Drain.counted {ch : ChanId} (hd : Drain ch s s') (h : s.Counted) (hi : s.Inv) :
    s'.Counted := by
  cases hd with
  | task r t hr hclosed hhead =>
      exact h.wakeChan hi (by simp [hr]) (List.mem_of_head? hhead) .closed
  | select r w items hr hclosed hhead hs htimers =>
      exact h.wakeSelect hi (hi.mem_selectq (List.mem_of_head? hhead)).1 hs _ _ _ _

theorem Shift.counted (hm : Shift s s') (h : s.Counted) (hi : s.Inv) : s'.Counted := by
  cases hm with
  | drain hd => exact hd.counted h hi
  | timeout t items ht hs => exact h.wakeSelect hi ht hs _ _ _ _
  | wakeJoin x t hx hcomp hhead => exact h.wakeJoin hi (List.mem_of_head? hhead) _
  | wakeSleep t items ht hs => exact h.wakeSleep hi ht hs items
  | wakeFd w items rc ready hw ha => exact h.wakeFd hi hw ha items rc ready
  | wasteTask k nextId =>
      refine h.same rfl (fun u hu => ?_) rfl rfl rfl
      exact Function.update_of_ne (hi.heap.task_lt hu).ne _ _
  | _ => exact h.same rfl (fun _ _ => rfl) rfl rfl rfl

theorem Move.counted (hm : Move s s') (h : s.Counted) (hi : s.Inv) : s'.Counted := by
  cases hm with
  | shift hm => exact hm.counted h hi
  | deliver r t hr ht => exact h.wakeChan hi hr ht .ok
  | deliverSelect r w items hw hs => exact h.wakeSelect hi (hi.mem_selectq hw).1 hs _ _ _ _
  | _ => exact h.same rfl (fun _ _ => rfl) rfl rfl rfl

theorem Moves.counted (hm : Moves s s') (h : s.Counted) (hi : s.Inv) : s'.Counted := by
  induction hm with
  | refl => exact h
  | tail hpre hm ih => exact hm.counted ih (Moves.inv hpre hi)

theorem Shifts.counted (hm : Shifts s s') (h : s.Counted) (hi : s.Inv) : s'.Counted :=
  Moves.counted (Shifts.moves hm) h hi

/-! ## Creation and destruction -/

theorem Rt.Counted.spawned {n : TaskId} {k : Task} (h : s.Counted) (hn : n ∉ s.allTasks)
    (hall : s'.allTasks = n :: s.allTasks) (htask : s'.task = Function.update s.task n k)
    (hk : k.state = .ready) (hchan : s'.channelWaitingCount = s.channelWaitingCount)
    (hjoin : s'.joinWaitingCount = s.joinWaitingCount) (hsup : s'.suppressed = s.suppressed) :
    s'.Counted := by
  have hold : ∀ u ∈ s.allTasks, s'.task u = s.task u := fun u hu => by
    rw [htask, Function.update_of_ne (ne_of_mem_of_not_mem hu hn)]
  have hnew : (s'.task n).state = .ready := by simp [htask, hk]
  refine ⟨?_, ?_, hsup.trans h.exact⟩
  · rw [hchan, h.chan, hall, List.countP_cons_of_neg (by simp [hnew, TaskState.onChannel])]
    exact List.countP_congr fun u hu => by rw [hold u hu]
  · rw [hjoin, h.join, hall, List.countP_cons_of_neg (by simp [hnew])]
    exact List.countP_congr fun u hu => by rw [hold u hu]

theorem Rt.Created.counted (hc : Created s s') (h : s.Counted) (hi : s.Inv) : s'.Counted := by
  cases hc with
  | no a hs => exact Shifts.counted (Wastes.shifts hs) h hi
  | task tape => exact h.spawned (hi.fresh_task (le_refl _)) rfl rfl rfl rfl rfl rfl
  | handle tape => exact h.spawned (hi.fresh_task (Nat.le_succ _)) rfl rfl rfl rfl rfl rfl
  | chan tape elemSize capacity => exact h.same rfl (fun _ _ => rfl) rfl rfl rfl

theorem Rt.Counted.reap (h : s.Counted) (hi : s.Inv) (ht : t ∈ s.allTasks)
    (hd : (s.task t).state = .dead) : (s.reap t).Counted := by
  have hperm := List.perm_cons_erase ht
  have hsame : ∀ u ∈ s.allTasks.erase t, (s.reap t).task u = s.task u := fun u hu =>
    reap_task_of_ne s ((hi.task.nodup.mem_erase_iff.mp hu).1)
  have hcounts : (s.reap t).channelWaitingCount = s.channelWaitingCount ∧
      (s.reap t).joinWaitingCount = s.joinWaitingCount ∧
      (s.reap t).suppressed = s.suppressed := by
    unfold Rt.reap
    split <;> exact ⟨rfl, rfl, rfl⟩
  refine ⟨?_, ?_, hcounts.2.2.trans h.exact⟩
  · rw [hcounts.1, h.chan, reap_allTasks, hperm.countP_eq,
      List.countP_cons_of_neg (by simp [hd, TaskState.onChannel])]
    exact List.countP_congr fun u hu => by rw [hsame u hu]
  · rw [hcounts.2.1, h.join, reap_allTasks, hperm.countP_eq,
      List.countP_cons_of_neg (by simp [hd])]
    exact List.countP_congr fun u hu => by rw [hsame u hu]

theorem Buries.counted (hb : Buries t s s') (h : s.Counted) (hi : s.Inv) : s'.Counted := by
  obtain ⟨hm, ht, hd, -⟩ := hb
  replace hm := HandleShifts.shifts hm
  exact (Shifts.counted hm h hi).reap (Shifts.inv hm hi) ht hd

theorem Rt.Inv.live_pos (h : s.Inv) (ht : t ∈ s.allTasks) (hd : (s.task t).state ≠ .dead) :
    0 < s.liveCount := by
  rw [h.task.live]
  exact List.countP_pos_iff.mpr ⟨t, ht, by simpa using hd⟩

theorem Rt.Counted.killReady (h : s.Counted) (hi : s.Inv) (ht : t ∈ s.allTasks)
    (hs : (s.task t).state = .ready) : (s.killReady t).Counted := by
  have hlive := hi.live_pos ht (by simp [hs])
  have hrunq : s.runq.count ≠ 0 := by
    have hmem : t ∈ s.runq.items := (hi.task.placed.mem .runq t).mpr ⟨ht, by simp [Task.slot, hs]⟩
    have hex := hi.task.runqExact
    have := List.length_pos_of_mem hmem
    simp only [Queue.Exact] at hex
    omega
  exact h.update hi.task.nodup ht rfl rfl (by simp [Rt.killReady, hs, TaskState.onChannel])
    (by simp [Rt.killReady, hs])
    (by simp [Rt.killReady, h.exact, hrunq, Nat.pos_iff_ne_zero.mp hlive])

theorem Rt.Counted.die (h : s.Counted) (hi : s.Inv) (ht : t ∈ s.allTasks)
    (hs : (s.task t).state = .running) : (s.die t).Counted := by
  have hlive := hi.live_pos ht (by simp [hs])
  exact h.update hi.task.nodup ht rfl rfl (by simp [Rt.die, hs, TaskState.onChannel])
    (by simp [Rt.die, hs]) (by simp [Rt.die, h.exact, Nat.pos_iff_ne_zero.mp hlive])

theorem Rt.Counted.leave (h : s.Counted) (hpos : 0 < s.runningTasks) : s.leave.Counted :=
  ⟨h.chan, h.join, by simp [Rt.leave, h.exact, Nat.pos_iff_ne_zero.mp hpos]⟩

theorem Rt.Counted.dispatch {q : Queue TaskId} (h : s.Counted) (hi : s.Inv) (ht : t ∈ s.allTasks)
    (hs : (s.task t).state = .ready) : (s.dispatch t q).Counted :=
  h.update hi.task.nodup ht rfl rfl (by simp [Rt.dispatch, hs, TaskState.onChannel])
    (by simp [Rt.dispatch, hs]) h.exact

/-- A cancellation that does not find its task waiting for a channel or a join. -/
theorem Cancels.counted (hc : Cancels t s s') (h : s.Counted) (hi : s.Inv)
    (hchan : (s.task t).state ≠ .waitingChan) (hjoin : (s.task t).state ≠ .waitingJoin) :
    s'.Counted := by
  cases hc with
  | nothing => exact h
  | sleep items ht hs => exact h.wakeSleep hi ht hs items
  | chan r ht hr => exact absurd (hi.waitingChan_of_mem hr ht).2 hchan
  | select items ht hs => exact h.wakeSelect hi ht hs _ _ _ _
  | fd w items hw ha htask =>
      have hq : (s.unwatch w).Counted :=
        h.same rfl (fun _ _ => rfl) rfl rfl rfl
      have hiq : (s.unwatch w).Inv :=
        (Shift.quiet _ _ (s.interestWithout w) (s.filtersWithout w) _).inv hi
      exact hq.wakeFd hiq hw ha items _ _
  | join x ht => exact absurd (hi.waitingJoin_of_mem ht).2 hjoin
  | destroy ht hs hb => exact hb.counted (h.killReady hi ht hs) (hi.killReady ht hs)

end Microthread
