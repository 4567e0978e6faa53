import Microthread.Invariant.Parking

/-!
# Waking as elementary changes

The wake functions of the source unlink a task or a waiter, may copy a value in
between, and then complete the wait. Each of them is one elementary change.
-/

namespace Microthread

open Foundation

namespace Rt

variable {s s' : Rt} {t : TaskId}

/-- A task unlinked from a wait queue and not yet completed. -/
def unlinkTask (s : Rt) (r : WaitqRef) (t : TaskId) : Rt :=
  (s.setWaitq r ((s.waitq r).remove t).2).guarded (s.waitq r).count

theorem chanWaitqPop_eq_some {r : WaitqRef} (h : s.chanWaitqPop r = some (t, s')) :
    (s.waitq r).items.head? = some t ∧ s' = s.unlinkTask r t := by
  unfold chanWaitqPop at h
  cases hq : (s.waitq r).pop with
  | none => simp [hq] at h
  | some p =>
      obtain ⟨x, q⟩ := p
      simp only [hq, Option.map_some, Option.some.injEq, Prod.mk.injEq] at h
      obtain ⟨rfl, rfl⟩ := h
      refine ⟨by simp [(Queue.pop_eq_some.mp hq).1], ?_⟩
      rw [unlinkTask, Queue.remove_head hq]

theorem chanWaitqPop_eq_none {r : WaitqRef} : s.chanWaitqPop r = none ↔ (s.waitq r).items = [] := by
  rw [chanWaitqPop, Option.map_eq_none_iff, Queue.pop_eq_none]

theorem waitqRemove_of_mem {r : WaitqRef} (h : t ∈ (s.waitq r).items) :
    s.waitqRemove r t = (true, s.unlinkTask r t) := by
  simp only [waitqRemove, unlinkTask, Queue.remove_of_mem h]
  rfl

theorem taskCompleteChannelWait_unlinkTask (s : Rt) (r : WaitqRef) (t : TaskId) (rc : Rc) :
    (s.unlinkTask r t).taskCompleteChannelWait t rc = s.wakeChan r t rc := by
  simp [wakeChan, taskCompleteChannelWait, unlinkTask, taskMarkReady, runqPush, decChannelWaiting,
    modTask, guarded, record, setWaitq]

theorem taskCompleteJoinWait_unlinkTask (s : Rt) (h : HandleId) (t : TaskId) (rc : Rc) :
    (s.unlinkTask (.joiners h) t).taskCompleteJoinWait t rc = s.wakeJoin h t rc := by
  simp [wakeJoin, taskCompleteJoinWait, unlinkTask, taskMarkReady, runqPush, decJoinWaiting,
    modTask, guarded, record, setWaitq]

/-! ## Select waiters -/

/-- A waiter unlinked from its queue and not yet completed. -/
def unlinkWaiter (s : Rt) (r : SelectqRef) (w : WaiterId) : Rt :=
  ((s.modSelw w fun x => { x with active := false }).setSelectq r
    ((s.selectq r).remove w).2).guarded (s.selectq r).count

@[simp] theorem unlinkWaiter_selw_value (s : Rt) (r : SelectqRef) (w : WaiterId) :
    ((s.unlinkWaiter r w).selw w).value = (s.selw w).value := by
  simp [unlinkWaiter, modSelw, setSelectq, guarded]

@[simp] theorem unlinkWaiter_selw_task (s : Rt) (r : SelectqRef) (w : WaiterId) :
    ((s.unlinkWaiter r w).selw w).task = (s.selw w).task := by
  simp [unlinkWaiter, modSelw, setSelectq, guarded]

theorem selectWaitqPop_eq_some {r : SelectqRef} {w : WaiterId}
    (h : s.selectWaitqPop r = some (w, s')) :
    (s.selectq r).items.head? = some w ∧ s' = s.unlinkWaiter r w := by
  unfold selectWaitqPop at h
  cases hq : (s.selectq r).pop with
  | none => simp [hq] at h
  | some p =>
      obtain ⟨x, q⟩ := p
      simp only [hq, Option.map_some, Option.some.injEq, Prod.mk.injEq] at h
      obtain ⟨rfl, rfl⟩ := h
      refine ⟨by simp [(Queue.pop_eq_some.mp hq).1], ?_⟩
      rw [unlinkWaiter, Queue.remove_head hq]

theorem selectWaitqPop_eq_none {r : SelectqRef} :
    s.selectWaitqPop r = none ↔ (s.selectq r).items = [] := by
  rw [selectWaitqPop, Option.map_eq_none_iff, Queue.pop_eq_none]

theorem selectWaitqRemove_of_mem {r : SelectqRef} {w : WaiterId} (h : w ∈ (s.selectq r).items) :
    s.selectWaitqRemove r w = (true, s.unlinkWaiter r w) := by
  simp only [selectWaitqRemove, unlinkWaiter, Queue.remove_of_mem h]
  rfl

/-- The queues are in order, and the waiter is linked just where its record says,
or nowhere when it is inactive. -/
structure Droppable (s : Rt) (w : WaiterId) : Prop where
  exact : ∀ r, (s.selectq r).Exact
  nodup : ∀ r, (s.selectq r).items.Nodup
  op : (s.selw w).active = true → (s.selw w).op = .send ∨ (s.selw w).op = .recv
  mem : ∀ r, w ∈ (s.selectq r).items ↔ (s.selw w).active = true ∧ (s.selw w).ref = r

theorem dropWaiters_nil (h : ∀ r, (s.selectq r).Exact) : s.dropWaiters [] = s := by
  have hq : (fun r => (s.selectq r).without []) = s.selectq := by
    funext r
    exact (h r).without_of_disjoint (by simp)
  simp [dropWaiters, hq]

theorem dropWaiters_cons (s : Rt) (w : WaiterId) (ws : List WaiterId) :
    (s.dropWaiters [w]).dropWaiters ws = s.dropWaiters (w :: ws) := by
  have hq : (fun r => ((s.selectq r).without [w]).without ws) =
      fun r => (s.selectq r).without (w :: ws) := by
    funext r
    exact Queue.without_without _ _ _
  have hw : (fun x => if x ∈ ws then
        { (if x ∈ [w] then { s.selw x with active := false } else s.selw x) with active := false }
        else if x ∈ [w] then { s.selw x with active := false } else s.selw x) =
      fun x => if x ∈ w :: ws then { s.selw x with active := false } else s.selw x := by
    funext x
    by_cases h1 : x = w <;> by_cases h2 : x ∈ ws <;> simp [h1, h2]
  have hf : (fun o => s.frees o + [w].countP (fun x => o = .selectWaiter x) +
        ws.countP fun x => o = .selectWaiter x) =
      fun o => s.frees o + (w :: ws).countP fun x => o = .selectWaiter x := by
    funext o
    simp only [List.countP_cons, List.countP_nil]
    omega
  simp only [dropWaiters, hq, hw, hf]

theorem selectFreeWaiter_eq {w : WaiterId} (h : s.Droppable w) :
    s.selectFreeWaiter w = s.dropWaiters [w] := by
  have hfrees : Function.update s.frees (.selectWaiter w) (s.frees (.selectWaiter w) + 1) =
      fun o => s.frees o + [w].countP fun x => o = .selectWaiter x := by
    funext o
    by_cases ho : o = .selectWaiter w
    · subst ho
      simp
    · simp [ho]
  by_cases ha : (s.selw w).active = true
  · have hmem : w ∈ (s.selectq (s.selw w).ref).items := (h.mem _).mpr ⟨ha, rfl⟩
    have hremove : s.selectRemoveWaiterFromChannel w = (true, s.unlinkWaiter (s.selw w).ref w) := by
      unfold selectRemoveWaiterFromChannel
      rw [if_pos ha]
      rcases h.op ha with hop | hop
      · have href : (s.selw w).ref = .senders (s.selw w).ch := by simp [SelectWaiter.ref, hop]
        rw [href] at hmem ⊢
        simp only [hop]
        exact selectWaitqRemove_of_mem hmem
      · have href : (s.selw w).ref = .receivers (s.selw w).ch := by simp [SelectWaiter.ref, hop]
        rw [href] at hmem ⊢
        simp only [hop]
        exact selectWaitqRemove_of_mem hmem
    have hq : Function.update s.selectq (s.selw w).ref ((s.selectq (s.selw w).ref).remove w).2 =
        fun r => (s.selectq r).without [w] := by
      funext r
      by_cases hr : r = (s.selw w).ref
      · subst hr
        rw [Function.update_self]
        exact (h.exact _).remove_eq_without (h.nodup _) w
      · rw [Function.update_of_ne hr]
        refine ((h.exact r).without_of_disjoint ?_).symm
        intro x hx hin
        rw [List.mem_singleton.mp hx] at hin
        exact hr ((h.mem r).mp hin).2.symm
    have hw : Function.update s.selw w { s.selw w with active := false } =
        fun x => if x ∈ [w] then { s.selw x with active := false } else s.selw x := by
      funext x
      by_cases hx : x = w
      · subst hx
        simp
      · simp [hx]
    have hcount : ((s.selectq (s.selw w).ref).count == 0) = false := by
      have := (h.exact _).pos_of_mem hmem
      simp only [beq_eq_false_iff_ne]
      omega
    simp only [selectFreeWaiter, if_pos ha, hremove, unlinkWaiter, modSelw, setSelectq, guarded,
      free, dropWaiters, hq, hw, hcount, Bool.or_false, hfrees]
  · have ha' : (s.selw w).active = false := by simpa using ha
    have hq : s.selectq = fun r => (s.selectq r).without [w] := by
      funext r
      refine ((h.exact r).without_of_disjoint ?_).symm
      intro x hx hin
      rw [List.mem_singleton.mp hx] at hin
      exact ha ((h.mem r).mp hin).1
    have hw : s.selw = fun x => if x ∈ [w] then { s.selw x with active := false } else s.selw x := by
      funext x
      by_cases hx : x = w
      · subst hx
        simp [← ha']
      · simp [hx]
    simp only [selectFreeWaiter, if_neg ha, free, dropWaiters, hfrees, ← hq, ← hw]

theorem Droppable.dropWaiters {v w : WaiterId} (h : s.Droppable w) (hne : w ≠ v) :
    (s.dropWaiters [v]).Droppable w where
  exact r := Queue.exact_without _ _
  nodup r := (h.nodup r).filter _
  op := by
    rw [dropWaiters_selw_of_not_mem (by simpa using hne)]
    exact h.op
  mem r := by
    rw [dropWaiters_selw_of_not_mem (by simpa using hne), ← h.mem r]
    simp [Rt.dropWaiters, hne]

/-- Freeing the waiters one by one. -/
theorem foldl_selectFreeWaiter {ws : List WaiterId} (hexact : ∀ r, (s.selectq r).Exact)
    (h : ∀ w ∈ ws, s.Droppable w) (hnodup : ws.Nodup) :
    ws.foldl selectFreeWaiter s = s.dropWaiters ws := by
  induction ws generalizing s with
  | nil => exact (dropWaiters_nil hexact).symm
  | cons w ws ih =>
      obtain ⟨hw, hnodup⟩ := List.nodup_cons.mp hnodup
      rw [List.foldl_cons, selectFreeWaiter_eq (h w List.mem_cons_self), ih, dropWaiters_cons]
      · exact fun r => Queue.exact_without _ _
      · intro v hv
        exact (h v (List.mem_cons_of_mem w hv)).dropWaiters (ne_of_mem_of_not_mem hv hw)
      · exact hnodup

theorem SelectInv.droppable (h : s.SelectInv) (ht : t ∈ s.allTasks) {w : WaiterId}
    (hw : w ∈ (s.task t).selectWaiters) : s.Droppable w where
  exact := h.exact
  nodup := h.placed.nodup
  op _ := (h.owner t ht w hw).2.2
  mem r := by
    obtain ⟨howner, hactive, -⟩ := h.owner t ht w hw
    have hlisted : s.Listed w := ⟨by rwa [howner], by rwa [howner]⟩
    rw [h.placed.mem r w]
    simp [hlisted, hactive]

/-- A select whose waiters are gone becomes ready. -/
def readySelect (s : Rt) (t : TaskId) (items : List TaskId) (rc : Rc) (index : Nat) : Rt :=
  { s with
    timers := { s.timers with items := items }
    task := Function.update s.task t { s.task t with
      wakeNs := if (s.task t).selectInTimer then 0 else (s.task t).wakeNs
      selectInTimer := false, selectWaiters := [], selectWaiterCount := 0
      selectCountedWaiting := false, selectResult := rc, selectIndex := index, state := .ready }
    runq := s.runq.push t
    channelWaitingCount := s.channelWaitingCount - 1
    suppressed := s.suppressed || s.channelWaitingCount == 0 }

/-- What `mt_select_unpark_task` leaves, with the timers that remain. -/
def unparked (s : Rt) (t : TaskId) (items : List TaskId) (rc : Rc) (index : Nat) : Rt :=
  (s.dropWaiters (s.task t).selectWaiters).readySelect t items rc index

theorem record_unparked (s : Rt) (t : TaskId) (items : List TaskId) (role : Role) (rc : Rc)
    (index : Nat) : (s.record (.done (s.task t).call role rc)).unparked t items rc index =
      s.wakeSelect t items role rc index := rfl

/-! ## Timers -/

theorem timerLess_iff (s : Rt) (a b : TaskId) :
    s.timerLess a b = true ↔ s.timerKey a < s.timerKey b := by
  unfold timerLess timerKey
  rw [Prod.Lex.toLex_lt_toLex]
  split
  · next hne =>
      simp only [decide_eq_true_eq]
      omega
  · next heq =>
      simp only [decide_eq_true_eq]
      omega

theorem timerRemove_of_mem (h : t ∈ s.timers.items) :
    ∃ items, s.Disarms t items ∧ s.timerRemove t =
      (true, { s with timers := { s.timers with items := items } }.modTask t fun k =>
        { k with wakeNs := 0 }) := by
  obtain ⟨i, hi⟩ : ∃ i, s.timers.items.idxOf? t = some i := by
    rw [← Option.ne_none_iff_exists', Ne, List.idxOf?_eq_none_iff, not_not]
    exact h
  have hget : s.timers.items[i]? = some t := by
    rw [List.idxOf?, List.findIdx?_eq_some_iff_getElem] at hi
    obtain ⟨hlt, hbeq, -⟩ := hi
    rw [List.getElem?_eq_getElem hlt]
    simpa using hbeq
  have hlt : i < s.timers.items.length := (List.getElem?_eq_some_iff.mp hget).1
  refine ⟨_, ⟨Heap.removeAt_perm s.timerLess hget, fun ho =>
    Heap.removeAt_ordered s.timerLess_iff ho hlt⟩, ?_⟩
  simp only [timerRemove, hi]

theorem timerPop_eq_some (h : s.timerPop = some (t, s')) :
    ∃ items, s.Disarms t items ∧ s.timers.items.head? = some t ∧
      s' = { s with timers := { s.timers with items := items } }.modTask t fun k =>
        { k with wakeNs := 0 } := by
  unfold timerPop at h
  cases hp : Heap.pop s.timerLess s.timers.items with
  | none => simp [hp] at h
  | some p =>
      obtain ⟨x, items⟩ := p
      simp only [hp, Option.map_some, Option.some.injEq, Prod.mk.injEq] at h
      obtain ⟨rfl, rfl⟩ := h
      obtain ⟨hhead, hperm⟩ := Heap.pop_perm s.timerLess hp
      exact ⟨items, ⟨hperm, fun ho => Heap.pop_ordered s.timerLess_iff ho hp⟩, hhead, rfl⟩

/-! ## Unparking a select -/

theorem selectFreeTaskWaiters_eq (hexact : ∀ r, (s.selectq r).Exact)
    (hd : ∀ w ∈ (s.task t).selectWaiters, s.Droppable w) (hnodup : (s.task t).selectWaiters.Nodup) :
    s.selectFreeTaskWaiters t = (s.dropWaiters (s.task t).selectWaiters).modTask t fun k =>
      { k with selectWaiters := [], selectWaiterCount := 0 } := by
  rw [selectFreeTaskWaiters, foldl_selectFreeWaiter hexact hd hnodup]

theorem selectUnparkTask_eq (hexact : ∀ r, (s.selectq r).Exact)
    (hd : ∀ w ∈ (s.task t).selectWaiters, s.Droppable w) (hnodup : (s.task t).selectWaiters.Nodup)
    (hcounted : (s.task t).selectCountedWaiting = true)
    (hmem : (s.task t).selectInTimer = true → t ∈ s.timers.items) (rc : Rc) (index : Nat) :
    ∃ items, s.TimersAfter t items ∧
      s.selectUnparkTask t rc index = s.unparked t items rc index := by
  by_cases hin : (s.task t).selectInTimer = true
  · obtain ⟨items, hperm, hremove⟩ := timerRemove_of_mem (hmem hin)
    refine ⟨items, by simpa [TimersAfter, hin] using hperm, ?_⟩
    -- the timer goes first; the queues are those of before
    let a : Rt := ({ s with timers := { s.timers with items := items } }.modTask t fun k =>
      { k with wakeNs := 0 }).modTask t fun k => { k with selectInTimer := false }
    have hws : (a.task t).selectWaiters = (s.task t).selectWaiters := by simp [a, modTask]
    have hfree := selectFreeTaskWaiters_eq (s := a) (t := t) hexact
      (by rw [hws]; exact fun w hw => ⟨hexact, (hd w hw).nodup, (hd w hw).op, (hd w hw).mem⟩)
      (by rw [hws]; exact hnodup)
    simp only [selectUnparkTask, hin, if_true, hremove]
    change ((((a.selectFreeTaskWaiters t).taskCompleteSelectWait t).modTask t _).taskMarkReady t) = _
    rw [hfree, hws]
    simp [a, unparked, readySelect, taskCompleteSelectWait, modTask, dropWaiters, hcounted, decChannelWaiting,
      guarded, taskMarkReady, runqPush, hin]
  · refine ⟨s.timers.items, by simp [TimersAfter, hin], ?_⟩
    have hin' : (s.task t).selectInTimer = false := by simpa using hin
    simp only [selectUnparkTask, hin', Bool.false_eq_true, if_false,
      selectFreeTaskWaiters_eq hexact hd hnodup]
    simp [unparked, readySelect, taskCompleteSelectWait, modTask, dropWaiters, hcounted, decChannelWaiting,
      guarded, taskMarkReady, runqPush, hin']

theorem dropWaiters_unlinkWaiter {r : SelectqRef} {w : WaiterId} {ws : List WaiterId}
    (hexact : (s.selectq r).Exact) (hnodup : (s.selectq r).items.Nodup)
    (hmem : w ∈ (s.selectq r).items) (hw : w ∈ ws) :
    (s.unlinkWaiter r w).dropWaiters ws = s.dropWaiters ws := by
  have hq : (fun x => (Function.update s.selectq r ((s.selectq r).remove w).2 x).without ws) =
      fun x => (s.selectq x).without ws := by
    funext x
    by_cases hx : x = r
    · subst hx
      rw [Function.update_self, Queue.without_remove hnodup hw]
    · rw [Function.update_of_ne hx]
  have hs : (fun x => if x ∈ ws then
        { Function.update s.selw w { s.selw w with active := false } x with active := false }
        else Function.update s.selw w { s.selw w with active := false } x) =
      fun x => if x ∈ ws then { s.selw x with active := false } else s.selw x := by
    funext x
    by_cases hx : x = w
    · subst hx
      simp [hw]
    · simp [Function.update_of_ne hx]
  have hcount : ((s.selectq r).count == 0) = false := by
    have := hexact.pos_of_mem hmem
    simp only [beq_eq_false_iff_ne]
    omega
  simp only [unlinkWaiter, modSelw, setSelectq, guarded, dropWaiters, hq, hs, hcount, Bool.or_false]

theorem Droppable.unlinkWaiter {r : SelectqRef} {v w : WaiterId} (h : s.Droppable w)
    (hv : s.Droppable v) (hmem : v ∈ (s.selectq r).items) : (s.unlinkWaiter r v).Droppable w := by
  have hnodup := h.nodup r
  have hitems : ((s.selectq r).remove v).2.items = (s.selectq r).items.erase v := by
    rw [Queue.remove_of_mem hmem]
  constructor
  · intro x
    by_cases hx : x = r
    · subst hx
      simpa [Rt.unlinkWaiter, setSelectq, guarded, modSelw] using (h.exact x).remove v
    · simpa [Rt.unlinkWaiter, setSelectq, guarded, modSelw, Function.update_of_ne hx] using h.exact x
  · intro x
    by_cases hx : x = r
    · subst hx
      simpa [Rt.unlinkWaiter, setSelectq, guarded, modSelw, hitems] using hnodup.erase v
    · simpa [Rt.unlinkWaiter, setSelectq, guarded, modSelw, Function.update_of_ne hx] using h.nodup x
  · intro ha
    by_cases hw : w = v
    · subst hw
      simp [Rt.unlinkWaiter, setSelectq, guarded, modSelw] at ha
    · simp only [Rt.unlinkWaiter, setSelectq, guarded, modSelw, Function.update_of_ne hw] at ha ⊢
      exact h.op ha
  · intro x
    by_cases hw : w = v
    · subst hw
      have href := ((h.mem r).mp hmem).2
      by_cases hx : x = r
      · subst hx
        simp [Rt.unlinkWaiter, setSelectq, guarded, modSelw, hitems, hnodup.not_mem_erase]
      · have hne : w ∉ (s.selectq x).items := by
          intro hin
          exact hx (((h.mem x).mp hin).2.symm.trans href)
        simp [Rt.unlinkWaiter, setSelectq, guarded, modSelw, Function.update_of_ne hx, hne]
    · by_cases hx : x = r
      · subst hx
        simp only [Rt.unlinkWaiter, setSelectq, guarded, modSelw, Function.update_self, hitems,
          Function.update_of_ne hw, List.mem_erase_of_ne hw]
        exact h.mem x
      · simp only [Rt.unlinkWaiter, setSelectq, guarded, modSelw, Function.update_of_ne hw,
          Function.update_of_ne hx]
        exact h.mem x

/-- The task of a linked waiter is parked in a select that lists it, or about to be. -/
theorem Inv.select_timer (h : s.Inv) (ht : t ∈ s.allTasks)
    (hs : (s.task t).state = .waitingSelect) (hin : (s.task t).selectInTimer = true) :
    t ∈ s.timers.items :=
  (h.task.placed.mem .timers t).mpr ⟨ht, by simp [Task.slot, hs, hin]⟩

theorem Inv.selectUnparkTask (h : s.Inv) (ht : t ∈ s.allTasks)
    (hs : (s.task t).state = .waitingSelect) (role : Role) (rc : Rc) (index : Nat) :
    ∃ items, s.TimersAfter t items ∧
      (s.record (.done (s.task t).call role rc)).selectUnparkTask t rc index =
        s.wakeSelect t items role rc index := by
  obtain ⟨items, hp, heq⟩ := selectUnparkTask_eq
    (s := s.record (.done (s.task t).call role rc)) (t := t) h.select.exact
    (fun w hw => ⟨h.select.exact, h.select.placed.nodup, (h.select.droppable ht hw).op,
      (h.select.droppable ht hw).mem⟩)
    (h.select.nodup t ht) ((h.select.counted t ht).mpr hs) (h.select_timer ht hs) rc index
  exact ⟨items, hp.congr rfl rfl, heq⟩

/-- Completing a waiter that was unlinked on its own is completing its select. -/
theorem Inv.selectCompleteWaiter (h : s.Inv) {r : SelectqRef} {w : WaiterId}
    (hw : w ∈ (s.selectq r).items) (hs : (s.task (s.selw w).task).state = .waitingSelect) (rc : Rc) :
    ∃ items, s.TimersAfter (s.selw w).task items ∧
      (s.unlinkWaiter r w).selectCompleteWaiter w rc =
        s.wakeSelect (s.selw w).task items (s.selw w).role rc (s.selw w).index := by
  obtain ⟨ht, hmem, -⟩ := h.mem_selectq hw
  set t := (s.selw w).task with htdef
  set e := Event.done (s.task t).call (s.selw w).role rc
  set a := (s.record e).unlinkWaiter r w with ha
  have hdrop : ∀ v ∈ (s.task t).selectWaiters, a.Droppable v := by
    intro v hv
    have hv' := (h.select.droppable ht hv).unlinkWaiter (h.select.droppable ht hmem) hw
    exact ⟨hv'.exact, hv'.nodup, hv'.op, hv'.mem⟩
  obtain ⟨items, hp, heq⟩ := selectUnparkTask_eq (s := a) (t := t) (hdrop w hmem).exact hdrop
    (h.select.nodup t ht) ((h.select.counted t ht).mpr hs) (h.select_timer ht hs) rc (s.selw w).index
  have htask : s.task = a.task := by
    simp [ha, Rt.unlinkWaiter, modSelw, setSelectq, guarded, record]
  have htimers : s.timers = a.timers := by
    simp [ha, Rt.unlinkWaiter, modSelw, setSelectq, guarded, record]
  refine ⟨items, hp.congr htask htimers, ?_⟩
  have hstart : (s.unlinkWaiter r w).selectCompleteWaiter w rc =
      a.selectUnparkTask t rc (s.selw w).index := by
    simp [Rt.selectCompleteWaiter, ha, Rt.unlinkWaiter, modSelw, setSelectq, guarded, record,
      SelectWaiter.role, e, htdef]
  rw [hstart, heq, ← record_unparked]
  have hws := dropWaiters_unlinkWaiter (s := s.record e) (h.select.exact r)
    (h.select.placed.nodup r) hw hmem
  exact congrArg (fun d => d.readySelect t items rc (s.selw w).index) hws

/-- The timer of a select has been popped and fires. -/
theorem Inv.selectTimeoutReady (h : s.Inv) (ht : t ∈ s.allTasks)
    (hs : (s.task t).state = .waitingSelect) (hin : (s.task t).selectInTimer = true)
    (items : List TaskId) :
    ({ s with timers := { s.timers with items := items } }.modTask t fun k =>
        { k with wakeNs := 0 }).selectTimeoutReady t =
      s.wakeSelect t items .neither .ok (s.task t).selectIndex := by
  let a : Rt := (({ s with timers := { s.timers with items := items } }.modTask t fun k =>
    { k with wakeNs := 0 }).record (.done (s.task t).call .neither .ok)).modTask t fun k =>
      { k with selectInTimer := false }
  have hws : (a.task t).selectWaiters = (s.task t).selectWaiters := by simp [a, modTask, record]
  have hfree := selectFreeTaskWaiters_eq (s := a) (t := t) h.select.exact
    (by
      rw [hws]
      intro w hw
      have hd := h.select.droppable ht hw
      exact ⟨hd.exact, hd.nodup, hd.op, hd.mem⟩)
    (by rw [hws]; exact h.select.nodup t ht)
  have hcounted := (h.select.counted t ht).mpr hs
  have hstart : ({ s with timers := { s.timers with items := items } }.modTask t fun k =>
      { k with wakeNs := 0 }).selectTimeoutReady t =
      (((a.selectFreeTaskWaiters t).taskCompleteSelectWait t).modTask t fun k =>
        { k with selectResult := .ok }).taskMarkReady t := by
    simp only [Rt.selectTimeoutReady, a, modTask, Function.update_self]
  rw [hstart, hfree, hws]
  simp [a, Rt.wakeSelect, taskCompleteSelectWait, modTask, dropWaiters, hcounted, decChannelWaiting,
    guarded, taskMarkReady, runqPush, record, hin]

/-! ## Sleepers and descriptor waiters -/

theorem taskMarkReady_wakeSleep (s : Rt) (t : TaskId) (items : List TaskId) :
    ({ s with timers := { s.timers with items := items } }.modTask t fun k =>
        { k with wakeNs := 0 }).taskMarkReady t = s.wakeSleep t items := by
  simp [wakeSleep, taskMarkReady, modTask, runqPush]

theorem interestAfter_eq_self {fd : Nat} (remaining : Nat)
    (h : s.ioBackendKind ≠ .epoll ∨ s.interest fd = none) :
    s.interestAfter fd remaining = s.interest := by
  unfold interestAfter
  rcases h with h | h <;> simp [h]

theorem epollBackendRemove_eq (s : Rt) (w : FdWaiterId) (hk : s.ioBackendKind = .epoll) :
    s.epollBackendRemove w = { s with
      interest := s.interestAfter (s.fdw w).fd (s.fdActiveEventsForFd (s.fdw w).fd 0) } := by
  unfold epollBackendRemove
  simp only
  cases hi : s.interest (s.fdw w).fd with
  | none =>
      rw [interestAfter_eq_self _ (.inr hi)]
      split <;> simp [epollCtl, hi]
  | some mask =>
      have hcond : s.ioBackendKind = .epoll ∧ (s.interest (s.fdw w).fd).isSome := by simp [hk, hi]
      rw [interestAfter, if_pos hcond]
      split
      · simp [epollCtl, hi]
      · simp [epollCtl, hi]

theorem ioBackendRemove_eq (s : Rt) (w : FdWaiterId) :
    s.ioBackendRemove w = { s with
      interest := s.interestAfter (s.fdw w).fd (s.fdActiveEventsForFd (s.fdw w).fd 0)
      filters := s.filtersWithout w } := by
  unfold ioBackendRemove filtersWithout
  split
  · next hk =>
      rw [s.epollBackendRemove_eq w hk, if_neg (by simp [hk])]
  · next hk =>
      rw [interestAfter_eq_self _ (.inl (by simp [hk])), if_pos hk]
      rfl
  · next hk hk' => rw [interestAfter_eq_self _ (.inl hk), if_neg hk']

theorem fdWaiterDeactivate_reserve {w : FdWaiterId} (ha : (s.fdw w).state = .active) :
    s.fdWaiterDeactivate w true = (true, { s with
      interest := s.interestWithout w, filters := s.filtersWithout w
      fdw := Function.update s.fdw w { s.fdw w with state := .readyReserved }
      fdWaitingCount := s.fdWaitingCount - 1
      suppressed := s.suppressed || s.fdWaitingCount == 0 }) := by
  have hactive : s.fdWaiterIsActive w = true := by simp [fdWaiterIsActive, ha]
  have hfd : ((s.modFdw w fun x => { x with state := .readyReserved }).fdw w).fd = (s.fdw w).fd := by
    simp [modFdw]
  have hi : (s.modFdw w fun x => { x with state := .readyReserved }).ioBackendRemove w =
      { s.modFdw w fun x => { x with state := .readyReserved } with
        interest := s.interestWithout w, filters := s.filtersWithout w } := by
    have hfilters : (s.modFdw w fun x => { x with state := .readyReserved }).filtersWithout w =
        s.filtersWithout w := by simp [filtersWithout, modFdw]
    rw [ioBackendRemove_eq, hfd, hfilters]
    rfl
  simp only [fdWaiterDeactivate, hactive, if_true, hi]
  simp [modFdw, guarded]

theorem Inv.fd_timer (h : s.Inv) (ht : t ∈ s.allTasks) (hs : (s.task t).state = .waitingFd) :
    (s.task t).fdInTimer = true ∧ t ∈ s.timers.items := by
  have hin := (h.fd.waiting t ht hs).1
  exact ⟨hin, (h.task.placed.mem .timers t).mpr ⟨ht, by simp [Task.slot, hs, hin]⟩⟩

/-- Readying an active waiter: the interest set changes, then its task is woken. -/
theorem Inv.fdReadyWaiter (h : s.Inv) {w : FdWaiterId} (hw : w ∈ s.fdWaiters)
    (ha : (s.fdw w).state = .active) (rc : Rc) (ready : Nat) :
    ∃ items, s.Disarms (s.fdw w).task items ∧
      s.fdReadyWaiter w rc ready =
        (s.unwatch w).wakeFd w items rc ready := by
  obtain ⟨ht, -, -, hstate⟩ := h.fd.owner w hw
  have hs := hstate.mp ha
  obtain ⟨hin, hmem⟩ := h.fd_timer ht hs
  have hdeact := fdWaiterDeactivate_reserve ha
  let a : Rt := { s with
    interest := s.interestWithout w, filters := s.filtersWithout w
    fdw := Function.update s.fdw w { s.fdw w with state := .readyReserved }
    fdWaitingCount := s.fdWaitingCount - 1
    suppressed := s.suppressed || s.fdWaitingCount == 0 }
  obtain ⟨items, hperm, hremove⟩ := timerRemove_of_mem (s := a) hmem
  refine ⟨items, hperm.congr rfl rfl, ?_⟩
  simp only [Rt.fdReadyWaiter, hdeact]
  rw [if_pos hin]
  change (if ((((a.timerRemove (s.fdw w).task).2.modTask _ _).modTask _ _).task _).state = _ then _
    else _) = _
  rw [hremove]
  simp [a, Rt.wakeFd, modTask, hs, taskMarkReady, runqPush]

/-- The timer of a descriptor wait has been popped and fires. -/
theorem Inv.fdTimeoutReady (h : s.Inv) (ht : t ∈ s.allTasks) (hs : (s.task t).state = .waitingFd)
    (items : List TaskId) :
    ∃ w ∈ s.fdWaiters, (s.fdw w).state = .active ∧ (s.fdw w).task = t ∧
      ({ s with timers := { s.timers with items := items } }.modTask t fun k =>
          { k with wakeNs := 0 }).fdTimeoutReady t =
        (s.unwatch w).wakeFd w items .timeout 0 := by
  obtain ⟨w, hfd⟩ := Option.ne_none_iff_exists'.mp (h.fd.waiting t ht hs).2
  obtain ⟨hw, howner⟩ := h.fd.linked t ht w hfd
  have ha : (s.fdw w).state = .active := (h.fd.owner w hw).2.2.2.mpr (by rw [howner, hs])
  let a : Rt := ({ s with timers := { s.timers with items := items } }.modTask t fun k =>
    { k with wakeNs := 0 }).modTask t fun k => { k with fdInTimer := false }
  have hdeact := fdWaiterDeactivate_reserve (s := a) ha
  refine ⟨w, hw, ha, howner, ?_⟩
  have hfd' : (a.task t).fdWaiter = some w := by simp [a, modTask, hfd]
  simp only [Rt.fdTimeoutReady]
  have hi : a.interestWithout w = s.interestWithout w := rfl
  have hf : a.filtersWithout w = s.filtersWithout w := rfl
  rw [hi, hf] at hdeact
  split
  · next v hv =>
      obtain rfl : v = w := Option.some.inj (hv.symm.trans hfd')
      change Rt.taskMarkReady (Rt.modTask (a.fdWaiterDeactivate v true).2 t _) t = _
      simp only [hdeact]
      simp [a, Rt.wakeFd, modTask, taskMarkReady, runqPush, howner]
  · next hnone => exact absurd (hnone.symm.trans hfd') (by simp)

end Rt

end Microthread
