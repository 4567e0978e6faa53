import Microthread.Invariant.Channel

/-!
# The registration section of select

`addWaiters` is the registration loop without its allocation failures. A failed
allocation ends the loop after a prefix of the cases, and `abandonSelect` takes
back what was linked. Either way registration writes only the select queues,
the waiter records, the record of the calling task and the heap (`Enrols`).
-/

namespace Microthread

open Foundation

namespace Rt

variable {s s' : Rt} {t : TaskId}

/-- The waiters of the channel cases are made and linked, counting from `i`. -/
def addWaiters (t : TaskId) : Nat → List SelectCase → Rt → Rt
  | _, [], s => s
  | i, k :: ks, s => addWaiters t (i + 1) ks (if k.isChannel then s.addWaiter t i k else s)

/-- What registration may write. -/
def Enrols (t : TaskId) (s s' : Rt) : Prop :=
  ∃ selectq selw ws count rc index inTimer counted frees made nextAddr tape, s' = { s with
    selectq := selectq, selw := selw, frees := frees, made := made, nextAddr := nextAddr
    task := Function.update s.task t { s.task t with
      selectWaiters := ws, selectWaiterCount := count, selectResult := rc, selectIndex := index
      selectInTimer := inTimer, selectCountedWaiting := counted }
    tape := tape }

theorem Enrols.refl (t : TaskId) (s : Rt) : Enrols t s s := by
  refine ⟨s.selectq, s.selw, (s.task t).selectWaiters, (s.task t).selectWaiterCount,
    (s.task t).selectResult, (s.task t).selectIndex, (s.task t).selectInTimer,
    (s.task t).selectCountedWaiting, s.frees, s.made, s.nextAddr, s.tape, ?_⟩
  rw [Function.update_eq_self]

theorem Enrols.trans {a : Rt} (h : Enrols t s a) (h' : Enrols t a s') : Enrols t s s' := by
  obtain ⟨_, _, _, _, _, _, _, _, _, _, _, _, rfl⟩ := h
  obtain ⟨q, w, ws, n, rc, i, b, c, f, m, x, tape, rfl⟩ := h'
  refine ⟨q, w, ws, n, rc, i, b, c, f, m, x, tape, ?_⟩
  simp only [Function.update_idem, Function.update_self]

theorem Enrols.task_of_ne {u : TaskId} (h : Enrols t s s') (hu : u ≠ t) :
    s'.task u = s.task u := by
  obtain ⟨_, _, _, _, _, _, _, _, _, _, _, _, rfl⟩ := h
  exact Function.update_of_ne hu _ _

end Rt

open Rt

variable {s s' : Rt} {t : TaskId}

theorem Register.enrols (hm : Register t s s') : Enrols t s s' := by
  cases hm with
  | quiet tape =>
      refine ⟨s.selectq, s.selw, (s.task t).selectWaiters, (s.task t).selectWaiterCount,
        (s.task t).selectResult, (s.task t).selectIndex, (s.task t).selectInTimer,
        (s.task t).selectCountedWaiting, s.frees, s.made, s.nextAddr, tape, ?_⟩
      rw [Function.update_eq_self]
  | prepare index => exact ⟨_, _, _, _, _, _, _, _, _, _, _, _, rfl⟩
  | setIndex index => exact ⟨_, _, _, _, _, _, _, _, _, _, _, _, rfl⟩
  | add i k => exact ⟨_, _, _, _, _, _, _, _, _, _, _, _, rfl⟩
  | abandon => exact ⟨_, _, _, _, _, _, _, _, _, _, _, _, rfl⟩

theorem Registers.enrols (hm : Registers t s s') : Enrols t s s' := by
  induction hm with
  | refl => exact .refl t s
  | tail _ hm ih => exact ih.trans hm.enrols

theorem Registers.log_eq (hm : Registers t s s') : s'.log = s.log := by
  obtain ⟨_, _, _, _, _, _, _, _, _, _, _, _, rfl⟩ := Registers.enrols hm
  rfl

namespace Rt

/-! ## The loop -/

/-- The channels of the channel cases are registered. -/
def CasesRegistered (s : Rt) (cases : List SelectCase) : Prop :=
  ∀ k ∈ cases, k.isChannel = true → k.ch.getD 0 ∈ s.channels

theorem SelectCase.isChannel_iff {k : SelectCase} :
    k.isChannel = true ↔ k.op = .send ∨ k.op = .recv := by
  simp [SelectCase.isChannel, or_comm]

theorem addWaiters_registers (t : TaskId) (i : Nat) (cases : List SelectCase)
    (hch : s.CasesRegistered cases) : Registers t s (addWaiters t i cases s) := by
  induction cases generalizing i s with
  | nil => exact .refl
  | cons k ks ih =>
      rw [addWaiters]
      by_cases hk : k.isChannel = true
      · rw [if_pos hk]
        refine .head (.add i k (SelectCase.isChannel_iff.mp hk) (hch k List.mem_cons_self hk)) ?_
        exact ih _ fun x hx => hch x (List.mem_cons_of_mem k hx)
      · rw [if_neg hk]
        exact ih _ fun x hx => hch x (List.mem_cons_of_mem k hx)

theorem addWaiters_tape (t : TaskId) (i : Nat) (cases : List SelectCase) (s : Rt)
    (tape : List Bool) :
    addWaiters t i cases { s with tape := tape } = { addWaiters t i cases s with tape := tape } := by
  induction cases generalizing i s with
  | nil => rfl
  | cons k ks ih =>
      simp only [addWaiters]
      by_cases hk : k.isChannel = true
      · simp only [if_pos hk]
        exact ih (i + 1) (s.addWaiter t i k)
      · simp only [if_neg hk]
        exact ih (i + 1) s

/-- Allocating and linking the waiter of a channel case. -/
theorem selectAddWaiter_eq {k : SelectCase} (hk : k.isChannel = true) (i : Nat) :
    s.selectAddWaiter t i k = s.addWaiter t i k := by
  rcases SelectCase.isChannel_iff.mp hk with hop | hop
  · simp [selectAddWaiter, alloc, Rt.modSelw, modTask, selectWaitqPush, setSelectq, Rt.addWaiter,
      SelectWaiter.ref, hop]
  · simp [selectAddWaiter, alloc, Rt.modSelw, modTask, selectWaitqPush, setSelectq, Rt.addWaiter,
      SelectWaiter.ref, hop]

theorem ask_eq (s : Rt) : ∃ b tape, s.ask = (b, { s with tape := tape }) := by
  unfold ask
  cases s.tape with
  | nil => exact ⟨true, s.tape, rfl⟩
  | cons b rest => exact ⟨b, rest, rfl⟩

/-- The loop registers every case, or a prefix that it then takes back. -/
theorem selectAddWaiters_eq (t : TaskId) (i : Nat) (cases : List SelectCase) (s : Rt) :
    (∃ tape, selectAddWaiters t i cases s =
        (true, { addWaiters t i cases s with tape := tape })) ∨
      ∃ n tape, selectAddWaiters t i cases s =
        (false, { addWaiters t i (cases.take n) s with tape := tape }.selectFreeTaskWaiters t) := by
  induction cases generalizing i s with
  | nil => exact .inl ⟨s.tape, rfl⟩
  | cons k ks ih =>
      by_cases hk : k.isChannel = true
      · obtain ⟨ok, tape, htape⟩ := s.ask_eq
        simp only [selectAddWaiters, if_pos hk, addWaiters]
        rw [htape]
        cases ok with
        | false => exact .inr ⟨0, tape, rfl⟩
        | true =>
            simp only [selectAddWaiter_eq hk]
            rcases ih (i + 1) ({ s with tape := tape }.addWaiter t i k) with ⟨tp, h⟩ | ⟨n, tp, h⟩
            · refine .inl ⟨tp, h.trans ?_⟩
              have := addWaiters_tape t (i + 1) ks (s.addWaiter t i k) tape
              rw [show ({ s with tape := tape } : Rt).addWaiter t i k =
                { s.addWaiter t i k with tape := tape } from rfl, this]
            · refine .inr ⟨n + 1, tp, h.trans ?_⟩
              have := addWaiters_tape t (i + 1) (ks.take n) (s.addWaiter t i k) tape
              rw [show ({ s with tape := tape } : Rt).addWaiter t i k =
                { s.addWaiter t i k with tape := tape } from rfl, this, List.take_succ_cons,
                addWaiters, if_pos hk]
      · simp only [selectAddWaiters, if_neg hk, addWaiters]
        rcases ih (i + 1) s with ⟨tp, h⟩ | ⟨n, tp, h⟩
        · exact .inl ⟨tp, h⟩
        · refine .inr ⟨n + 1, tp, h.trans ?_⟩
          rw [List.take_succ_cons, addWaiters, if_neg hk]

/-! ## What the loop adds -/

/-- The record of the waiter of case `i`. -/
def waiterOf (t : TaskId) (i : Nat) (k : SelectCase) : SelectWaiter :=
  { task := t, ch := k.ch.getD 0, op := k.op, value := k.value.getD 0, index := i, active := true }

/-- The new waiters have the addresses from the old to the new top of the heap;
each belongs to a channel case and each channel case has one. -/
structure Added (t : TaskId) (i : Nat) (cases : List SelectCase) (s s' : Rt) : Prop where
  next : s.nextAddr ≤ s'.nextAddr
  selw : ∀ w : Nat, w < s.nextAddr → s'.selw w = s.selw w
  waiters : ∀ w : Nat, w ∈ (s'.task t).selectWaiters ↔
    w ∈ (s.task t).selectWaiters ∨ (s.nextAddr ≤ w ∧ w < s'.nextAddr)
  items : ∀ r, ∃ new, (s'.selectq r).items = (s.selectq r).items ++ new ∧
    ∀ w : Nat, w ∈ new → s.nextAddr ≤ w ∧ w < s'.nextAddr
  record : ∀ w : Nat, s.nextAddr ≤ w → w < s'.nextAddr →
    ∃ j k, cases[j]? = some k ∧ k.isChannel = true ∧ s'.selw w = waiterOf t (i + j) k
  complete : ∀ j k, cases[j]? = some k → k.isChannel = true →
    ∃ w : Nat, s.nextAddr ≤ w ∧ w < s'.nextAddr ∧ s'.selw w = waiterOf t (i + j) k

theorem Added.nil (t : TaskId) (i : Nat) (s : Rt) : Added t i [] s s where
  next := le_refl _
  selw _ _ := rfl
  waiters w := by
    refine ⟨.inl, ?_⟩
    rintro (h | ⟨h1, h2⟩)
    · exact h
    · omega
  items r := ⟨[], (List.append_nil _).symm, by simp⟩
  record w h1 h2 := by omega
  complete j k h := by simp at h

/-- A case that is not on a channel adds nothing. -/
theorem Added.skip {i : Nat} {k : SelectCase} {ks : List SelectCase} (hk : ¬k.isChannel = true)
    (h : Added t (i + 1) ks s s') : Added t i (k :: ks) s s' where
  next := h.next
  selw := h.selw
  waiters := h.waiters
  items := h.items
  record w h1 h2 := by
    obtain ⟨j, x, hx, hc, hw⟩ := h.record w h1 h2
    exact ⟨j + 1, x, by simpa using hx, hc, by rw [hw, Nat.add_right_comm, Nat.add_assoc]⟩
  complete j x hx hc := by
    cases j with
    | zero =>
        simp only [List.getElem?_cons_zero, Option.some.injEq] at hx
        exact absurd (hx ▸ hc) hk
    | succ j =>
        obtain ⟨w, h1, h2, hw⟩ := h.complete j x (by simpa using hx) hc
        exact ⟨w, h1, h2, by rw [hw, Nat.add_right_comm, Nat.add_assoc]⟩

theorem addWaiter_items (s : Rt) (t : TaskId) (i : Nat) (k : SelectCase) (r : SelectqRef) :
    ((s.addWaiter t i k).selectq r).items = (s.selectq r).items ++
      if (waiterOf t i k).ref = r then [s.nextAddr] else [] := by
  by_cases hr : r = (waiterOf t i k).ref
  · subst hr
    rw [if_pos rfl]
    simp only [Rt.addWaiter, waiterOf, Function.update_self]
    rfl
  · rw [if_neg (Ne.symm hr), List.append_nil]
    exact congrArg Queue.items (Function.update_of_ne hr _ _)

theorem Added.cons {i : Nat} {k : SelectCase} {ks : List SelectCase} (hk : k.isChannel = true)
    (h : Added t (i + 1) ks (s.addWaiter t i k) s') : Added t i (k :: ks) s s' := by
  have hnext : (s.addWaiter t i k).nextAddr = s.nextAddr + 1 := rfl
  have hself : s'.selw s.nextAddr = waiterOf t i k := by
    rw [h.selw _ (by omega)]
    exact Function.update_self ..
  have hlt : s.nextAddr < s'.nextAddr := by
    have := h.next
    omega
  constructor
  · have := h.next
    omega
  · intro w hw
    rw [h.selw w (by omega)]
    exact Function.update_of_ne (Nat.ne_of_lt hw) _ _
  · intro w
    rw [h.waiters, hnext]
    simp only [Rt.addWaiter, Function.update_self, List.mem_cons]
    constructor
    · rintro ((rfl | hw) | ⟨h1, h2⟩)
      · exact .inr ⟨le_refl _, hlt⟩
      · exact .inl hw
      · exact .inr ⟨by omega, h2⟩
    · rintro (hw | ⟨h1, h2⟩)
      · exact .inl (.inr hw)
      · rcases Nat.eq_or_lt_of_le h1 with he | hl
        · exact .inl (.inl he.symm)
        · exact .inr ⟨hl, h2⟩
  · intro r
    obtain ⟨new, hnew, hmem⟩ := h.items r
    refine ⟨(if (waiterOf t i k).ref = r then [s.nextAddr] else []) ++ new, ?_, ?_⟩
    · rw [hnew, addWaiter_items, List.append_assoc]
    · intro w hw
      rcases List.mem_append.mp hw with hw | hw
      · split at hw
        · rw [List.mem_singleton.mp hw]
          exact ⟨le_refl _, hlt⟩
        · cases hw
      · have := hmem w hw
        omega
  · intro w h1 h2
    rcases Nat.eq_or_lt_of_le h1 with he | hl
    · exact ⟨0, k, rfl, hk, by rw [← he]; exact hself⟩
    · obtain ⟨j, x, hx, hc, hw⟩ := h.record w hl h2
      exact ⟨j + 1, x, by simpa using hx, hc, by rw [hw, Nat.add_right_comm, Nat.add_assoc]⟩
  · intro j x hx hc
    cases j with
    | zero =>
        simp only [List.getElem?_cons_zero, Option.some.injEq] at hx
        exact ⟨s.nextAddr, le_refl _, hlt, by rw [hself, hx]; rfl⟩
    | succ j =>
        obtain ⟨w, h1, h2, hw⟩ := h.complete j x (by simpa using hx) hc
        exact ⟨w, by omega, h2, by rw [hw, Nat.add_right_comm, Nat.add_assoc]⟩

theorem addWaiters_added (t : TaskId) (i : Nat) (cases : List SelectCase) (s : Rt) :
    Added t i cases s (addWaiters t i cases s) := by
  induction cases generalizing i s with
  | nil => exact .nil t i s
  | cons k ks ih =>
      rw [addWaiters]
      by_cases hk : k.isChannel = true
      · rw [if_pos hk]
        exact .cons hk (ih _ _)
      · rw [if_neg hk]
        exact .skip hk (ih _ _)

/-! ## Timers -/

theorem timerReserve_eq (s : Rt) (needed : Nat) :
    (∃ cap tape, s.timerReserve needed =
        (.ok, { s with tape := tape, timers := { s.timers with cap := cap } })) ∨
      ∃ tape, s.timerReserve needed = (.nomem, { s with tape := tape }) := by
  unfold timerReserve
  split
  · exact .inl ⟨s.timers.cap, s.tape, rfl⟩
  · obtain ⟨ok, tape, htape⟩ := s.ask_eq
    rw [htape]
    cases ok with
    | true => exact .inl ⟨_, tape, rfl⟩
    | false => exact .inr ⟨tape, rfl⟩

/-- Arming a timer enters the task in the heap, or fails and changes nothing. -/
theorem timerPushState_eq (s : Rt) (t : TaskId) (deadlineNs : Nat) (state : TaskState) :
    (∃ timers tape, s.Arms t timers deadlineNs ∧
        s.timerPushState t deadlineNs state = (.ok, { s with
          tape := tape, timers := timers
          task := Function.update s.task t { s.task t with
            wakeNs := deadlineNs, timerSeq := s.timers.nextSeq, state := state } })) ∨
      ∃ tape, s.timerPushState t deadlineNs state = (.nomem, { s with tape := tape }) := by
  unfold timerPushState
  rcases s.timerReserve_eq (s.timers.items.length + 1) with ⟨cap, tape, h⟩ | ⟨tape, h⟩
  · rw [h]
    refine .inl ⟨_, tape, ⟨Heap.push_perm _ _ _, fun hmem ho => ?_⟩, rfl⟩
    set a : Rt := ({ s with tape := tape, timers := { s.timers with cap := cap } } : Rt).modTask t
      fun k => { k with wakeNs := deadlineNs, timerSeq := s.timers.nextSeq, state := state } with ha
    have hkey : a.timerKey = Function.update s.timerKey t (toLex (deadlineNs, s.timers.nextSeq)) := by
      funext u
      by_cases hu : u = t
      · subst hu
        simp [ha, timerKey, modTask]
      · simp [ha, timerKey, modTask, hu]
    rw [← hkey]
    refine Heap.push_ordered a.timerLess_iff (Heap.Ordered.congr ho fun u hu => ?_) t
    rw [hkey, Function.update_of_ne (ne_of_mem_of_not_mem hu hmem)]
  · rw [h]
    exact .inr ⟨tape, rfl⟩

/-! ## The section -/

/-- The task record as registration finds it. -/
def prepareSelect (s : Rt) (t : TaskId) (index : Nat) : Rt :=
  s.modTask t fun k => { k with
    selectWaiters := [], selectWaiterCount := 0, selectResult := .ok, selectIndex := index
    selectInTimer := false, selectCountedWaiting := false }

/-- The state in which all waiters of a select are linked. -/
def enrolled (s : Rt) (t : TaskId) (cases : List SelectCase) (p : SelectPlan) (tape : List Bool) :
    Rt :=
  { addWaiters t 0 cases (s.prepareSelect t (p.timeoutIndex.getD 0)) with tape := tape }

/-- A select that parks. -/
inductive SelectParks (t : TaskId) (cases : List SelectCase) (p : SelectPlan) (s : Rt) :
    Rt → Prop where
  | untimed (tape) : p.timeoutIndex = none →
      SelectParks t cases p s ((s.enrolled t cases p tape).parkSelect t)
  | timed (tape timers wakeNs i) : p.timeoutIndex = some i →
      s.Arms t timers wakeNs →
      SelectParks t cases p s ((s.enrolled t cases p tape).parkSelectTimed t timers wakeNs i)

/-- A select whose registration failed: the queues are those of before. -/
structure SelectFails (t : TaskId) (s s' : Rt) : Prop where
  registers : Registers t s s'
  waiters : (s'.task t).selectWaiters = []
  items : ∀ r, (s'.selectq r).items = (s.selectq r).items

/-- The loop leaves everything but the waiters of the calling task's record. -/
theorem addWaiters_task (t : TaskId) (i : Nat) (cases : List SelectCase) (s : Rt) :
    ∃ ws n, (addWaiters t i cases s).task t =
      { s.task t with selectWaiters := ws, selectWaiterCount := n } := by
  induction cases generalizing i s with
  | nil => exact ⟨_, _, rfl⟩
  | cons k ks ih =>
      rw [addWaiters]
      obtain ⟨ws, n, h⟩ := ih (i + 1) (if k.isChannel then s.addWaiter t i k else s)
      refine ⟨ws, n, h.trans ?_⟩
      split
      · simp [Rt.addWaiter]
      · rfl

theorem enrolled_task (s : Rt) (t : TaskId) (cases : List SelectCase) (p : SelectPlan)
    (tape : List Bool) :
    ((s.enrolled t cases p tape).task t).selectCountedWaiting = false ∧
      ((s.enrolled t cases p tape).task t).selectInTimer = false ∧
      ((s.enrolled t cases p tape).task t).state = (s.task t).state := by
  obtain ⟨ws, n, h⟩ := addWaiters_task t 0 cases (s.prepareSelect t (p.timeoutIndex.getD 0))
  change ((addWaiters t 0 cases _).task t).selectCountedWaiting = false ∧ _
  rw [enrolled, h]
  simp [prepareSelect, modTask]

theorem taskBlockOnSelect_eq (hc : (s.task t).selectCountedWaiting = false) :
    s.taskBlockOnSelect t = s.parkSelect t := by
  simp [taskBlockOnSelect, modTask, hc, Rt.parkSelect]

section Register

variable (h : s.Inv) (ht : t ∈ s.allTasks) (hr : (s.task t).state = .running)
  (hws : (s.task t).selectWaiters = [])

include hws in
theorem enrolled_registers {cases : List SelectCase} (hch : s.CasesRegistered cases)
    (p : SelectPlan) (tape : List Bool) : Registers t s (s.enrolled t cases p tape) := by
  have hprep : Register t s (s.prepareSelect t (p.timeoutIndex.getD 0)) := .prepare _ hws
  exact (Relation.ReflTransGen.head hprep (addWaiters_registers t 0 cases hch)).tail (.quiet tape)

/-- Taking the waiters of the running task back. -/
theorem Inv.selectFreeTaskWaiters (h : s.Inv) (ht : t ∈ s.allTasks) :
    s.selectFreeTaskWaiters t = s.abandonSelect t := by
  rw [selectFreeTaskWaiters_eq h.select.exact (fun w hw => h.select.droppable ht hw)
    (h.select.nodup t ht)]
  rfl

include h ht hr in
/-- Whatever cases were registered, taking their waiters back restores the queues. -/
theorem Inv.abandon_enrolled {a : Rt} (ha : Registers t s a) (cases : List SelectCase)
    (p : SelectPlan) (tape : List Bool) (hq : a.selectq = (s.enrolled t cases p tape).selectq)
    (hwaiters : (a.task t).selectWaiters = ((s.enrolled t cases p tape).task t).selectWaiters) :
    SelectFails t s (a.selectFreeTaskWaiters t) := by
  obtain ⟨hinv, hall, hrun⟩ := Registers.inv ha h ht hr
  rw [hinv.selectFreeTaskWaiters hall]
  refine ⟨ha.tail .abandon, by simp [Rt.abandonSelect], fun r => ?_⟩
  have hadd : Added t 0 cases (s.prepareSelect t (p.timeoutIndex.getD 0))
    (addWaiters t 0 cases (s.prepareSelect t (p.timeoutIndex.getD 0))) := addWaiters_added ..
  have hmem : ∀ w : Nat, w ∈ (a.task t).selectWaiters ↔ s.nextAddr ≤ w ∧
      w < (addWaiters t 0 cases (s.prepareSelect t (p.timeoutIndex.getD 0))).nextAddr := by
    intro w
    rw [hwaiters]
    refine (hadd.waiters w).trans ?_
    simp only [prepareSelect, modTask, Function.update_self, List.not_mem_nil, false_or]
  obtain ⟨new, hnew, hfresh⟩ := hadd.items r
  have hitems : (a.selectq r).items = (s.selectq r).items ++ new := by
    rw [hq]
    exact hnew
  simp only [Rt.abandonSelect, Rt.dropWaiters, Queue.without, hitems, List.filter_append]
  have hold : (s.selectq r).items.filter (· ∉ (a.task t).selectWaiters) = (s.selectq r).items := by
    refine List.filter_eq_self.mpr fun w hw => ?_
    obtain ⟨h1, h2, -⟩ := h.mem_selectq hw
    have hlt := h.heap.fresh _ (h.heap.selectWaiter _ h1 w h2)
    simp only [decide_eq_true_eq, hmem, not_and_or]
    exact .inl (Nat.not_le.mpr hlt)
  have hgone : new.filter (· ∉ (a.task t).selectWaiters) = [] := by
    refine List.filter_eq_nil_iff.mpr fun w hw => ?_
    simp only [decide_eq_true_eq, not_not, hmem]
    exact hfresh w hw
  rw [hold, hgone, List.append_nil]

include h ht hr in
theorem Inv.abandon_tape {a : Rt} (ha : Registers t s a) (tp : List Bool) (cases : List SelectCase)
    (p : SelectPlan) (tape : List Bool) (hq : a.selectq = (s.enrolled t cases p tape).selectq)
    (hwaiters : (a.task t).selectWaiters = ((s.enrolled t cases p tape).task t).selectWaiters) :
    SelectFails t s (({ a with tape := tp } : Rt).selectFreeTaskWaiters t) :=
  h.abandon_enrolled ht hr (ha.tail (.quiet tp)) cases p tape hq hwaiters

include h ht hr in
theorem Inv.abandon_indexed {a : Rt} (ha : Registers t s a) (i : Nat) (tp : List Bool)
    (cases : List SelectCase) (p : SelectPlan) (tape : List Bool)
    (hq : a.selectq = (s.enrolled t cases p tape).selectq)
    (hwaiters : (a.task t).selectWaiters = ((s.enrolled t cases p tape).task t).selectWaiters) :
    SelectFails t s (({ a.modTask t fun k => { k with selectIndex := i } with
      tape := tp } : Rt).selectFreeTaskWaiters t) := by
  refine h.abandon_tape ht hr (ha.tail (.setIndex i)) tp cases p tape hq ?_
  rw [← hwaiters]
  simp [modTask]

include h ht hr in
/-- Parking with all waiters linked; a timer that cannot be armed takes them back. -/
theorem Inv.selectPark_of {a : Rt} (ha : Registers t s a) (cases : List SelectCase)
    (p : SelectPlan) (tape : List Bool) (nowNs : Nat)
    (hq : a.selectq = (s.enrolled t cases p tape).selectq)
    (hwaiters : (a.task t).selectWaiters = ((s.enrolled t cases p tape).task t).selectWaiters)
    (hcount : (a.task t).selectCountedWaiting = false) :
    match a.selectPark t p nowNs with
    | (.ret rc, s') => rc ≠ .ok ∧ SelectFails t s s'
    | (.park, s') => (p.timeoutIndex = none ∧ s' = a.parkSelect t) ∨
        ∃ tp timers wakeNs i, p.timeoutIndex = some i ∧
          a.Arms t timers wakeNs ∧
          s' = ({ a with tape := tp } : Rt).parkSelectTimed t timers wakeNs i := by
  unfold Rt.selectPark
  cases hi : p.timeoutIndex with
  | none =>
      simp only
      rw [taskBlockOnSelect_eq hcount]
      exact .inl ⟨trivial, rfl⟩
  | some i =>
      simp only
      rcases timerPushState_eq (a.modTask t fun k => { k with selectIndex := i }) t
          (deadlineFromTimeout nowNs p.timeoutMs) .waitingSelect with
        ⟨timers, tp, hperm, heq⟩ | ⟨tp, heq⟩
      · rw [heq]
        have hkey : (a.modTask t fun k => { k with selectIndex := i }).timerKey = a.timerKey :=
          timerKey_of_update rfl rfl rfl
        refine .inr ⟨tp, timers, deadlineFromTimeout nowNs p.timeoutMs, i, rfl,
          hperm.congr hkey.symm rfl, ?_⟩
        rw [taskBlockOnSelect_eq (by simp [modTask, hcount])]
        simp only [modTask, Rt.parkSelect, Rt.parkSelectTimed, Function.update_self,
          Function.update_idem]
      · rw [heq]
        exact ⟨by simp, h.abandon_indexed ht hr ha i tp cases p tape hq hwaiters⟩

include h ht hr hws in
theorem Inv.selectPark {cases : List SelectCase} (hch : s.CasesRegistered cases)
    (p : SelectPlan) (nowNs : Nat) (tape : List Bool) :
    match (s.enrolled t cases p tape).selectPark t p nowNs with
    | (.ret rc, s') => rc ≠ .ok ∧ SelectFails t s s'
    | (.park, s') => SelectParks t cases p s s' := by
  have henr := enrolled_registers hws hch p tape
  obtain ⟨hcount, -, -⟩ := s.enrolled_task t cases p tape
  have htimers : s.timers = (s.enrolled t cases p tape).timers := by
    obtain ⟨_, _, _, _, _, _, _, _, _, _, _, _, heq⟩ := Registers.enrols henr
    rw [heq]
  have hkey : s.timerKey = (s.enrolled t cases p tape).timerKey := by
    obtain ⟨_, _, _, _, _, _, _, _, _, _, _, _, heq⟩ := Registers.enrols henr
    exact (timerKey_of_update (congrArg Rt.task heq) rfl rfl).symm
  have key := h.selectPark_of ht hr henr cases p tape nowNs rfl rfl hcount
  generalize (s.enrolled t cases p tape).selectPark t p nowNs = r at key
  obtain ⟨_ | rc, s'⟩ := r
  · exact key
  · rcases key with ⟨hi, rfl⟩ | ⟨tp, timers, wakeNs, i, hi, hperm, rfl⟩
    · exact .untimed tape hi
    · exact .timed tp timers wakeNs i hi (hperm.congr hkey htimers)

include h ht hr hws in
/-- The registration section parks the task on all its cases, or leaves no trace in
any queue. -/
theorem Inv.selectRegister {cases : List SelectCase} (hch : s.CasesRegistered cases)
    (p : SelectPlan) (nowNs : Nat) :
    match s.selectRegister (some t) cases p nowNs with
    | (.ret rc, s') => rc ≠ .ok ∧ SelectFails t s s'
    | (.park, s') => SelectParks t cases p s s' := by
  unfold Rt.selectRegister
  simp only
  by_cases hnone : (decide (p.channelCases = 0) && p.timeoutIndex.isNone) = true
  · rw [if_pos hnone]
    exact ⟨by simp, .refl, hws, fun _ => rfl⟩
  rw [if_neg hnone]
  have hprep : (s.modTask t fun k => { k with
      selectWaiters := [], selectWaiterCount := 0, selectResult := .ok
      selectIndex := p.timeoutIndex.getD 0, selectInTimer := false
      selectCountedWaiting := false }) = s.prepareSelect t (p.timeoutIndex.getD 0) := rfl
  rw [hprep]
  rcases selectAddWaiters_eq t 0 cases (s.prepareSelect t (p.timeoutIndex.getD 0)) with
    ⟨tape, heq⟩ | ⟨n, tape, heq⟩
  · rw [heq]
    exact h.selectPark ht hr hws hch p nowNs tape
  · rw [heq]
    have hch' : s.CasesRegistered (cases.take n) := fun k hk => hch k (List.mem_of_mem_take hk)
    exact ⟨by simp, h.abandon_enrolled ht hr (enrolled_registers hws hch' p tape) _ p tape rfl rfl⟩

end Register

end Rt

end Microthread
