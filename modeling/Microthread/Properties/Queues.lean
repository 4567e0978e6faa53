import Microthread.Model.Links

/-!
# The linked queues refine lists

Whatever sequence of operations is applied to empty queues, the cells hold the
lists that the same operations on lists give, and every operation returns the same.
Only elements that are in no queue of their kind may be pushed, because the queues
of a kind share one link field.
-/

namespace Microthread

open Foundation

/-- The cells hold the queues of the runtime. -/
structure Linked (m : LinkMem) (s : Rt) : Prop where
  runq : m.runq.Rep fun _ => s.runq
  waitq : m.waitq.Rep s.waitq
  selectq : m.selectq.Rep s.selectq
  active : ∀ w, m.active w = (s.selw w).active

/-- The element of a push is in no queue of its kind. -/
def LinkOp.Fresh (s : Rt) : LinkOp → Prop
  | .runqPush t => t ∉ s.runq.items
  | .chanWaitqPush _ t => ∀ r, t ∉ (s.waitq r).items
  | .selectWaitqPush _ w => ∀ r, w ∉ (s.selectq r).items
  | _ => True

/-- The operations push only elements that are in no queue of their kind then. -/
def FreshRun (s : Rt) : List LinkOp → Prop
  | [] => True
  | op :: ops => op.Fresh s ∧ FreshRun (s.perform op).2 ops

/-- No queue has more than `n` elements. -/
structure Rt.QueuesBounded (n : Nat) (s : Rt) : Prop where
  runq : s.runq.items.length ≤ n
  waitq : ∀ r, (s.waitq r).items.length ≤ n
  selectq : ∀ r, (s.selectq r).items.length ≤ n

variable {m : LinkMem} {s : Rt} {n fuel : Nat}

theorem sizeDec_of_pos {n : Nat} (h : 0 < n) : sizeDec n = n - 1 := if_neg (by omega)

theorem guardedDec_of_pos {n : Nat} (h : 0 < n) : guardedDec n = n - 1 :=
  (if_pos h).trans (sizeDec_of_pos h)

theorem update_unit {α : Type} (f : Unit → α) (x : α) : Function.update f () x = fun _ => x :=
  funext fun _ => Function.update_self ..

/-- A waiter is marked, and nothing else changes. -/
theorem update_active {f : WaiterId → Bool} {g : WaiterId → SelectWaiter} (h : ∀ w, f w = (g w).active)
    (x : WaiterId) (b : Bool) (w : WaiterId) :
    Function.update f x b w = (Function.update g x { g x with active := b } w).active := by
  by_cases hw : w = x
  · subst hw
    rw [Function.update_self, Function.update_self]
  · rw [Function.update_of_ne hw, Function.update_of_ne hw]
    exact h w

/-- A pop from the cells returns what a pop from the list returns. -/
theorem popped_eq {α : Type} {q : Queue α} {p : Option α} (h : p = q.items.head?) :
    (q.pop = none ∧ p = none) ∨ ∃ x, q.pop = some (x, q.rest) ∧ p = some x := by
  cases hq : q.items with
  | nil => exact .inl ⟨Queue.pop_eq_none.mpr hq, by rw [h, hq, List.head?_nil]⟩
  | cons x xs =>
      have hpop : q.pop = some (x, { items := xs, count := q.count - 1 }) :=
        Queue.pop_eq_some.mpr ⟨hq, rfl⟩
      refine .inr ⟨x, ?_, by rw [h, hq, List.head?_cons]⟩
      rw [hpop, Queue.rest_of_pop_some hpop]

namespace Linked

theorem runqPop (h : Linked m s) :
    ∃ m', m.exec fuel .runqPop = some ((s.perform .runqPop).1, m') ∧
      Linked m' (s.perform .runqPop).2 := by
  obtain ⟨hhead, hrep⟩ := h.runq.pop (fun _ => sizeDec_of_pos) ()
  refine ⟨m.runqPop.2, ?_, ?_⟩
  all_goals rcases popped_eq hhead with ⟨hpop, hnone⟩ | ⟨t, hpop, hsome⟩
  · simp [LinkMem.exec, LinkMem.runqPop, Rt.perform, Rt.runqPop, Rt.popReply, hpop, hnone]
  · simp [LinkMem.exec, LinkMem.runqPop, Rt.perform, Rt.runqPop, Rt.popReply, hpop, hsome]
  · simp only [Rt.perform, Rt.runqPop, Rt.popReply, hpop, Option.map_none]
    rw [Queue.rest_of_pop_none hpop, Function.update_eq_self] at hrep
    exact ⟨hrep, h.waitq, h.selectq, h.active⟩
  · simp only [Rt.perform, Rt.runqPop, Rt.popReply, hpop, Option.map_some]
    rw [update_unit] at hrep
    exact ⟨hrep, h.waitq, h.selectq, h.active⟩

theorem chanWaitqPop (h : Linked m s) (r : WaitqRef) :
    ∃ m', m.exec fuel (.chanWaitqPop r) = some ((s.perform (.chanWaitqPop r)).1, m') ∧
      Linked m' (s.perform (.chanWaitqPop r)).2 := by
  obtain ⟨hhead, hrep⟩ := h.waitq.pop (fun _ => guardedDec_of_pos) r
  refine ⟨(m.chanWaitqPop r).2, ?_, ?_⟩
  all_goals rcases popped_eq hhead with ⟨hpop, hnone⟩ | ⟨t, hpop, hsome⟩
  · simp [LinkMem.exec, LinkMem.chanWaitqPop, Rt.perform, Rt.chanWaitqPop, Rt.popReply, hpop, hnone]
  · simp [LinkMem.exec, LinkMem.chanWaitqPop, Rt.perform, Rt.chanWaitqPop, Rt.popReply, hpop, hsome]
  · simp only [Rt.perform, Rt.chanWaitqPop, Rt.popReply, hpop, Option.map_none]
    rw [Queue.rest_of_pop_none hpop, Function.update_eq_self] at hrep
    exact ⟨h.runq, hrep, h.selectq, h.active⟩
  · simp only [Rt.perform, Rt.chanWaitqPop, Rt.popReply, hpop, Option.map_some]
    exact ⟨h.runq, hrep, h.selectq, h.active⟩

theorem selectWaitqPop (h : Linked m s) (r : SelectqRef) :
    ∃ m', m.exec fuel (.selectWaitqPop r) = some ((s.perform (.selectWaitqPop r)).1, m') ∧
      Linked m' (s.perform (.selectWaitqPop r)).2 := by
  obtain ⟨hhead, hrep⟩ := h.selectq.pop (fun _ => guardedDec_of_pos) r
  generalize hcells : m.selectq.pop guardedDec r = cells at hhead hrep
  obtain ⟨p, q⟩ := cells
  rcases popped_eq hhead with ⟨hpop, rfl⟩ | ⟨w, hpop, rfl⟩
  · have hexec : m.selectWaitqPop r = (none, { m with selectq := q }) := by
      rw [LinkMem.selectWaitqPop, hcells]
    refine ⟨{ m with selectq := q }, ?_, ?_⟩
    · simp [LinkMem.exec, Rt.perform, Rt.selectWaitqPop, Rt.popReply, hpop, hexec]
    · simp only [Rt.perform, Rt.selectWaitqPop, Rt.popReply, hpop, Option.map_none]
      rw [Queue.rest_of_pop_none hpop, Function.update_eq_self] at hrep
      exact ⟨h.runq, h.waitq, hrep, h.active⟩
  · have hexec : m.selectWaitqPop r =
        (some w, { m with selectq := q, active := Function.update m.active w false }) := by
      rw [LinkMem.selectWaitqPop, hcells]
    refine ⟨{ m with selectq := q, active := Function.update m.active w false }, ?_, ?_⟩
    · simp [LinkMem.exec, Rt.perform, Rt.selectWaitqPop, Rt.popReply, hpop, hexec]
    · simp only [Rt.perform, Rt.selectWaitqPop, Rt.popReply, hpop, Option.map_some]
      exact ⟨h.runq, h.waitq, hrep, update_active h.active w false⟩

theorem runqRemove (h : Linked m s) (t : TaskId) (hfuel : s.runq.items.length < fuel) :
    ∃ m', m.exec fuel (.runqRemove t) = some ((s.perform (.runqRemove t)).1, m') ∧
      Linked m' (s.perform (.runqRemove t)).2 := by
  obtain ⟨q, hq, hrep⟩ := h.runq.remove () t hfuel
  rw [update_unit] at hrep
  refine ⟨{ m with runq := q }, ?_, ?_⟩
  all_goals by_cases ht : t ∈ s.runq.items
  · simp [LinkMem.exec, LinkMem.runqRemove, hq, Rt.perform, Rt.runqRemove, Queue.remove_of_mem ht]
  · simp [LinkMem.exec, LinkMem.runqRemove, hq, Rt.perform, Rt.runqRemove,
      Queue.remove_of_not_mem ht]
  · simp only [Rt.perform, Rt.runqRemove, Queue.remove_of_mem ht] at hrep ⊢
    exact ⟨hrep, h.waitq, h.selectq, h.active⟩
  · simp only [Rt.perform, Rt.runqRemove, Queue.remove_of_not_mem ht] at hrep ⊢
    exact ⟨hrep, h.waitq, h.selectq, h.active⟩

theorem waitqRemove (h : Linked m s) (r : WaitqRef) (t : TaskId)
    (hfuel : (s.waitq r).items.length < fuel) :
    ∃ m', m.exec fuel (.waitqRemove r t) = some ((s.perform (.waitqRemove r t)).1, m') ∧
      Linked m' (s.perform (.waitqRemove r t)).2 := by
  obtain ⟨q, hq, hrep⟩ := h.waitq.remove r t hfuel
  refine ⟨{ m with waitq := q }, ?_, ?_⟩
  all_goals by_cases ht : t ∈ (s.waitq r).items
  · simp [LinkMem.exec, LinkMem.waitqRemove, hq, Rt.perform, Rt.waitqRemove, Queue.remove_of_mem ht]
  · simp [LinkMem.exec, LinkMem.waitqRemove, hq, Rt.perform, Rt.waitqRemove,
      Queue.remove_of_not_mem ht]
  · simp only [Rt.perform, Rt.waitqRemove, Queue.remove_of_mem ht] at hrep ⊢
    exact ⟨h.runq, hrep, h.selectq, h.active⟩
  · simp only [Rt.perform, Rt.waitqRemove, Queue.remove_of_not_mem ht, Function.update_eq_self]
      at hrep ⊢
    exact ⟨h.runq, hrep, h.selectq, h.active⟩

theorem selectWaitqRemove (h : Linked m s) (r : SelectqRef) (w : WaiterId)
    (hfuel : (s.selectq r).items.length < fuel) :
    ∃ m', m.exec fuel (.selectWaitqRemove r w) = some ((s.perform (.selectWaitqRemove r w)).1, m') ∧
      Linked m' (s.perform (.selectWaitqRemove r w)).2 := by
  obtain ⟨q, hq, hrep⟩ := h.selectq.remove r w hfuel
  by_cases hw : w ∈ (s.selectq r).items
  · rw [Queue.remove_of_mem hw] at hq hrep
    refine ⟨{ m with selectq := q, active := Function.update m.active w false }, ?_, ?_⟩
    · simp [LinkMem.exec, LinkMem.selectWaitqRemove, hq, Rt.perform, Rt.selectWaitqRemove,
        Queue.remove_of_mem hw]
    · simp only [Rt.perform, Rt.selectWaitqRemove, Queue.remove_of_mem hw]
      exact ⟨h.runq, h.waitq, hrep, update_active h.active w false⟩
  · rw [Queue.remove_of_not_mem hw] at hq hrep
    rw [Function.update_eq_self] at hrep
    refine ⟨{ m with selectq := q }, ?_, ?_⟩
    · simp [LinkMem.exec, LinkMem.selectWaitqRemove, hq, Rt.perform, Rt.selectWaitqRemove,
        Queue.remove_of_not_mem hw]
    · simp only [Rt.perform, Rt.selectWaitqRemove, Queue.remove_of_not_mem hw]
      exact ⟨h.runq, h.waitq, hrep, h.active⟩

/-- One operation on the cells and on the lists. -/
theorem exec (h : Linked m s) {op : LinkOp} (hf : op.Fresh s) (hb : s.QueuesBounded n)
    (hfuel : n < fuel) :
    ∃ m', m.exec fuel op = some ((s.perform op).1, m') ∧ Linked m' (s.perform op).2 := by
  cases op with
  | runqPush t =>
      have hrep := h.runq.push (r := ()) fun _ => hf
      rw [update_unit] at hrep
      exact ⟨_, rfl, hrep, h.waitq, h.selectq, h.active⟩
  | runqPop => exact h.runqPop
  | runqRemove t => exact h.runqRemove t (by have := hb.runq; omega)
  | chanWaitqPush r t => exact ⟨_, rfl, h.runq, h.waitq.push hf, h.selectq, h.active⟩
  | chanWaitqPop r => exact h.chanWaitqPop r
  | waitqRemove r t => exact h.waitqRemove r t (by have := hb.waitq r; omega)
  | selectWaitqPush r w =>
      exact ⟨_, rfl, h.runq, h.waitq, h.selectq.push hf, update_active h.active w true⟩
  | selectWaitqPop r => exact h.selectWaitqPop r
  | selectWaitqRemove r w => exact h.selectWaitqRemove r w (by have := hb.selectq r; omega)

end Linked

/-! ## Sequences of operations -/

theorem length_rest_le {α : Type} (q : Queue α) : q.rest.items.length ≤ q.items.length := by
  unfold Queue.rest
  split
  · exact le_rfl
  · next hq =>
      rw [hq]
      exact Nat.le_succ _

theorem length_update_le {ρ α : Type} [DecidableEq ρ] {f : ρ → Queue α} {q : Queue α}
    (h : ∀ r, (f r).items.length ≤ n) (r : ρ) (hq : q.items.length ≤ n + 1) (r' : ρ) :
    (Function.update f r q r').items.length ≤ n + 1 := by
  by_cases hr : r' = r
  · rw [hr, Function.update_self]
    exact hq
  · rw [Function.update_of_ne hr]
    exact Nat.le_succ_of_le (h r')

/-- An operation makes a queue longer by one element at most. -/
theorem Rt.QueuesBounded.perform (h : s.QueuesBounded n) (op : LinkOp) :
    (s.perform op).2.QueuesBounded (n + 1) := by
  have hrunq := Nat.le_succ_of_le h.runq
  have hwaitq := fun r => Nat.le_succ_of_le (h.waitq r)
  have hselectq := fun r => Nat.le_succ_of_le (h.selectq r)
  have hpush : ∀ {α : Type} (q : Queue α) (x : α), q.items.length ≤ n →
      (q.push x).items.length ≤ n + 1 := by
    intro α q x hq
    rw [Queue.push_items, List.length_append]
    exact Nat.succ_le_succ hq
  have hrest : ∀ {α : Type} {q k : Queue α} {x : α}, q.pop = some (x, k) → q.items.length ≤ n →
      k.items.length ≤ n + 1 := by
    intro α q k x hpop hq
    rw [← Queue.rest_of_pop_some hpop]
    exact Nat.le_succ_of_le ((length_rest_le q).trans hq)
  have herase : ∀ (q : Queue Nat) (x : Nat), q.items.length ≤ n →
      ({ items := q.items.erase x, count := q.count - 1 } : Queue Nat).items.length ≤ n + 1 :=
    fun q x hq => Nat.le_succ_of_le (List.length_erase_le.trans hq)
  cases op with
  | runqPush t => exact ⟨hpush _ t h.runq, hwaitq, hselectq⟩
  | runqPop =>
      simp only [Rt.perform, Rt.runqPop]
      cases hpop : s.runq.pop with
      | none => exact ⟨hrunq, hwaitq, hselectq⟩
      | some p => exact ⟨hrest hpop h.runq, hwaitq, hselectq⟩
  | runqRemove t =>
      simp only [Rt.perform, Rt.runqRemove]
      by_cases ht : t ∈ s.runq.items
      · rw [Queue.remove_of_mem ht]
        exact ⟨herase _ t h.runq, hwaitq, hselectq⟩
      · rw [Queue.remove_of_not_mem ht]
        exact ⟨hrunq, hwaitq, hselectq⟩
  | chanWaitqPush r t =>
      exact ⟨hrunq, length_update_le h.waitq r (hpush _ t (h.waitq r)), hselectq⟩
  | chanWaitqPop r =>
      simp only [Rt.perform, Rt.chanWaitqPop]
      cases hpop : (s.waitq r).pop with
      | none => exact ⟨hrunq, hwaitq, hselectq⟩
      | some p => exact ⟨hrunq, length_update_le h.waitq r (hrest hpop (h.waitq r)), hselectq⟩
  | waitqRemove r t =>
      simp only [Rt.perform, Rt.waitqRemove]
      by_cases ht : t ∈ (s.waitq r).items
      · rw [Queue.remove_of_mem ht]
        exact ⟨hrunq, length_update_le h.waitq r (herase _ t (h.waitq r)), hselectq⟩
      · rw [Queue.remove_of_not_mem ht]
        exact ⟨hrunq, hwaitq, hselectq⟩
  | selectWaitqPush r w =>
      exact ⟨hrunq, hwaitq, length_update_le h.selectq r (hpush _ w (h.selectq r))⟩
  | selectWaitqPop r =>
      simp only [Rt.perform, Rt.selectWaitqPop]
      cases hpop : (s.selectq r).pop with
      | none => exact ⟨hrunq, hwaitq, hselectq⟩
      | some p => exact ⟨hrunq, hwaitq, length_update_le h.selectq r (hrest hpop (h.selectq r))⟩
  | selectWaitqRemove r w =>
      simp only [Rt.perform, Rt.selectWaitqRemove]
      by_cases hw : w ∈ (s.selectq r).items
      · rw [Queue.remove_of_mem hw]
        exact ⟨hrunq, hwaitq, length_update_le h.selectq r (herase _ w (h.selectq r))⟩
      · rw [Queue.remove_of_not_mem hw]
        exact ⟨hrunq, hwaitq, hselectq⟩

theorem Linked.run {ops : List LinkOp} (h : Linked m s) (hf : FreshRun s ops)
    (hb : s.QueuesBounded n) (hfuel : n + ops.length ≤ fuel) (hpos : ops ≠ [] → n < fuel) :
    ∃ m', m.run fuel ops = some ((s.performs ops).1, m') ∧ Linked m' (s.performs ops).2 := by
  induction ops generalizing m s n with
  | nil => exact ⟨m, rfl, h⟩
  | cons op ops ih =>
      obtain ⟨m', hexec, hlinked⟩ := h.exec hf.1 hb (hpos (by simp))
      rw [List.length_cons] at hfuel
      obtain ⟨m'', hrun, hlinked'⟩ := ih hlinked hf.2 (hb.perform op) (by omega) fun hne => by
        have := List.length_pos_of_ne_nil hne
        omega
      refine ⟨m'', ?_, hlinked'⟩
      simp only [LinkMem.run, hexec, hrun, Option.map_some, Rt.performs]

/-- Whatever sequence of pushes, pops and removals is applied to empty queues of the three kinds,
the operations end, return what they return on lists, and leave cells that hold these lists: the
chain from the head of each queue is the list, its tail is the last element and is null if there
is none, and its counter is the length. -/
theorem linked_queues_refine_lists (ops : List LinkOp) (hfresh : FreshRun {} ops) (fuel : Nat)
    (hfuel : ops.length ≤ fuel) :
    ∃ m, LinkMem.run fuel {} ops = some ((Rt.performs {} ops).1, m) ∧
      Linked m (Rt.performs {} ops).2 := by
  have hempty : Linked {} {} :=
    ⟨Links.rep_empty, Links.rep_empty, Links.rep_empty, fun _ => rfl⟩
  have hbound : Rt.QueuesBounded 0 {} := ⟨le_rfl, fun _ => le_rfl, fun _ => le_rfl⟩
  refine hempty.run hfresh hbound (by omega) fun hne => ?_
  have := List.length_pos_of_ne_nil hne
  omega

/-- Senders, a receiver and select waiters are queued. The first sender and the last select waiter
are removed, and the other sender is not found among the receivers. -/
theorem linked_queues_refine_lists_middle :
    ∃ m, LinkMem.run 13 {} [.runqPush 1, .chanWaitqPush (.senders 0) 1,
        .chanWaitqPush (.receivers 0) 2, .chanWaitqPush (.senders 0) 3,
        .selectWaitqPush (.receivers 5) 7, .selectWaitqPush (.receivers 5) 8,
        .waitqRemove (.senders 0) 1, .selectWaitqRemove (.receivers 5) 8,
        .waitqRemove (.receivers 0) 3, .chanWaitqPop (.senders 0), .selectWaitqPop (.receivers 5),
        .selectWaitqPop (.receivers 5), .runqPop] =
      some ([.done, .done, .done, .done, .done, .done, .removed true, .removed true,
        .removed false, .popped (some 3), .popped (some 7), .popped none, .popped (some 1)], m) := by
  have hfresh : FreshRun {} [.runqPush 1, .chanWaitqPush (.senders 0) 1,
      .chanWaitqPush (.receivers 0) 2, .chanWaitqPush (.senders 0) 3,
      .selectWaitqPush (.receivers 5) 7, .selectWaitqPush (.receivers 5) 8,
      .waitqRemove (.senders 0) 1, .selectWaitqRemove (.receivers 5) 8,
      .waitqRemove (.receivers 0) 3, .chanWaitqPop (.senders 0), .selectWaitqPop (.receivers 5),
      .selectWaitqPop (.receivers 5), .runqPop] := by
    -- task 1 is in the run queue and in a queue of senders, which have link fields of their own
    refine ⟨List.not_mem_nil, fun _ => List.not_mem_nil, fun r => ?_, fun r => ?_,
      fun _ => List.not_mem_nil, fun r => ?_, trivial, trivial, trivial, trivial, trivial, trivial,
      trivial, trivial⟩
    all_goals
      simp only [Rt.perform, Rt.runqPush, Rt.chanWaitqPush, Rt.selectWaitqPush, Rt.setWaitq,
        Rt.setSelectq, Rt.modSelw, Function.update_apply]
      split_ifs <;> simp
  obtain ⟨m, hrun, -⟩ := linked_queues_refine_lists _ hfresh 13 (by decide)
  exact ⟨m, hrun⟩

end Microthread
