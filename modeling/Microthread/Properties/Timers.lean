import Microthread.Properties.Immediate
import Microthread.System.Records

/-!
# The timer heap

`timer.c` keeps a binary heap of tasks ordered by deadline and, among equal
deadlines, by the number a task drew when it was pushed. `TimerRun` is any run of
the three operations that other code may interrupt, as long as it leaves the heap
and the keys of the tasks in it alone. It remembers the order of the insertions,
which the heap itself does not keep.
-/

namespace Microthread

open Foundation

namespace Rt

/-- Code outside `timer.c` leaves the heap and the keys of the tasks in it alone. -/
def KeepsTimers (s s' : Rt) : Prop :=
  s'.timers = s.timers ∧ ∀ t ∈ s.timers.items, s'.timerKey t = s.timerKey t

/-- The records whose heap was built by `n` pushes and any number of pops and removals. The tasks
in the heap are listed in the order of their insertion. A task is pushed when it parks, so it is
in no heap then. -/
inductive TimerRun : List TaskId → Nat → Rt → Prop where
  | init {s} : s.timers = {} → TimerRun [] 0 s
  | other {order n s s'} : TimerRun order n s → s.KeepsTimers s' → TimerRun order n s'
  | push {order n s} (t deadlineNs state) : TimerRun order n s → t ∉ s.timers.items →
      TimerRun (if (s.timerPushState t deadlineNs state).1 = .ok then order ++ [t] else order)
        (n + 1) (s.timerPushState t deadlineNs state).2
  | pop {order n s t s'} : TimerRun order n s → s.timerPop = some (t, s') →
      TimerRun (order.erase t) n s'
  | remove {order n s} (t) : TimerRun order n s → TimerRun (order.erase t) n (s.timerRemove t).2

variable {s s' : Rt} {t : TaskId} {order : List TaskId} {n : Nat}

/-! ## The operations -/

theorem growCap_of_le {needed cap : Nat} (h : needed ≤ cap) (fuel : Nat) :
    growCap needed fuel cap = cap := by
  cases fuel with
  | zero => rfl
  | succ fuel => exact if_neg (Nat.not_lt.mpr h)

/-- A task enters the heap with the next number. -/
def armed (s : Rt) (t : TaskId) (deadlineNs : Nat) (state : TaskState) : Rt :=
  s.modTask t fun k => { k with wakeNs := deadlineNs, timerSeq := s.timers.nextSeq, state := state }

theorem timerPushState_cases (s : Rt) (t : TaskId) (deadlineNs : Nat) (state : TaskState)
    (hfits : s.timers.items.length ≤ s.timers.cap) :
    (∃ cap tape, s.timers.items.length < cap ∧
        cap ≤ max s.timers.cap (max 16 (2 * s.timers.items.length)) ∧
        s.timerPushState t deadlineNs state = (.ok, { s.armed t deadlineNs state with
          tape := tape
          timers := {
            items := Heap.push (s.armed t deadlineNs state).timerLess s.timers.items t
            cap := cap, nextSeq := (s.timers.nextSeq + 1) % 2 ^ 64 } })) ∨
      ∃ tape, s.timerPushState t deadlineNs state = (.nomem, { s with tape := tape }) := by
  unfold timerPushState timerReserve
  by_cases hroom : s.timers.cap ≥ s.timers.items.length + 1
  · rw [if_pos hroom]
    exact .inl ⟨s.timers.cap, s.tape, hroom, le_max_left _ _, rfl⟩
  · rw [if_neg hroom]
    have hnew : s.timers.items.length + 1 ≤ if s.timers.cap ≠ 0 then s.timers.cap * 2 else 16 := by
      split <;> omega
    have hgrow := growCap_of_le hnew 64
    obtain ⟨ok, tape, htape⟩ := s.ask_eq
    rw [htape]
    cases ok with
    | false => exact .inr ⟨tape, rfl⟩
    | true =>
        refine .inl ⟨_, tape, hnew, ?_, ?_⟩
        · split <;> omega
        · dsimp only
          rw [hgrow]
          rfl

/-- The key of `t` is given up; the other tasks keep theirs. -/
theorem timerKey_disarmed (s : Rt) (items : List TaskId) {u : TaskId} (hu : u ≠ t) :
    ({ s with timers := { s.timers with items := items } }.modTask t fun k =>
      { k with wakeNs := 0 }).timerKey u = s.timerKey u := by
  simp [timerKey, modTask, hu]

theorem timerKey_armed (s : Rt) (deadlineNs : Nat) (state : TaskState) {u : TaskId} (hu : u ≠ t) :
    (s.armed t deadlineNs state).timerKey u = s.timerKey u := by
  simp [timerKey, armed, modTask, hu]

theorem timerPop_cases (s : Rt) :
    s.timers.items = [] ∧ s.timerPop = none ∨
      ∃ t items, Heap.pop s.timerLess s.timers.items = some (t, items) ∧
        s.timerPop = some (t, { s with timers := { s.timers with items := items } }.modTask t
          fun k => { k with wakeNs := 0 }) := by
  unfold timerPop
  cases hp : Heap.pop s.timerLess s.timers.items with
  | none => exact .inl ⟨(Heap.pop_eq_none _).mp hp, rfl⟩
  | some p => exact .inr ⟨p.1, p.2, rfl, rfl⟩

theorem timerRemove_cases (s : Rt) (t : TaskId) :
    t ∉ s.timers.items ∧ s.timerRemove t = (false, s) ∨
      ∃ i, s.timers.items[i]? = some t ∧ s.timerRemove t = (true, { s with
        timers := { s.timers with items := Heap.removeAt s.timerLess s.timers.items i } }.modTask t
          fun k => { k with wakeNs := 0 }) := by
  unfold timerRemove
  cases hi : s.timers.items.idxOf? t with
  | none => exact .inl ⟨List.idxOf?_eq_none_iff.mp hi, rfl⟩
  | some i =>
      rw [List.idxOf?, List.findIdx?_eq_some_iff_getElem] at hi
      obtain ⟨hlt, hbeq, -⟩ := hi
      refine .inr ⟨i, ?_, rfl⟩
      rw [List.getElem?_eq_getElem hlt]
      simpa using hbeq

/-! ## The invariant of the heap -/

/-- What any run of the operations keeps. The numbers tell the order of insertion as long as
their counter has not come round. -/
structure TimersOk (order : List TaskId) (n : Nat) (s : Rt) : Prop where
  ordered : Heap.Ordered s.timerKey s.timers.items
  perm : order.Perm s.timers.items
  nodup : s.timers.items.Nodup
  fits : s.timers.items.length ≤ s.timers.cap
  few : s.timers.items.length ≤ n
  small : s.timers.cap ≤ max 16 (2 * n)
  numbered : n ≤ 2 ^ 64 → ∃ m ≤ n, s.timers.nextSeq = m % 2 ^ 64 ∧
    (∀ t ∈ order, (s.task t).timerSeq < m) ∧
    order.Pairwise fun a b => (s.task a).timerSeq < (s.task b).timerSeq

theorem TimersOk.other (h : TimersOk order n s) (hk : s.KeepsTimers s') : TimersOk order n s' := by
  obtain ⟨htimers, hkeys⟩ := hk
  have hseq : ∀ t ∈ order, (s'.task t).timerSeq = (s.task t).timerSeq := by
    intro t ht
    have heq := hkeys t (h.perm.mem_iff.mp ht)
    exact congrArg (fun k => (ofLex k).2) heq
  refine ⟨?_, ?_, ?_, ?_, ?_, ?_, ?_⟩
  · rw [htimers]
    exact h.ordered.congr hkeys
  · rw [htimers]
    exact h.perm
  · rw [htimers]
    exact h.nodup
  · rw [htimers]
    exact h.fits
  · rw [htimers]
    exact h.few
  · rw [htimers]
    exact h.small
  · intro hn
    obtain ⟨m, hm, hnext, hlt, hpw⟩ := h.numbered hn
    refine ⟨m, hm, by rw [htimers, hnext], fun t ht => by rw [hseq t ht]; exact hlt t ht, ?_⟩
    refine hpw.imp_of_mem fun ha hb hab => ?_
    rwa [hseq _ ha, hseq _ hb]

/-- A task leaves the heap. -/
theorem TimersOk.without (h : TimersOk order n s) {items : List TaskId}
    (hperm : s.timers.items.Perm (t :: items)) (hord : Heap.Ordered s.timerKey items) :
    TimersOk (order.erase t) n ({ s with timers := { s.timers with items := items } }.modTask t
      fun k => { k with wakeNs := 0 }) := by
  have hnodup := hperm.nodup_iff.mp h.nodup
  have ht : t ∉ items := (List.nodup_cons.mp hnodup).1
  have hlen := hperm.length_eq
  have hseq : ∀ u, (({ s with timers := { s.timers with items := items } }.modTask t
      fun k => { k with wakeNs := 0 }).task u).timerSeq = (s.task u).timerSeq := by
    intro u
    by_cases hu : u = t
    · subst hu
      simp [modTask]
    · simp [modTask, hu]
  rw [List.length_cons] at hlen
  refine ⟨?_, ?_, (List.nodup_cons.mp hnodup).2, ?_, ?_, h.small, ?_⟩
  · exact hord.congr fun u hu => timerKey_disarmed s items fun heq => ht (heq ▸ hu)
  · have := (h.perm.trans hperm).erase t
    rwa [List.erase_cons_head] at this
  · have := h.fits
    change items.length ≤ s.timers.cap
    omega
  · have := h.few
    change items.length ≤ n
    omega
  · intro hn
    obtain ⟨m, hm, hnext, hlt, hpw⟩ := h.numbered hn
    refine ⟨m, hm, hnext, fun u hu => ?_, ?_⟩
    · rw [hseq]
      exact hlt u (List.mem_of_mem_erase hu)
    · simp only [hseq]
      exact hpw.sublist List.erase_sublist

theorem TimersOk.push (h : TimersOk order n s) (ht : t ∉ s.timers.items) (deadlineNs : Nat)
    (state : TaskState) :
    TimersOk (if (s.timerPushState t deadlineNs state).1 = .ok then order ++ [t] else order)
      (n + 1) (s.timerPushState t deadlineNs state).2 := by
  rcases s.timerPushState_cases t deadlineNs state h.fits with
    ⟨cap, tape, hlt, hcap, heq⟩ | ⟨tape, heq⟩
  · rw [heq, if_pos rfl]
    have hless := (s.armed t deadlineNs state).timerLess_iff
    have hperm := Heap.push_perm (s.armed t deadlineNs state).timerLess s.timers.items t
    have hne : ∀ u ∈ s.timers.items, u ≠ t := fun u hu heq => ht (heq ▸ hu)
    have hord : Heap.Ordered (s.armed t deadlineNs state).timerKey s.timers.items :=
      h.ordered.congr fun u hu => s.timerKey_armed deadlineNs state (hne u hu)
    have hseq : ∀ u ∈ order, ((s.armed t deadlineNs state).task u).timerSeq =
        (s.task u).timerSeq := by
      intro u hu
      simp [armed, modTask, hne u (h.perm.mem_iff.mp hu)]
    have hself : ((s.armed t deadlineNs state).task t).timerSeq = s.timers.nextSeq := by
      simp [armed, modTask]
    have hfew := h.few
    refine ⟨Heap.push_ordered hless hord t, ?_, ?_, ?_, ?_, ?_, ?_⟩
    · exact (List.perm_append_singleton t order).trans ((h.perm.cons t).trans hperm.symm)
    · exact hperm.nodup_iff.mpr (List.nodup_cons.mpr ⟨ht, h.nodup⟩)
    · change (Heap.push _ _ _).length ≤ cap
      rw [hperm.length_eq]
      exact hlt
    · change (Heap.push _ _ _).length ≤ n + 1
      rw [hperm.length_eq, List.length_cons]
      omega
    · have := h.small
      change cap ≤ max 16 (2 * (n + 1))
      omega
    · intro hn
      obtain ⟨m, hm, hnext, hnum, hpw⟩ := h.numbered (by omega)
      have hnext : s.timers.nextSeq = m := by rw [hnext, Nat.mod_eq_of_lt (by omega)]
      refine ⟨m + 1, by omega, by rw [hnext], ?_, ?_⟩
      · intro u hu
        change ((s.armed t deadlineNs state).task u).timerSeq < m + 1
        rcases List.mem_append.mp hu with hu | hu
        · rw [hseq u hu]
          exact Nat.lt_succ_of_lt (hnum u hu)
        · rw [List.mem_singleton.mp hu, hself, hnext]
          exact Nat.lt_succ_self m
      · refine List.pairwise_append.mpr ⟨?_, List.pairwise_singleton _ _, ?_⟩
        · refine hpw.imp_of_mem fun ha hb hab => ?_
          change ((s.armed t deadlineNs state).task _).timerSeq <
            ((s.armed t deadlineNs state).task _).timerSeq
          rwa [hseq _ ha, hseq _ hb]
        · intro u hu v hv
          change ((s.armed t deadlineNs state).task u).timerSeq <
            ((s.armed t deadlineNs state).task v).timerSeq
          rw [List.mem_singleton.mp hv, hseq u hu, hself, hnext]
          exact hnum u hu
  · rw [heq, if_neg (by simp)]
    refine ⟨h.ordered, h.perm, h.nodup, h.fits, Nat.le_succ_of_le h.few, ?_, ?_⟩
    · exact h.small.trans (by omega)
    · intro hn
      obtain ⟨m, hm, hrest⟩ := h.numbered (by omega)
      exact ⟨m, Nat.le_succ_of_le hm, hrest⟩

theorem TimerRun.timersOk (h : TimerRun order n s) : TimersOk order n s := by
  induction h with
  | @init s htimers =>
      have hempty : s.timers.items = [] := by rw [htimers]
      have hcap : s.timers.cap = 0 := by rw [htimers]
      have hnext : s.timers.nextSeq = 0 := by rw [htimers]
      refine ⟨?_, ?_, ?_, ?_, ?_, ?_, fun _ => ⟨0, le_rfl, hnext, ?_, ?_⟩⟩
      · rw [hempty]
        intro j _ x hx
        simp at hx
      all_goals simp [hempty, hcap]
  | other _ hk ih => exact ih.other hk
  | push t deadlineNs state _ ht ih => exact ih.push ht deadlineNs state
  | @pop order n s t s' _ hpop ih =>
      rcases s.timerPop_cases with ⟨-, hnone⟩ | ⟨u, items, hheap, heq⟩
      · simp [hnone] at hpop
      · obtain ⟨rfl, rfl⟩ : u = t ∧ _ = s' := by simpa using heq.symm.trans hpop
        exact ih.without (Heap.pop_perm _ hheap).2 (Heap.pop_ordered (timerLess_iff _) ih.ordered hheap)
  | remove t _ ih =>
      rcases timerRemove_cases _ t with ⟨hnot, heq⟩ | ⟨i, hi, heq⟩
      · rw [heq, List.erase_of_not_mem fun hmem => hnot (ih.perm.mem_iff.mp hmem)]
        exact ih
      · rw [heq]
        exact ih.without (Heap.removeAt_perm _ hi) (Heap.removeAt_ordered (timerLess_iff _) ih.ordered
          (List.getElem?_eq_some_iff.mp hi).1)

/-- As long as the counter has not come round, no two tasks in the heap have the same key. -/
theorem TimersOk.keys_nodup (h : TimersOk order n s) (hn : n ≤ 2 ^ 64) :
    (s.timers.items.map s.timerKey).Nodup := by
  obtain ⟨m, -, -, -, hpw⟩ := h.numbered hn
  refine (h.perm.map s.timerKey).nodup_iff.mp (List.pairwise_map.mpr (hpw.imp fun hab heq => ?_))
  exact absurd (congrArg (fun k => (ofLex k).2) heq) (Nat.ne_of_lt hab)

/-! ## The contract of the operations -/

/-- Every element is strictly less than its children. -/
def HeapOrder (s : Rt) : Prop :=
  ∀ j, 0 < j → ∀ x ∈ s.timers.items[(j - 1) / 2]?, ∀ y ∈ s.timers.items[j]?, s.timerLess x y = true

/-- The loop moves an element up from position `i` of `items`, within the array. -/
def SiftsUp (s : Rt) (p q : List TaskId × Nat) : Prop :=
  Heap.Ends (Heap.upNext s.timerLess) Heap.InBounds p q

/-- The loop moves an element down, within the array. -/
def SiftsDown (s : Rt) (p q : List TaskId × Nat) : Prop :=
  Heap.Ends (Heap.downNext s.timerLess) Heap.InBounds p q

/-- What `mt_timer_push_state` returns and leaves. -/
inductive Pushes (s : Rt) (t : TaskId) (deadlineNs : Nat) (state : TaskState) : Rc × Rt → Prop where
  | armed (s' : Rt) (i : Nat) : s'.timers.items.Perm (t :: s.timers.items) →
      s'.task = Function.update s.task t { s.task t with
        wakeNs := deadlineNs, timerSeq := s.timers.nextSeq, state := state } →
      s'.SiftsUp (s.timers.items ++ [t], s.timers.items.length) (s'.timers.items, i) →
      Pushes s t deadlineNs state (.ok, s')
  | nomem (tape) : Pushes s t deadlineNs state (.nomem, { s with tape := tape })

/-- What `mt_timer_pop` returns and leaves. The last leaf takes the place of the root. -/
inductive Pops (s : Rt) : Option (TaskId × Rt) → Prop where
  | empty : s.timers.items = [] → Pops s none
  | root (t : TaskId) (s' : Rt) : s.timers.items.Perm (t :: s'.timers.items) →
      (∀ u ∈ s'.timers.items, s.timerLess t u = true) →
      (∀ u ∈ s'.timers.items, s'.task u = s.task u) →
      (s'.timers.items = [] ∨ ∃ rest leaf i, s.timers.items = t :: (rest ++ [leaf]) ∧
        s.SiftsDown (leaf :: rest, 0) (s'.timers.items, i)) →
      Pops s (some (t, s'))

/-- What `mt_timer_remove` returns and leaves. The last leaf takes the place of the task, unless
the task is the last leaf itself. -/
inductive Removes (s : Rt) (t : TaskId) : Bool × Rt → Prop where
  | absent : t ∉ s.timers.items → Removes s t (false, s)
  | present (s' : Rt) : s.timers.items.Perm (t :: s'.timers.items) →
      (∀ u ∈ s'.timers.items, s'.task u = s.task u) →
      (s.timers.items = s'.timers.items ++ [t] ∨ ∃ rest leaf i b j k,
        s.timers.items = rest ++ [leaf] ∧ rest[i]? = some t ∧
        s.SiftsUp (rest.set i leaf, i) (b, j) ∧ s.SiftsDown (b, j) (s'.timers.items, k)) →
      Removes s t (true, s')

theorem disarmed_task (s : Rt) {items : List TaskId} (ht : t ∉ items) (u : TaskId) (hu : u ∈ items) :
    ({ s with timers := { s.timers with items := items } }.modTask t fun k =>
      { k with wakeNs := 0 }).task u = s.task u :=
  Function.update_of_ne (fun heq : u = t => ht (heq ▸ hu)) _ _

theorem TimersOk.heapOrder (h : TimersOk order n s) (hn : n ≤ 2 ^ 64) : s.HeapOrder := by
  intro j hj x hx y hy
  exact (s.timerLess_iff x y).mpr (h.ordered.lt (h.keys_nodup hn) hj hx hy)

theorem TimersOk.pushes (h : TimersOk order n s) (t : TaskId) (deadlineNs : Nat)
    (state : TaskState) : s.Pushes t deadlineNs state (s.timerPushState t deadlineNs state) := by
  rcases s.timerPushState_cases t deadlineNs state h.fits with ⟨cap, tape, -, -, heq⟩ | ⟨tape, heq⟩
  · rw [heq]
    obtain ⟨i, hi⟩ := Heap.push_ends (s.armed t deadlineNs state).timerLess s.timers.items t
    exact .armed _ i (Heap.push_perm _ _ _) rfl hi
  · rw [heq]
    exact .nomem tape

theorem TimersOk.pops (h : TimersOk order n s) (hn : n ≤ 2 ^ 64) : s.Pops s.timerPop := by
  rcases s.timerPop_cases with ⟨hempty, hnone⟩ | ⟨t, items, hheap, heq⟩
  · rw [hnone]
    exact .empty hempty
  · rw [heq]
    obtain ⟨hhead, hperm⟩ := Heap.pop_perm s.timerLess hheap
    have ht : t ∉ items := (List.nodup_cons.mp (hperm.nodup_iff.mp h.nodup)).1
    refine .root t _ hperm ?_ (disarmed_task s ht) ?_
    · intro u hu
      have hroot : t ∈ s.timers.items[0]? := by
        rw [← List.head?_eq_getElem?]
        exact hhead
      have hmem : u ∈ s.timers.items := hperm.mem_iff.mpr (List.mem_cons_of_mem t hu)
      refine (s.timerLess_iff t u).mpr (lt_of_le_of_ne (h.ordered.root_le hroot hmem) fun hkey => ?_)
      have htu := List.inj_on_of_nodup_map (h.keys_nodup hn) (List.mem_of_getElem? hroot) hmem hkey
      exact ht (htu ▸ hu)
    · rcases Heap.pop_ends s.timerLess hheap with ⟨-, hnil⟩ | ⟨rest, leaf, i, hsplit, hends⟩
      · exact .inl hnil
      · exact .inr ⟨rest, leaf, i, hsplit, hends⟩

theorem TimersOk.removes (h : TimersOk order n s) (t : TaskId) : s.Removes t (s.timerRemove t) := by
  rcases s.timerRemove_cases t with ⟨hnot, heq⟩ | ⟨i, hi, heq⟩
  · rw [heq]
    exact .absent hnot
  · rw [heq]
    have hperm := Heap.removeAt_perm s.timerLess hi
    have ht := (List.nodup_cons.mp (hperm.nodup_iff.mp h.nodup)).1
    refine .present _ hperm (disarmed_task s ht) ?_
    rcases Heap.removeAt_ends s.timerLess hi with ⟨rest, hsplit, hrest⟩ | ⟨rest, leaf, b, j, k, h'⟩
    · refine .inl ?_
      change s.timers.items = Heap.removeAt s.timerLess s.timers.items i ++ [t]
      rw [hrest, hsplit]
    · exact .inr ⟨rest, leaf, i, b, j, k, h'⟩

/-- Any run of fewer than `2 ^ 60` pushes with any number of pops and removals keeps the heap:
every element is strictly less than its children, the elements fit the allocated array and its
size in bytes fits 64 bits. A push adds the task and nothing else or fails and changes nothing,
a pop takes the unique minimum, a removal reports whether the task was there, and the loops that
repair the order end within the array. -/
theorem timer_heap_operations (h : TimerRun order n s) (hn : n < 2 ^ 60) :
    s.HeapOrder ∧ s.timers.items.length ≤ s.timers.cap ∧ s.timers.cap * 8 < 2 ^ 64 ∧
      (∀ t deadlineNs state,
        s.Pushes t deadlineNs state (s.timerPushState t deadlineNs state)) ∧ s.Pops s.timerPop ∧
      ∀ t, s.Removes t (s.timerRemove t) := by
  have hok := h.timersOk
  have hsmall := hok.small
  exact ⟨hok.heapOrder (by omega), hok.fits, by omega, hok.pushes,
    hok.pops (by omega), hok.removes⟩

/-- Two tasks with the same deadline. -/
theorem timer_heap_operations_equal :
    (((({} : Rt).timerPushState 3 7 .sleeping).2.timerPushState 5 7 .sleeping).2).Pops
      (((({} : Rt).timerPushState 3 7 .sleeping).2.timerPushState 5 7 .sleeping).2).timerPop :=
  (timer_heap_operations ((TimerRun.init rfl |>.push 3 7 .sleeping (by simp)).push 5 7 .sleeping
    (by decide)) (by decide)).2.2.2.2.1

/-! ## Expiry -/

/-- The record that a task is left with when its timer fires. -/
def expiredTask (k : Task) : Task :=
  match k.state with
  | .waitingSelect => { k with
      wakeNs := 0, selectInTimer := false, selectWaiters := [], selectWaiterCount := 0
      selectCountedWaiting := false, selectResult := .ok, state := .ready }
  | .waitingFd => { k with
      wakeNs := 0, fdInTimer := false, fdResult := .timeout, fdReadyEvents := 0, state := .ready }
  | _ => { k with wakeNs := 0, state := .ready }

/-- One round of the loop: the popped task is woken and nothing else happens to the tasks, the
run queue and the heap. -/
theorem Inv.timerFired (h : s.Inv) {items : List TaskId} (hmem : t ∈ s.timers.items)
    (hp : s.Disarms t items) :
    ∃ s', s' = ({ s with timers := { s.timers with items := items } }.modTask t fun k =>
        { k with wakeNs := 0 }).timerFire t ∧ s'.Inv ∧ s'.timers.items = items ∧
      s'.runq.items = s.runq.items ++ [t] ∧
      s'.task = Function.update s.task t (expiredTask (s.task t)) := by
  refine ⟨_, rfl, Shifts.inv (Ticks.shifts (h.timerFire hmem hp le_rfl)) h, ?_⟩
  obtain ⟨ht, hslot⟩ := (h.task.placed.mem .timers t).mp hmem
  have hst : (({ s with timers := { s.timers with items := items } }.modTask t fun k =>
      { k with wakeNs := 0 }).task t).state = (s.task t).state := by simp [modTask]
  unfold Rt.timerFire
  rw [hst]
  cases hs : (s.task t).state with
  | waitingSelect =>
      have hin : (s.task t).selectInTimer = true := by
        by_contra hc
        simp [Task.slot, hs, hc] at hslot
      simp only
      rw [h.selectTimeoutReady ht hs hin items]
      exact ⟨rfl, rfl, by simp [Rt.wakeSelect, expiredTask, hs, hin]⟩
  | waitingFd =>
      obtain ⟨w, hw, ha, howner, heq⟩ := h.fdTimeoutReady ht hs items
      simp only
      rw [heq]
      refine ⟨rfl, by simp [Rt.wakeFd, howner], ?_⟩
      simp [Rt.wakeFd, expiredTask, howner, hs]
  | sleeping =>
      simp only
      rw [taskMarkReady_wakeSleep]
      exact ⟨rfl, rfl, by simp [Rt.wakeSleep, expiredTask, hs]⟩
  | ready => simp [Task.slot, hs] at hslot
  | running => simp [Task.slot, hs] at hslot
  | dead => simp [Task.slot, hs] at hslot
  | waitingChan => simp [Task.slot, hs] at hslot
  | waitingJoin => simp [Task.slot, hs] at hslot

/-- What a pass over the timers at `nowNs` does, if it wakes `woken` in this order. -/
structure Expires (nowNs : Nat) (s s' : Rt) (woken : List TaskId) : Prop where
  split : s.timers.items.Perm (woken ++ s'.timers.items)
  due : ∀ t ∈ woken, (s.task t).wakeNs ≤ nowNs
  later : ∀ t ∈ s'.timers.items, nowNs < (s.task t).wakeNs
  sorted : woken.Pairwise fun a b => s.timerKey a ≤ s.timerKey b
  queued : s'.runq.items = s.runq.items ++ woken
  ready : ∀ t ∈ woken, s'.task t = expiredTask (s.task t)
  others : ∀ t, t ∉ woken → s'.task t = s.task t

theorem expires_of_ordered (h : s.Inv) (ho : Heap.Ordered s.timerKey s.timers.items) (nowNs : Nat)
    {fuel : Nat} (hfuel : s.timers.items.length ≤ fuel) :
    ∃ woken, Expires nowNs s (wakeExpiredTimersLoop nowNs fuel s) woken := by
  induction fuel generalizing s with
  | zero =>
      have hnil : s.timers.items = [] := List.eq_nil_of_length_eq_zero (by omega)
      exact ⟨[], by simp [wakeExpiredTimersLoop], by simp, by simp [wakeExpiredTimersLoop, hnil],
        .nil, by simp [wakeExpiredTimersLoop], by simp, fun _ _ => rfl⟩
  | succ fuel ih =>
      have hleast : ∀ top ∈ s.timers.items.head?, ∀ t ∈ s.timers.items,
          s.timerKey top ≤ s.timerKey t := by
        intro top htop t ht
        rw [List.head?_eq_getElem?] at htop
        exact ho.root_le htop ht
      unfold Rt.wakeExpiredTimersLoop
      split
      · next hpeek =>
          have hnil : s.timers.items = [] := List.head?_eq_none_iff.mp hpeek
          exact ⟨[], by simp, by simp, by simp [hnil], .nil, by simp, by simp, fun _ _ => rfl⟩
      · next top hpeek =>
          split
          · next hnow =>
              refine ⟨[], by simp, by simp, fun t ht => ?_, .nil, by simp, by simp, fun _ _ => rfl⟩
              have hle := Prod.Lex.monotone_fst _ _ (hleast top hpeek t ht)
              exact lt_of_lt_of_le hnow hle
          · next hnow =>
              rcases s.timerPop_cases with ⟨hnil, -⟩ | ⟨t, items, hheap, heq⟩
              · rw [timerPeek, hnil] at hpeek
                simp at hpeek
              · rw [heq]
                dsimp only
                obtain ⟨hhead, hperm⟩ := Heap.pop_perm s.timerLess hheap
                obtain rfl : top = t := Option.some.inj (hpeek.symm.trans hhead)
                obtain ⟨a, ha, hinv, hitems, hrunq, htask⟩ :=
                  h.timerFired (List.mem_of_head? hhead)
                    ⟨hperm, fun ho => Heap.pop_ordered s.timerLess_iff ho hheap⟩
                rw [← ha]
                have hnot : top ∉ items :=
                  (List.nodup_cons.mp (hperm.nodup_iff.mp (h.task.placed.nodup .timers))).1
                have hsame : ∀ u, u ≠ top → a.task u = s.task u := fun u hu => by
                  rw [htask, Function.update_of_ne hu]
                have hne : ∀ u ∈ items, u ≠ top := fun u hu heq => hnot (heq ▸ hu)
                have hkey : ∀ u ∈ items, a.timerKey u = s.timerKey u := fun u hu => by
                  rw [timerKey, timerKey, hsame u (hne u hu)]
                have hord : Heap.Ordered a.timerKey a.timers.items := by
                  rw [hitems]
                  exact (Heap.pop_ordered s.timerLess_iff ho hheap).congr hkey
                have hlen := hperm.length_eq
                rw [List.length_cons] at hlen
                obtain ⟨woken, hw⟩ := ih hinv hord (by rw [hitems]; omega)
                have hsplit := hw.split
                rw [hitems] at hsplit
                have hmem : ∀ u ∈ woken, u ∈ items := fun u hu =>
                  hsplit.mem_iff.mpr (List.mem_append_left _ hu)
                have hrest : ∀ u ∈ (wakeExpiredTimersLoop nowNs fuel a).timers.items, u ∈ items :=
                  fun u hu => hsplit.mem_iff.mpr (List.mem_append_right _ hu)
                refine ⟨top :: woken, ?_, ?_, ?_, ?_, ?_, ?_, ?_⟩
                · exact hperm.trans (hsplit.cons top)
                · intro u hu
                  rcases List.mem_cons.mp hu with rfl | hu
                  · exact Nat.not_lt.mp hnow
                  · rw [← hsame u (hne u (hmem u hu))]
                    exact hw.due u hu
                · intro u hu
                  rw [← hsame u (hne u (hrest u hu))]
                  exact hw.later u hu
                · refine List.pairwise_cons.mpr ⟨fun u hu => ?_, ?_⟩
                  · exact hleast top hpeek u (hperm.mem_iff.mpr (List.mem_cons_of_mem _ (hmem u hu)))
                  · refine hw.sorted.imp_of_mem fun hu hv huv => ?_
                    rwa [hkey _ (hmem _ hu), hkey _ (hmem _ hv)] at huv
                · rw [hw.queued, hrunq, List.append_assoc, List.singleton_append]
                · intro u hu
                  rcases List.mem_cons.mp hu with rfl | hu
                  · rw [hw.others u fun hmem' => hnot (hmem u hmem'), htask, Function.update_self]
                  · rw [hw.ready u hu, hsame u (hne u (hmem u hu))]
                · intro u hu
                  obtain ⟨hutop, huw⟩ := not_or.mp (fun hor => hu (List.mem_cons.mpr hor))
                  rw [hw.others u huw, hsame u hutop]

end Rt

/-! ## The timeout case of a parked select -/

open Rt

/-- A select in progress follows the plan of its cases. -/
def Pc.Planned : Pc → Prop
  | .selectTry _ cases plan _ | .selectReg _ cases plan | .selectPark _ cases plan =>
    selectScan cases 0 {} = some plan
  | _ => True

theorem Onward.planned {c : CallId} {q p : Pc} {r : Rt} {o : Option (Role × Rc)} {es : List Event}
    (hon : Onward c q r o p es) (hq : q.Planned) : p.Planned := by
  cases hon with
  | on _ _ hpark _ _ hfol =>
      cases p with
      | selectTry d cases plan i =>
          cases i with
          | zero => exact (hfol.1 rfl).2
          | succ j =>
              rw [(hfol.2 j rfl).1] at hq
              exact hq
      | selectReg d cases plan =>
          obtain ⟨j, rfl, -⟩ := hfol
          exact hq
      | selectPark => cases hpark
      | _ => trivial
  | out => trivial

theorem Parks.planned {t : TaskId} {c : CallId} {q p : Pc} {r r' : Rt} (hp : Parks t c q r p r')
    (hq : q.Planned) : p.Planned := by
  cases hp with
  | select cases plan hpc =>
      rw [hpc] at hq
      exact hq
  | _ => trivial

/-- A task that waits in a select and has not taken a step itself was waiting there. -/
theorem Task.Step.eq_of_select {own : Prop} {k k' : Task} (h : k.Step own k') (hown : ¬own)
    (hst : k'.state = .waitingSelect) : k' = k := by
  cases h with
  | same => rfl
  | woken o hw => simp [hw.state_new] at hst
  | runs => simp at hst
  | calls _ ho | selects _ _ _ _ _ _ ho | waits ho | collects ho | leaves ho => exact absurd ho hown

namespace Sys

variable {s s' : Sys} {act : Act}

theorem planned_update {pc : Agent → Pc} (h : ∀ g, (pc g).Planned) {g : Agent} {p : Pc}
    (hp : p.Planned) : ∀ x, (Function.update pc g p x).Planned := by
  intro x
  by_cases hx : x = g
  · subst hx
    rwa [Function.update_self]
  · rw [Function.update_of_ne hx]
    exact h x

theorem Case.planned (hc : Case s act s') (h : ∀ g, (s.pc g).Planned) : ∀ g, (s'.pc g).Planned := by
  cases hc with
  | acts a env c o p es os sel _ _ _ _ _ _ hon => exact planned_update h (hon.planned (h _))
  | resumesFd w t env c v use o p es _ _ _ hon => exact planned_update h (hon.planned (h _))
  | parks w t env c p _ _ _ _ hp => exact planned_update h (hp.planned (h _))
  | dispatches w env t q =>
      refine planned_update h ?_
      split
      · trivial
      · exact h _
  | writes | descriptors | starts | startFails | loops | exits => exact h
  | _ => exact planned_update h trivial

/-- A select that waits with a timer has noted which of its cases is the timeout. -/
def TimesSelects (s : Sys) : Prop :=
  ∀ t ∈ s.rt.allTasks, (s.rt.task t).state = .waitingSelect → (s.rt.task t).selectInTimer = true →
    ∃ c cases plan, s.pc (.task t) = .selectPark c cases plan ∧
      plan.timeoutIndex = some (s.rt.task t).selectIndex

theorem timesSelects_parks {t : TaskId} {c : CallId} {q p : Pc} {r r' : Rt}
    (hp : Parks t c q r p r') (hst : (r'.task t).state = .waitingSelect)
    (hin : (r'.task t).selectInTimer = true) :
    ∃ c cases plan, p = .selectPark c cases plan ∧
      plan.timeoutIndex = some (r'.task t).selectIndex := by
  cases hp with
  | select cases plan _ _ hp =>
      refine ⟨c, cases, plan, rfl, ?_⟩
      cases hp with
      | untimed tape =>
          have hout := (r.enrolled_task t cases plan tape).2.1
          simp [Rt.parkSelect, hout] at hin
      | timed tape timers wakeNs i hi => simpa [Rt.parkSelectTimed] using hi
  | send | recv => simp [Rt.parkChan] at hst
  | join => simp [Rt.parkJoin] at hst
  | sleep => simp [Rt.parkSleep] at hst
  | yield => simp [Rt.parkYield] at hst
  | fd => simp [Rt.parkFd] at hst

theorem Case.timesSelects (hc : Case s act s') (h : s.Ok) (hI : s.TimesSelects) :
    s'.TimesSelects := by
  intro t ht hst hin
  have h' := hc.ok h
  obtain ⟨cases, plan, hpc'⟩ := (h'.fits t ht).select hst
  generalize (s'.rt.task t).call = d at hpc'
  by_cases ha : act.agent? = some (.task t)
  · have hself : ∀ {g : Agent} {p : Pc}, some g = some (.task t) →
        Function.update s.pc g p (.task t) = .selectPark d cases plan →
        p = .selectPark d cases plan := by
      intro g p hg hp
      rw [Option.some.inj hg, Function.update_self] at hp
      exact hp
    cases hc with
    | calls a call => cases hself ha hpc'
    | acts a env c o p es os sel _ _ _ _ _ _ hon =>
        have hp := hself ha hpc'
        subst hp
        cases hon with
        | on _ _ hpark => cases hpark
    | resumesFd w u env c v use o p es _ _ _ hon =>
        have hp := hself ha hpc'
        subst hp
        cases hon with
        | on _ _ hpark => cases hpark
    | returns w u | goesOn w u => cases hself ha hpc'
    | @parks w u env c p rt b _ _ _ _ hp hm =>
        obtain rfl : u = t := by simpa [Act.agent?, Actor.agent] using ha
        have htask : b.task = rt.task := hm.task_eq
        have hst : (b.task u).state = .waitingSelect := hst
        have hin : (b.task u).selectInTimer = true := hin
        rw [htask] at hst hin
        obtain ⟨c, cases, plan, hpc, hindex⟩ := timesSelects_parks hp hst hin
        refine ⟨c, cases, plan, ?_, ?_⟩
        · exact (Function.update_self ..).trans hpc
        · exact hindex.trans (congrArg (fun k => some (k u).selectIndex) htask.symm)
    | finishes w u => cases hself ha hpc'
    | writes a addr v hen hpc =>
        have hpc' : s.pc (.task t) = _ := hpc'
        rw [← Option.some.inj ha, hpc] at hpc'
        cases hpc'
    | descriptors os interest filters => exact hI t ht hst hin
    | loops w q lock hact => rcases hact with ⟨env, rfl⟩ | ⟨batch, rfl⟩ <;> cases ha
    | _ => cases ha
  · -- the record is the one of before, and then the task stands where it stood
    rcases hc.recorded h ht with ⟨hmem, hk⟩ | ⟨-, id, x, hnew⟩
    · have heq := hk.eq_of_select ha hst
      rw [heq] at hst hin ⊢
      obtain ⟨c, cases, plan, hpc, hindex⟩ := hI t hmem hst hin
      have hf : s.pc (.task t) ≠ .fresh := by simp [hpc]
      exact ⟨c, cases, plan, ((hc.pc_kept hf).resolve_left ha).trans hpc, hindex⟩
    · simp [hnew] at hst

theorem timesSelects_of_reach (h : machine.Reach Contract s) :
    s.TimesSelects ∧ ∀ g, (s.pc g).Planned := by
  refine invariant_of_cases (C := fun _ _ => True)
    (I := fun s => s.TimesSelects ∧ ∀ g, (s.pc g).Planned) ?_ ?_ (fun _ _ _ _ _ _ => trivial) ?_
    (h.mono fun _ _ hc => ⟨hc, trivial⟩)
  · intro kind
    refine ⟨fun t ht => ?_, fun g => ?_⟩
    · simp at ht
    · cases g <;> trivial
  · intro s s₀ hok hp hI
    refine ⟨?_, by rw [hp.pc_eq]; exact hI.2⟩
    rcases hp.cases hok with ⟨tape, rfl⟩ | ⟨-, hoff, rt, hb, rfl⟩
    · exact hI.1
    · intro t ht
      simp [hb.off.allTasks] at ht
  · intro s a s' hok hI _ hc
    exact ⟨hc.timesSelects hok hI.1, hc.planned hI.2⟩

end Sys

/-! ## Expiry in the order of insertion -/

namespace Rt

variable {s : Rt} {order : List TaskId} {n : Nat}

/-- A pass at `nowNs` wakes exactly the tasks that are due, each of them once, by deadline and
then by insertion; the others keep their timers and records. -/
structure WakesInOrder (order : List TaskId) (nowNs : Nat) (s s' : Rt) (woken : List TaskId) :
    Prop where
  due : woken.Perm (s.timers.items.filter fun t => (s.task t).wakeNs ≤ nowNs)
  left : s'.timers.items.Perm (s.timers.items.filter fun t => nowNs < (s.task t).wakeNs)
  sorted : woken.Pairwise fun a b => (s.task a).wakeNs < (s.task b).wakeNs ∨
    (s.task a).wakeNs = (s.task b).wakeNs ∧ order.idxOf a < order.idxOf b
  queued : s'.runq.items = s.runq.items ++ woken
  once : (s.runq.items ++ woken).Nodup
  ready : ∀ t ∈ woken, s'.task t = expiredTask (s.task t)
  others : ∀ t, t ∉ woken → s'.task t = s.task t

/-- Among the tasks in the heap a smaller number means an earlier insertion. -/
theorem TimersOk.idxOf_lt (h : TimersOk order n s) (hn : n ≤ 2 ^ 64) {a b : TaskId}
    (ha : a ∈ order) (hb : b ∈ order) (hab : a ≠ b)
    (hseq : (s.task a).timerSeq ≤ (s.task b).timerSeq) : order.idxOf a < order.idxOf b := by
  obtain ⟨m, -, -, -, hpw⟩ := h.numbered hn
  have hia := List.idxOf_lt_length_of_mem ha
  have hib := List.idxOf_lt_length_of_mem hb
  by_contra hle
  rcases Nat.lt_or_eq_of_le (Nat.not_lt.mp hle) with hlt | heq
  · have := List.pairwise_iff_getElem.mp hpw _ _ hib hia hlt
    simp only [List.getElem_idxOf] at this
    exact absurd hseq (Nat.not_le.mpr this)
  · exact hab ((List.idxOf_inj ha).mp heq.symm)

theorem Expires.wakesInOrder {nowNs : Nat} {s' : Rt} {woken : List TaskId}
    (hx : Expires nowNs s s' woken)
    (hok : TimersOk order n s) (hinv : s.Inv) (hn : n ≤ 2 ^ 64) :
    WakesInOrder order nowNs s s' woken := by
  have hmem : ∀ t ∈ woken, t ∈ s.timers.items := fun t ht =>
    hx.split.mem_iff.mpr (List.mem_append_left _ ht)
  have hnodup := List.nodup_append.mp (hx.split.nodup_iff.mp hok.nodup)
  have hnow : ∀ t ∈ woken, decide ((s.task t).wakeNs ≤ nowNs) = true := fun t ht =>
    decide_eq_true (hx.due t ht)
  have hlater : ∀ t ∈ s'.timers.items, decide (nowNs < (s.task t).wakeNs) = true := fun t ht =>
    decide_eq_true (hx.later t ht)
  refine ⟨?_, ?_, ?_, hx.queued, ?_, hx.ready, hx.others⟩
  · refine List.Perm.trans (.of_eq ?_) (hx.split.filter _).symm
    rw [List.filter_append, List.filter_eq_self.mpr hnow, List.filter_eq_nil_iff.mpr, List.append_nil]
    intro t ht
    simpa using hx.later t ht
  · refine List.Perm.trans (.of_eq ?_) (hx.split.filter _).symm
    rw [List.filter_append, List.filter_eq_self.mpr hlater, List.filter_eq_nil_iff.mpr,
      List.nil_append]
    intro t ht
    simpa using hx.due t ht
  · refine (hx.sorted.and hnodup.1).imp_of_mem fun ha hb hab => ?_
    rcases Prod.Lex.toLex_le_toLex.mp hab.1 with hlt | ⟨heq, hseq⟩
    · exact .inl hlt
    · exact .inr ⟨heq, hok.idxOf_lt hn (hok.perm.mem_iff.mpr (hmem _ ha))
        (hok.perm.mem_iff.mpr (hmem _ hb)) hab.2 hseq⟩
  · refine List.nodup_append.mpr ⟨hinv.task.placed.nodup .runq, hnodup.1, ?_⟩
    rintro t ht u hu rfl
    have h1 := ((hinv.task.placed.mem .runq t).mp ht).2
    have h2 := ((hinv.task.placed.mem .timers t).mp (hmem t hu)).2
    simp [h1] at h2

/-- In a consistent record whose heap was built by at most `2 ^ 64` pushes and any number of pops
and removals, a pass over the timers wakes exactly the tasks that are due: sleepers as they are,
selects with the index of their timeout case, descriptor waits with a timeout. They reach the
run queue by deadline and then in the order of their insertion. -/
theorem timer_expiry_ordered (h : TimerRun order n s) (hinv : s.Inv) (hn : n ≤ 2 ^ 64)
    (nowNs : Nat) :
    ∃ woken, WakesInOrder order nowNs s (s.wakeExpiredTimers nowNs) woken ∧
      ∀ σ : Sys, machine.Reach Sys.Contract σ → σ.rt = s → ∀ t ∈ woken,
        (s.task t).state = .waitingSelect → ∃ c cases plan k,
          σ.pc (.task t) = .selectPark c cases plan ∧
          cases[(s.task t).selectIndex]? = some k ∧ k.op = .timeout := by
  have hok := h.timersOk
  obtain ⟨woken, hx⟩ := expires_of_ordered hinv hok.ordered nowNs le_rfl
  refine ⟨woken, hx.wakesInOrder hok hinv hn, ?_⟩
  rintro σ hσ rfl t ht hst
  have hmem := hx.split.mem_iff.mpr (List.mem_append_left _ ht)
  obtain ⟨hall, hslot⟩ := (hinv.task.placed.mem .timers t).mp hmem
  have hin : (σ.rt.task t).selectInTimer = true := by
    by_contra hc
    simp [Task.slot, hst, hc] at hslot
  obtain ⟨htimed, hplanned⟩ := Sys.timesSelects_of_reach hσ
  obtain ⟨c, cases, plan, hpc, hindex⟩ := htimed t hall hst hin
  have hscan : selectScan cases 0 {} = some plan := by
    have := hplanned (.task t)
    rwa [hpc] at this
  obtain hnone | ⟨j, k, hj, hk, hop⟩ := ((selectScan_some hscan).timeoutIndex _).mp hindex
  · cases hnone
  · rw [Nat.zero_add] at hj
    exact ⟨c, cases, plan, k, hpc, hj ▸ hk, hop⟩

/-- Two tasks sleep until the same time. -/
def sleepers (timers : Timers) (seq : TaskId → Nat) : Rt :=
  { allTasks := [0, 1], liveCount := 2, nextAddr := 2
    made := fun o => o = .task 0 ∨ o = .task 1
    task := fun t => { state := .sleeping, wakeNs := 5, timerSeq := seq t }
    timers := timers }

theorem sleepers_inv {timers : Timers} (seq : TaskId → Nat) (hp : timers.items.Perm [0, 1]) :
    (sleepers timers seq).Inv := by
  obtain ⟨r, hr⟩ : ∃ r, r = sleepers timers seq := ⟨_, rfl⟩
  have hmem : ∀ t, t ∈ timers.items ↔ t = 0 ∨ t = 1 := fun t => hp.mem_iff.trans List.mem_pair
  have hplaced : Placed r.slotItems (· ∈ r.allTasks) fun t => (r.task t).slot := by
    constructor
    · intro k
      cases k with
      | timers =>
          rw [hr]
          exact hp.nodup_iff.mpr (by decide)
      | _ => simp [hr, sleepers, slotItems]
    · intro k t
      cases k <;> simp [hr, sleepers, slotItems, Task.slot, hmem]
  have hlisted : ∀ w, ¬r.Listed w := fun w hw => by
    have := hw.2
    simp [hr, sleepers] at this
  have hlive : ∀ o, r.Live o ↔ o = .task 0 ∨ o = .task 1 := by simp [hr, sleepers, Live]
  have hwaiters : Placed (fun q => (r.selectq q).items) r.Listed fun w => some (r.selw w).ref := by
    constructor
    · simp [hr, sleepers]
    · intro q w
      have hempty : (r.selectq q).items = [] := by rw [hr, sleepers]
      simp [hlisted, hempty]
  have htask : r.TaskInv := by
    refine ⟨?_, hplaced, ?_, ?_, ?_, ?_, ?_⟩ <;> simp [hr, sleepers, Queue.Exact]
  have hselect : r.SelectInv := by
    refine ⟨hwaiters, ?_, ?_, ?_, ?_, ?_⟩ <;> simp [hr, sleepers, Queue.Exact]
  have hfd : r.FdInv := by constructor <;> simp [hr, sleepers]
  have hchan : r.ChanInv := by
    refine ⟨?_, ?_, fun ch hch => by simp [hlive] at hch, ?_, ?_⟩ <;> simp [hr, sleepers]
  have hheap : r.HeapInv := by
    refine ⟨fun o ho => ?_, ?_, fun t ht => ?_, ?_, ?_⟩
    · have ho : o = .task 0 ∨ o = .task 1 := by simpa [hr, sleepers] using ho
      rcases ho with rfl | rfl <;> simp [hr, sleepers, Obj.addr]
    · simp [hr, sleepers]
    · have ht : t = 0 ∨ t = 1 := by simpa [hr, sleepers] using ht
      rcases ht with rfl | rfl <;> simp [hlive]
    · simp [hr, sleepers]
    · simp [hr, sleepers]
  have hhandle : r.HandleInv := by constructor <;> simp [hr, sleepers]
  exact hr ▸ ⟨htask, hselect, hfd, hchan, hheap, hhandle⟩

/-- The tasks wake in the order of their pushes. -/
theorem timer_expiry_ordered_equal :
    ∃ woken, WakesInOrder [0, 1] 5 (sleepers ⟨[0, 1], 16, 2⟩ id)
      ((sleepers ⟨[0, 1], 16, 2⟩ id).wakeExpiredTimers 5) woken := by
  have hpush := ((TimerRun.init (s := {}) rfl).push 0 5 .sleeping (by simp)).push 1 5 .sleeping
    (by decide)
  have hrun : TimerRun [0, 1] 2 (sleepers ⟨[0, 1], 16, 2⟩ id) := by
    refine TimerRun.other (show TimerRun [0, 1] _ _ from hpush) ⟨rfl, fun t ht => ?_⟩
    have ht : t ∈ [0, 1] := ht
    rcases List.mem_pair.mp ht with rfl | rfl <;> rfl
  obtain ⟨woken, hw, -⟩ :=
    timer_expiry_ordered hrun (sleepers_inv id (List.Perm.refl _)) (by decide) 5
  exact ⟨woken, hw⟩

/-- A record in which only the timers count. -/
def ofTimers (timers : Timers) : Rt := { timers := timers }

/-- A task is pushed and removed `k + 1` times. -/
theorem timerRun_spun (k : Nat) :
    TimerRun [] (k + 1) (ofTimers { cap := 16, nextSeq := (k + 1) % 2 ^ 64 }) := by
  induction k with
  | zero =>
      have h := ((TimerRun.init (s := {}) rfl).push 2 0 .sleeping (by simp)).remove 2
      exact TimerRun.other h ⟨rfl, fun t ht => by cases ht⟩
  | succ k ih =>
      have h := (ih.push 2 0 .sleeping (by simp [ofTimers])).remove 2
      refine TimerRun.other (show TimerRun [] _ _ from h) ⟨?_, fun t ht => by cases ht⟩
      change ({ cap := 16, nextSeq := _ } : Timers) =
        { cap := 16, nextSeq := ((k + 1) % 2 ^ 64 + 1) % 2 ^ 64 }
      rw [Nat.mod_add_mod]

/-- The sleepers, if the counter comes round between their pushes. -/
def twins : Rt := sleepers ⟨[1, 0], 16, 1⟩ fun t => if t = 0 then 2 ^ 64 - 1 else 0

theorem twins_run : TimerRun [0, 1] (2 ^ 64 + 1) twins := by
  have h := ((timerRun_spun (2 ^ 64 - 2)).push 0 5 .sleeping (by simp [ofTimers])).push 1 5 .sleeping
    (by decide)
  refine TimerRun.other (show TimerRun [0, 1] _ _ from h) ⟨rfl, fun t ht => ?_⟩
  have ht : t ∈ [1, 0] := ht
  rcases List.mem_pair.mp ht with rfl | rfl <;> rfl

/-- After `2 ^ 64` pushes the numbers start again, and of two tasks with the same deadline the
later one is woken first. -/
theorem timer_order_wraps :
    TimerRun [0, 1] (2 ^ 64 + 1) twins ∧ twins.Inv ∧
      ¬∃ woken, WakesInOrder [0, 1] 5 twins (twins.wakeExpiredTimers 5) woken := by
  refine ⟨twins_run, sleepers_inv _ (List.Perm.swap _ _ _), ?_⟩
  rintro ⟨woken, hw⟩
  have hqueue : [1, 0] = [] ++ woken := hw.queued
  rw [List.nil_append] at hqueue
  subst hqueue
  have hsorted := List.rel_of_pairwise_cons hw.sorted (List.mem_singleton_self 0)
  exact absurd hsorted (by decide)

end Rt

end Microthread
