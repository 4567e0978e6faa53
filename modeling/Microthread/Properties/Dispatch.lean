import Microthread.System.Trace

/-!
# Dispatch of backend batches

An event completes the first active waiter of its descriptor that it concerns. The
three backends differ in the events they make of the kernel's report: kqueue has one
for a direction, epoll one for a descriptor, poll one for a waiter. Dispatch is
followed on the active waiters of each descriptor, in list order.
-/

namespace Microthread

open Foundation

namespace Rt

variable {s s' : Rt} {w : FdWaiterId} {fd : Nat}

/-- A descriptor has at most one waiter for a direction, whether it still waits or has
been readied and not yet resumed. -/
structure Exclusive (s : Rt) : Prop where
  nodup : s.fdWaiters.Nodup
  valid : ∀ w ∈ s.fdWaiters, fdValidateEvents (s.fdw w).events = true
  disjoint : ∀ v ∈ s.fdWaiters, ∀ w ∈ s.fdWaiters, v ≠ w → s.fdWaiterReservesConflict v = true →
    s.fdWaiterReservesConflict w = true → (s.fdw v).fd = (s.fdw w).fd →
    (s.fdw v).events &&& (s.fdw w).events = 0

instance (s : Rt) : Decidable s.Exclusive :=
  decidable_of_iff (s.fdWaiters.Nodup ∧
      (∀ w ∈ s.fdWaiters, fdValidateEvents (s.fdw w).events = true) ∧
      ∀ v ∈ s.fdWaiters, ∀ w ∈ s.fdWaiters, v ≠ w → s.fdWaiterReservesConflict v = true →
        s.fdWaiterReservesConflict w = true → (s.fdw v).fd = (s.fdw w).fd →
        (s.fdw v).events &&& (s.fdw w).events = 0)
    ⟨fun h => ⟨h.1, h.2.1, h.2.2⟩, fun h => ⟨h.nodup, h.valid, h.disjoint⟩⟩

/-- The active waiters of a descriptor, in list order. -/
def activeOn (s : Rt) (fd : Nat) : List FdWaiterId :=
  s.fdWaiters.filter fun w => s.fdWaiterIsActive w && (s.fdw w).fd == fd

theorem mem_activeOn : w ∈ s.activeOn fd ↔
    w ∈ s.fdWaiters ∧ (s.fdw w).state = .active ∧ (s.fdw w).fd = fd := by
  simp [activeOn, fdWaiterIsActive]

theorem activeOn_congr {a b : Rt} (hl : a.fdWaiters = b.fdWaiters) (hw : a.fdw = b.fdw) :
    a.activeOn fd = b.activeOn fd := by
  simp only [activeOn, fdWaiterIsActive, hl, hw]

/-! ## Readying one waiter -/

/-- The waiter records once `w` has been readied. -/
def readied (s : Rt) (w : FdWaiterId) : FdWaiterId → FdWaiter :=
  Function.update s.fdw w { s.fdw w with state := .readyReserved }

theorem fdWaiterDeactivate_fdw (s : Rt) (w : FdWaiterId) :
    (s.fdWaiterDeactivate w true).2.fdWaiters = s.fdWaiters ∧
      (s.fdWaiterDeactivate w true).2.fdw = s.readied w := by
  by_cases ha : (s.fdw w).state = .active
  · rw [fdWaiterDeactivate_reserve ha]
    exact ⟨rfl, rfl⟩
  · simp [fdWaiterDeactivate, fdWaiterIsActive, ha, modFdw, readied]

theorem timerRemove_fdw (s : Rt) (t : TaskId) :
    (s.timerRemove t).2.fdWaiters = s.fdWaiters ∧ (s.timerRemove t).2.fdw = s.fdw := by
  unfold timerRemove
  split <;> exact ⟨rfl, rfl⟩

/-- Whatever the state of its task, readying a waiter reserves it and leaves the others. -/
theorem fdReadyWaiter_fdw (s : Rt) (w : FdWaiterId) (rc : Rc) (ready : Nat) :
    (s.fdReadyWaiter w rc ready).fdWaiters = s.fdWaiters ∧
      (s.fdReadyWaiter w rc ready).fdw = s.readied w := by
  unfold fdReadyWaiter
  simp only
  generalize ha : (s.fdWaiterDeactivate w true).2 = a
  have h1 : a.fdWaiters = s.fdWaiters ∧ a.fdw = s.readied w := ha ▸ s.fdWaiterDeactivate_fdw w
  generalize hb : (if (a.task (s.fdw w).task).fdInTimer = true then
    (a.timerRemove (s.fdw w).task).2.modTask (s.fdw w).task fun k => { k with fdInTimer := false }
    else a) = b
  have h2 : b.fdWaiters = a.fdWaiters ∧ b.fdw = a.fdw := by
    subst hb
    split
    · exact a.timerRemove_fdw (s.fdw w).task
    · exact ⟨rfl, rfl⟩
  split <;> exact ⟨h2.1.trans h1.1, h2.2.trans h1.2⟩

theorem eraseP_eq_filter {α : Type} [DecidableEq α] {l : List α} {p : α → Bool} {x : α} (h : l.Nodup)
    (hx : l.find? p = some x) : l.eraseP p = l.filter (· ≠ x) := by
  induction l with
  | nil => simp at hx
  | cons y l ih =>
      obtain ⟨hy, hl⟩ := List.nodup_cons.mp h
      by_cases hp : p y = true
      · rw [List.find?_cons_of_pos hp] at hx
        obtain rfl := Option.some.inj hx
        rw [List.eraseP_cons_of_pos hp, List.filter_cons_of_neg (by simp)]
        refine (List.filter_eq_self.mpr fun z hz => ?_).symm
        simpa using ne_of_mem_of_not_mem hz hy
      · rw [List.find?_cons_of_neg hp] at hx
        have hne : y ≠ x := fun he => hp (he ▸ List.find?_some hx)
        rw [List.eraseP_cons_of_neg hp, List.filter_cons_of_pos (by simpa using hne), ih hl hx]

/-- The waiter of `fd` that an event for the directions `r` concerns. -/
def Concerns (s : Rt) (r : Nat) (w : FdWaiterId) : Bool := ((s.fdw w).events &&& r) != 0

theorem find?_activeOn (s : Rt) (fd r : Nat) : (s.activeOn fd).find? (s.Concerns r) =
    s.fdWaiters.find? fun w =>
      s.fdWaiterIsActive w && (s.fdw w).fd == fd && ((s.fdw w).events &&& r) != 0 := by
  rw [activeOn, List.find?_filter]
  congr 1
  funext w
  rw [Bool.eq_iff_iff]
  simp [Concerns, and_assoc]

theorem activeOn_readied (hl : s'.fdWaiters = s.fdWaiters) (hw : s'.fdw = s.readied w) (fd : Nat) :
    s'.activeOn fd = (s.activeOn fd).filter (· ≠ w) := by
  rw [activeOn, activeOn, hl, List.filter_filter]
  refine List.filter_congr fun v _ => ?_
  by_cases hv : v = w
  · subst hv
    simp [fdWaiterIsActive, hw, readied]
  · simp [fdWaiterIsActive, hw, readied, hv]

/-! ## One event -/

/-- What an event for the directions `r` of `fd` does to the waiters. -/
inductive Served (s : Rt) (fd r : Nat) (s' : Rt) : Prop where
  | none : (s.activeOn fd).find? (s.Concerns r) = .none → s'.fdWaiters = s.fdWaiters →
      s'.fdw = s.fdw → Served s fd r s'
  | some (v : FdWaiterId) : (s.activeOn fd).find? (s.Concerns r) = .some v →
      s'.fdWaiters = s.fdWaiters → s'.fdw = s.readied v → Served s fd r s'

/-- Finding a waiter for an event and readying it. A stale one is readied on the way. -/
theorem findReady_served (s : Rt) (fd r : Nat) (rc : Rc) (ready : FdWaiterId → Rt → Nat) :
    Served s fd r (match s.fdFindWaiter fd r with
      | (.none, a) => a
      | (.some w, a) => a.fdReadyWaiter w rc (ready w a)) := by
  have hfind := s.find?_activeOn fd r
  unfold fdFindWaiter
  split
  next a heq =>
    split at heq
    · next hn =>
        cases heq
        exact .none (hfind.trans hn) rfl rfl
    · next w hn =>
        obtain ⟨gen, gens, tape, -, hcur⟩ := s.fdGenerationCurrent_eq fd
        rw [hcur] at heq
        simp only at heq
        split at heq
        · cases heq
        · cases heq
          obtain ⟨hl, hw⟩ := fdReadyWaiter_fdw { s with fdGenerations := gens, tape := tape } w .closed 0
          exact .some w (hfind.trans hn) hl hw
  next w a heq =>
    split at heq
    · cases heq
    · next v hn =>
        obtain ⟨gen, gens, tape, -, hcur⟩ := s.fdGenerationCurrent_eq fd
        rw [hcur] at heq
        simp only at heq
        split at heq
        · cases heq
          obtain ⟨hl, hw⟩ := fdReadyWaiter_fdw { s with fdGenerations := gens, tape := tape } w rc
            (ready w { s with fdGenerations := gens, tape := tape })
          exact .some w (hfind.trans hn) hl hw
        · cases heq

theorem Served.activeOn {r : Nat} (h : Served s fd r s') (hd : s.fdWaiters.Nodup) (x : Nat) :
    s'.activeOn x = if x = fd then (s.activeOn fd).eraseP (s.Concerns r) else s.activeOn x := by
  cases h with
  | none hf hl hw =>
      rw [activeOn_congr hl hw]
      split
      · next hx =>
          subst hx
          exact (List.eraseP_of_forall_not fun v hv => by simpa using List.find?_eq_none.mp hf v hv).symm
      · rfl
  | some w hf hl hw =>
      rw [activeOn_readied hl hw]
      have hmem := mem_activeOn.mp (List.mem_of_find?_eq_some hf)
      split
      · next hx =>
          subst hx
          exact (eraseP_eq_filter (hd.filter _) hf).symm
      · next hx =>
          refine List.filter_eq_self.mpr fun v hv => ?_
          have hv' := (mem_activeOn.mp hv).2.2
          simpa using fun he : v = w => hx ((he ▸ hv').symm.trans hmem.2.2)

/-! ## kqueue -/

end Rt

/-- The direction that the filter of a kevent names. -/
def ReadyEvent.filter (e : ReadyEvent) : Nat :=
  if e.filterRead then fdRead else if e.filterWrite then fdWrite else 0

/-- The directions that kqueue dispatch looks for. -/
def ReadyEvent.widened (e : ReadyEvent) : Nat :=
  if e.eofOrError then fdRead ||| fdWrite else e.filter

/-- The kevent has one filter, and it is `EVFILT_READ` or `EVFILT_WRITE`. -/
def ReadyEvent.IsKevent (e : ReadyEvent) : Prop := e.filterRead ≠ e.filterWrite

instance (e : ReadyEvent) : Decidable e.IsKevent := inferInstanceAs (Decidable (_ ≠ _))

/-- Serving events one after the other on the interests of the waiters of one descriptor. -/
def serve (ms : List Nat) (es : List ReadyEvent) : List Nat :=
  es.foldl (fun ms e => ms.eraseP fun m => (m &&& e.widened) != 0) ms

@[simp] theorem serve_nil (ms : List Nat) : serve ms [] = ms := rfl

@[simp] theorem serve_cons (ms : List Nat) (e : ReadyEvent) (es : List ReadyEvent) :
    serve ms (e :: es) = serve (ms.eraseP fun m => (m &&& e.widened) != 0) es := rfl

theorem serve_of_nil (es : List ReadyEvent) : serve [] es = [] := by
  induction es with
  | nil => rfl
  | cons e es ih => simpa using ih

/-- A single waiter is left only if no event concerned it. -/
theorem mem_serve_single {m x : Nat} {es : List ReadyEvent} :
    x ∈ serve [m] es ↔ x = m ∧ ∀ e ∈ es, m &&& e.widened = 0 := by
  induction es with
  | nil => simp
  | cons e es ih =>
      by_cases hm : m &&& e.widened = 0
      · rw [serve_cons, List.eraseP_cons_of_neg (by simp [hm]), List.eraseP_nil, ih]
        simp [hm]
      · rw [serve_cons, List.eraseP_cons_of_pos (by simpa using hm), serve_of_nil]
        simp [hm]

theorem ReadyEvent.IsKevent.filter_cases {e : ReadyEvent} (h : e.IsKevent) :
    e.filter = fdRead ∨ e.filter = fdWrite := by
  unfold IsKevent at h
  unfold filter
  cases hr : e.filterRead with
  | true => simp
  | false =>
      cases hw : e.filterWrite with
      | true => simp
      | false => simp [hr, hw] at h

/-- The filter is among the directions that dispatch looks for. -/
theorem ReadyEvent.IsKevent.and_filter {e : ReadyEvent} (h : e.IsKevent) {m : Nat}
    (hm : m &&& e.widened = 0) : m &&& e.filter = 0 := by
  have hsub : e.widened &&& e.filter = e.filter := by
    unfold widened
    rcases h.filter_cases with hf | hf <;> cases e.eofOrError <;> simp [hf, fdRead, fdWrite]
  rw [← hsub, ← Nat.and_assoc, hm, Nat.zero_and]

/-- The interests of the two waiters of a descriptor that has two. -/
def Opposite (a b : Nat) : Prop := (a = fdRead ∧ b = fdWrite) ∨ (a = fdWrite ∧ b = fdRead)

/-- The events for one descriptor hide the direction `b` behind a waiter for `a`: the first
is widened by `EV_EOF` or `EV_ERROR` and reports `b`, the others are plain and report `a`. -/
def Hidden (a b : Nat) (es : List ReadyEvent) : Prop :=
  ∃ e rest, es = e :: rest ∧ e.eofOrError = true ∧ e.filter = b ∧
    ∀ x ∈ rest, x.eofOrError = false ∧ x.filter = a

section Pair

variable {a b : Nat} {e : ReadyEvent}

theorem Opposite.symm (h : Opposite a b) : Opposite b a := h.elim (fun ⟨h1, h2⟩ => .inr ⟨h2, h1⟩)
  fun ⟨h1, h2⟩ => .inl ⟨h2, h1⟩

theorem Opposite.ne (h : Opposite a b) : a ≠ b := by
  rcases h with ⟨rfl, rfl⟩ | ⟨rfl, rfl⟩ <;> decide

theorem Opposite.and_filter (h : Opposite a b) (he : e.IsKevent) :
    a &&& e.filter ≠ 0 ↔ e.filter = a := by
  rcases h with ⟨rfl, rfl⟩ | ⟨rfl, rfl⟩ <;> rcases he.filter_cases with hf | hf <;> rw [hf] <;> decide

theorem Opposite.and_widened (h : Opposite a b) (he : e.IsKevent) :
    a &&& e.widened = 0 ↔ e.eofOrError = false ∧ e.filter = b := by
  unfold ReadyEvent.widened
  cases e.eofOrError with
  | true => rcases h with ⟨rfl, rfl⟩ | ⟨rfl, rfl⟩ <;> simp [fdRead, fdWrite]
  | false =>
      rcases h with ⟨rfl, rfl⟩ | ⟨rfl, rfl⟩ <;> rcases he.filter_cases with hf | hf <;>
        simp [hf, fdRead, fdWrite]

/-- With two waiters on a descriptor an event is lost exactly where the first hides it. -/
theorem serve_pair_iff (hab : Opposite a b) {es : List ReadyEvent} (hk : ∀ e ∈ es, e.IsKevent) :
    (∃ m ∈ serve [a, b] es, ∃ e ∈ es, m &&& e.filter ≠ 0) ↔ Hidden a b es := by
  cases es with
  | nil => simp [Hidden]
  | cons e es =>
      obtain ⟨hke, hkes⟩ := List.forall_mem_cons.mp hk
      have hw : ∀ x ∈ es, (b &&& x.widened = 0 ↔ x.eofOrError = false ∧ x.filter = a) :=
        fun x hx => hab.symm.and_widened (hkes x hx)
      by_cases h1 : a &&& e.widened = 0
      · -- a plain event for `b` finds its waiter, and `a` is left alone
        obtain ⟨hplain, hb⟩ := (hab.and_widened hke).mp h1
        have h2 : b &&& e.widened ≠ 0 := fun h2 =>
          hab.ne (((hab.symm.and_widened hke).mp h2).2.symm.trans hb)
        rw [serve_cons, List.eraseP_cons_of_neg (by simp [h1]),
          List.eraseP_cons_of_pos (by simpa using h2)]
        constructor
        · rintro ⟨m, hm, x, hx, hne⟩
          obtain ⟨rfl, hall⟩ := mem_serve_single.mp hm
          rcases List.mem_cons.mp hx with rfl | hx
          · exact absurd (((hab.and_filter hke).mp hne).symm.trans hb) hab.ne
          · have hxb := ((hab.and_widened (hkes x hx)).mp (hall x hx)).2
            exact absurd (((hab.and_filter (hkes x hx)).mp hne).symm.trans hxb) hab.ne
        · rintro ⟨x, rest, heq, heof, -⟩
          cases heq
          rw [hplain] at heof
          cases heof
      · rw [serve_cons, List.eraseP_cons_of_pos (by simpa using h1)]
        constructor
        · rintro ⟨m, hm, x, hx, hne⟩
          obtain ⟨rfl, hall⟩ := mem_serve_single.mp hm
          have hrest : ∀ x ∈ es, x.eofOrError = false ∧ x.filter = a :=
            fun x hx => (hw x hx).mp (hall x hx)
          have hxb := (hab.symm.and_filter (hk x hx)).mp hne
          rcases List.mem_cons.mp hx with rfl | hx
          · refine ⟨x, es, rfl, ?_, hxb, hrest⟩
            by_contra hplain
            exact h1 ((hab.and_widened hke).mpr ⟨by simpa using hplain, hxb⟩)
          · exact absurd ((hrest x hx).2.symm.trans hxb) hab.ne
        · rintro ⟨x, rest, heq, heof, hxb, hrest⟩
          cases heq
          refine ⟨b, mem_serve_single.mpr ⟨rfl, fun y hy => (hw y hy).mpr (hrest y hy)⟩, e,
            List.mem_cons_self, (hab.symm.and_filter hke).mpr hxb⟩

end Pair

namespace Rt

variable {s s' : Rt}

/-- The interests of the active waiters of a descriptor. -/
def interests (s : Rt) (fd : Nat) : List Nat := (s.activeOn fd).map fun w => (s.fdw w).events

/-- Every waiter that an event of the batch reports has been completed. -/
def Delivered (s : Rt) (batch : List ReadyEvent) : Prop :=
  ∀ w ∈ (batch.foldl kqueueBackendDispatch s).fdWaiters,
    ((batch.foldl kqueueBackendDispatch s).fdw w).state = .active →
    ∀ e ∈ batch, e.fd = ((batch.foldl kqueueBackendDispatch s).fdw w).fd →
      ((batch.foldl kqueueBackendDispatch s).fdw w).events &&& e.filter = 0

instance (s : Rt) (batch : List ReadyEvent) : Decidable (s.Delivered batch) := by
  unfold Delivered
  infer_instance

theorem Served.interests {fd r : Nat} (h : Served s fd r s') (hd : s.fdWaiters.Nodup) (x : Nat) :
    s'.interests x =
      if x = fd then (s.interests fd).eraseP (fun m => (m &&& r) != 0) else s.interests x := by
  have hev : ∀ w, (s'.fdw w).events = (s.fdw w).events := fun w => by
    cases h with
    | none _ _ hw => rw [hw]
    | some v _ _ hw =>
        rw [hw, readied, Function.update_apply]
        split
        · next he => rw [he]
        · rfl
  unfold Rt.interests
  rw [h.activeOn hd x]
  simp only [hev]
  split
  · next hx =>
      subst hx
      rw [List.eraseP_map]
      rfl
  · rfl

theorem kqueueBackendDispatch_served (s : Rt) (e : ReadyEvent) :
    Served s e.fd e.widened (s.kqueueBackendDispatch e) :=
  s.findReady_served e.fd e.widened .ok fun w a =>
    if e.widened &&& (a.fdw w).events = 0 then (a.fdw w).events else e.widened &&& (a.fdw w).events

/-- The batch acts on each descriptor through the events for it. -/
theorem interests_foldl (batch : List ReadyEvent) (hd : s.fdWaiters.Nodup) (fd : Nat) :
    (batch.foldl kqueueBackendDispatch s).interests fd =
      serve (s.interests fd) (batch.filter (·.fd == fd)) := by
  induction batch generalizing s with
  | nil => rfl
  | cons e batch ih =>
      have hserved := s.kqueueBackendDispatch_served e
      have hlist : (s.kqueueBackendDispatch e).fdWaiters = s.fdWaiters := by
        cases hserved with
        | none _ hl => exact hl
        | some _ _ hl => exact hl
      rw [List.foldl_cons, ih (hlist ▸ hd), hserved.interests hd]
      by_cases hfd : fd = e.fd
      · rw [if_pos hfd, List.filter_cons_of_pos (by simpa using hfd.symm), serve_cons, hfd]
      · rw [if_neg hfd, List.filter_cons_of_neg (by simpa using Ne.symm hfd)]

theorem delivered_iff (batch : List ReadyEvent) (hd : s.fdWaiters.Nodup) : s.Delivered batch ↔
    ∀ fd, ¬∃ m ∈ serve (s.interests fd) (batch.filter (·.fd == fd)),
      ∃ e ∈ batch.filter (·.fd == fd), m &&& e.filter ≠ 0 := by
  unfold Delivered
  constructor
  · rintro h fd ⟨m, hm, e, he, hne⟩
    rw [← interests_foldl batch hd, interests, List.mem_map] at hm
    obtain ⟨w, hw, rfl⟩ := hm
    obtain ⟨hmem, hact, hfd⟩ := mem_activeOn.mp hw
    obtain ⟨heb, hefd⟩ := List.mem_filter.mp he
    exact hne (h w hmem hact e heb ((by simpa using hefd : e.fd = fd).trans hfd.symm))
  · intro h w hmem hact e he hfd
    by_contra hne
    refine h e.fd ⟨_, ?_, e, List.mem_filter.mpr ⟨he, by simp⟩, hne⟩
    rw [← interests_foldl batch hd, interests, List.mem_map]
    exact ⟨w, mem_activeOn.mpr ⟨hmem, hact, hfd.symm⟩, rfl⟩

theorem valid_cases {m : Nat} (h : fdValidateEvents m = true) : m = 1 ∨ m = 2 ∨ m = 3 := by
  simp only [fdValidateEvents, Bool.and_eq_true, bne_iff_ne, beq_iff_eq] at h
  have hle : m ≤ m ||| 3 := Nat.left_le_or
  omega

theorem Exclusive.activeOn_disjoint (h : s.Exclusive) {fd : Nat} {v w : FdWaiterId}
    (hv : v ∈ s.activeOn fd) (hw : w ∈ s.activeOn fd) (hne : v ≠ w) :
    (s.fdw v).events &&& (s.fdw w).events = 0 := by
  obtain ⟨hv1, hv2, hv3⟩ := mem_activeOn.mp hv
  obtain ⟨hw1, hw2, hw3⟩ := mem_activeOn.mp hw
  exact h.disjoint v hv1 w hw1 hne (by simp [fdWaiterReservesConflict, hv2])
    (by simp [fdWaiterReservesConflict, hw2]) (hv3.trans hw3.symm)

/-- A descriptor has no active waiter, one, or one for each direction. -/
theorem Exclusive.activeOn_cases (h : s.Exclusive) (fd : Nat) : s.activeOn fd = [] ∨
    (∃ w, s.activeOn fd = [w]) ∨
      ∃ v w, s.activeOn fd = [v, w] ∧ Opposite (s.fdw v).events (s.fdw w).events := by
  have hvalid : ∀ w ∈ s.activeOn fd, (s.fdw w).events = 1 ∨ (s.fdw w).events = 2 ∨
      (s.fdw w).events = 3 := fun w hw => valid_cases (h.valid w (mem_activeOn.mp hw).1)
  have hdisj : (s.activeOn fd).Pairwise fun v w => (s.fdw v).events &&& (s.fdw w).events = 0 :=
    (h.nodup.filter _).imp_of_mem fun hv hw hne => h.activeOn_disjoint hv hw hne
  generalize s.activeOn fd = l at hvalid hdisj ⊢
  rcases l with _ | ⟨v, _ | ⟨w, _ | ⟨x, l⟩⟩⟩
  · exact .inl rfl
  · exact .inr (.inl ⟨v, rfl⟩)
  · refine .inr (.inr ⟨v, w, rfl, ?_⟩)
    simp only [List.pairwise_cons, List.mem_singleton, forall_eq] at hdisj
    have hvw := hdisj.1
    rcases hvalid v (by simp) with hv | hv | hv <;> rcases hvalid w (by simp) with hw | hw | hw <;>
      rw [hv, hw] at hvw <;> simp [Opposite, fdRead, fdWrite, hv, hw] at hvw ⊢
  · -- three waiters would need three disjoint directions
    exfalso
    simp only [List.pairwise_cons, List.mem_cons, forall_eq_or_imp] at hdisj
    obtain ⟨⟨hvw, hvx, -⟩, ⟨hwx, -⟩, -⟩ := hdisj
    rcases hvalid v (by simp) with hv | hv | hv <;> rcases hvalid w (by simp) with hw | hw | hw <;>
      rw [hv, hw] at hvw <;> simp at hvw <;> rcases hvalid x (by simp) with hx | hx | hx <;>
      rw [hv, hx] at hvx <;> rw [hw, hx] at hwx <;> simp at hvx hwx

/-- On some descriptor the waiter that stands first hides the direction of the other. -/
def Masked (s : Rt) (batch : List ReadyEvent) : Prop :=
  ∃ fd v w, s.activeOn fd = [v, w] ∧
    Hidden (s.fdw v).events (s.fdw w).events (batch.filter (·.fd == fd))

end Rt

/-- After kqueue dispatch no active waiter is left that an event of the batch reports, unless
on some descriptor with two waiters the first event for it carries `EV_EOF` or `EV_ERROR` on
the direction of the waiter that stands second and all others are plain events for the
first. -/
theorem kqueue_delivers_iff {s : Rt} (hx : s.Exclusive) {batch : List ReadyEvent}
    (hk : ∀ e ∈ batch, e.IsKevent) : s.Delivered batch ↔ ¬s.Masked batch := by
  have hkfd : ∀ fd, ∀ e ∈ batch.filter (·.fd == fd), e.IsKevent :=
    fun fd e he => hk e (List.mem_filter.mp he).1
  rw [Rt.delivered_iff batch hx.nodup]
  constructor
  · rintro h ⟨fd, v, w, heq, hidden⟩
    have hop : Opposite (s.fdw v).events (s.fdw w).events := by
      rcases hx.activeOn_cases fd with h0 | ⟨x, h1⟩ | ⟨x, y, h2, hop⟩
      · simp [heq] at h0
      · simp [heq] at h1
      · rw [heq] at h2
        cases h2
        exact hop
    refine h fd ?_
    rw [Rt.interests, heq]
    exact (serve_pair_iff hop (hkfd fd)).mpr hidden
  · intro hm fd hlost
    rcases hx.activeOn_cases fd with h0 | ⟨w, h1⟩ | ⟨v, w, h2, hop⟩
    · rw [Rt.interests, h0] at hlost
      obtain ⟨m, hm, -⟩ := hlost
      simp [serve_of_nil] at hm
    · rw [Rt.interests, h1] at hlost
      obtain ⟨m, hm, e, he, hne⟩ := hlost
      obtain ⟨rfl, hall⟩ := mem_serve_single.mp hm
      exact hne ((hkfd fd e he).and_filter (hall e he))
    · rw [Rt.interests, h2] at hlost
      exact hm ⟨fd, v, w, h2, (serve_pair_iff hop (hkfd fd)).mp hlost⟩

/-- One task waits to read from descriptor 5 and another to write to it. -/
def duplexTrace : List Act := List.flatten
  [[.osOpen (.ext 0) 5 0], invoke (.ext 0) (.go true 0 false), invoke (.ext 0) (.go true 0 false),
    invoke (.ext 0) (.run 1 true) 2, works 0 3, invoke (.task 0 0) (.fdWait 5 1 1000),
    works 0, [.collect 0 []], works 0 2, invoke (.task 0 1) (.fdWait 5 2 1000), works 0]

/-- The descriptor becomes readable and writable: both tasks are completed. -/
theorem kqueue_delivers_iff_duplex : ∃ s, machine.Reach Sys.Contract s ∧ s.rt.Exclusive ∧
    s.rt.Delivered [{ fd := 5, filterRead := true }, { fd := 5, filterWrite := true }] ∧
    ¬s.rt.Masked [{ fd := 5, filterRead := true }, { fd := 5, filterWrite := true }] := by
  obtain ⟨s, hs, hp⟩ := reach_of_promised .kqueue duplexTrace (fun s =>
      s.rt.Exclusive && s.rt.Delivered
        [{ fd := 5, filterRead := true }, { fd := 5, filterWrite := true }])
    (by decide +kernel)
  simp only [Bool.and_eq_true, decide_eq_true_eq] at hp
  exact ⟨s, hs, hp.1, hp.2, (kqueue_delivers_iff hp.1 (by decide)).mp hp.2⟩

/-- The peer closes its end and `EVFILT_READ` reports it with `EV_EOF`. The writer stands
first in the list and is completed instead of the reader, which goes on waiting. -/
theorem kqueue_loses_event : ∃ s, machine.Reach Sys.Contract s ∧ s.rt.ioBackendKind = .kqueue ∧
    s.rt.Exclusive ∧ ReadyEvent.IsKevent { fd := 5, filterRead := true, eofOrError := true } ∧
    ¬s.rt.Delivered [{ fd := 5, filterRead := true, eofOrError := true }] := by
  obtain ⟨s, hs, hp⟩ := reach_of_promised .kqueue duplexTrace (fun s =>
      s.rt.ioBackendKind == .kqueue && s.rt.Exclusive &&
        !decide (s.rt.Delivered [{ fd := 5, filterRead := true, eofOrError := true }]))
    (by decide +kernel)
  simp only [Bool.and_eq_true, beq_iff_eq, decide_eq_true_eq, Bool.not_eq_true',
    decide_eq_false_iff_not] at hp
  exact ⟨s, hs, hp.1.1, hp.1.2, by decide, hp.2⟩

end Microthread
