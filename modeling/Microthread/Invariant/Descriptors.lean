import Microthread.Invariant.Tasks

/-!
# The descriptor and timer sections

The generation table, the registration with the backend and the descriptor list
of the kernel are bookkeeping nothing else reads (`Quiet`). Readiness, closing,
timeouts and shutdown wake descriptor waiters one by one.
-/

namespace Microthread

open Foundation

namespace Rt

variable {s s' : Rt} {t : TaskId} {w : FdWaiterId} {k : FdCause}

/-- Only the bookkeeping of descriptors and the tape have changed. -/
def Quiet (s s' : Rt) : Prop :=
  ∃ fdGenerations ioPolling interest filters tape, s' = { s with
    fdGenerations := fdGenerations, ioPolling := ioPolling, interest := interest
    filters := filters, tape := tape }

/-- Only the generation table and the tape have changed. -/
def Regen (s s' : Rt) : Prop := ∃ gens tape, s' = { s with fdGenerations := gens, tape := tape }

theorem Regen.refl (s : Rt) : Regen s s := ⟨_, _, rfl⟩

theorem Regen.tape (s : Rt) (tape : List Bool) : Regen s { s with tape := tape } := ⟨_, _, rfl⟩

theorem Regen.trans {a : Rt} (h : Regen s a) (h' : Regen a s') : Regen s s' := by
  obtain ⟨_, _, rfl⟩ := h
  obtain ⟨g, tape, rfl⟩ := h'
  exact ⟨g, tape, rfl⟩

theorem Regen.quiet (h : Regen s s') : Quiet s s' := by
  obtain ⟨g, tape, rfl⟩ := h
  exact ⟨g, _, _, _, tape, rfl⟩

theorem Quiet.shift (h : Quiet s s') : Shift s s' := by
  obtain ⟨g, p, i, f, tape, rfl⟩ := h
  exact .quiet g p i f tape

theorem Quiet.inv (hq : Quiet s s') (h : s.Inv) : s'.Inv := hq.shift.inv h

/-! ## The generation table -/

/-- The generation of `fd` and the table after it has been looked up. A missing entry is
made, unless there is no memory for it. -/
inductive Current (s : Rt) (fd : Nat) : Nat → List FdGeneration → Prop where
  | found (g) : s.fdGenerationFind fd = some g → Current s fd g.generation s.fdGenerations
  | failed : s.fdGenerationFind fd = none → s.tape.head? = some false →
      Current s fd 0 s.fdGenerations
  | entered : s.fdGenerationFind fd = none →
      Current s fd 1 ({ fd := fd, generation := 1, originalFlags := -1 } :: s.fdGenerations)

theorem fdGenerationCurrent_eq (s : Rt) (fd : Nat) : ∃ gen gens tape, Current s fd gen gens ∧
    s.fdGenerationCurrent fd = (gen, { s with fdGenerations := gens, tape := tape }) := by
  unfold fdGenerationCurrent
  split
  · next g hg => exact ⟨_, _, s.tape, .found g hg, rfl⟩
  · next hg =>
      unfold ask
      cases htape : s.tape with
      | nil => exact ⟨_, _, s.tape, .entered hg, rfl⟩
      | cons b rest =>
          cases b with
          | false => exact ⟨_, _, rest, .failed hg (by simp [htape]), rfl⟩
          | true => exact ⟨_, _, rest, .entered hg, rfl⟩

theorem Current.shifts {fd gen : Nat} {gens : List FdGeneration} (h : Current s fd gen gens)
    (tape : List Bool) : FdShifts k s { s with fdGenerations := gens, tape := tape } := by
  cases h with
  | found g hg => exact .single (.tape tape)
  | failed hg => exact .single (.tape tape)
  | entered hg => exact .tail (.single (.tape tape)) (.insert _ hg rfl rfl)

theorem fdGenerationCurrent_regen (s : Rt) (fd : Nat) : Regen s (s.fdGenerationCurrent fd).2 := by
  obtain ⟨gen, gens, tape, -, h⟩ := s.fdGenerationCurrent_eq fd
  rw [h]
  exact ⟨_, _, rfl⟩

theorem fdSetClosing_regen (s : Rt) (fd : Nat) (closing : Bool) :
    Regen s (s.fdSetClosing fd closing).2 := by
  unfold fdSetClosing
  split
  · exact ⟨_, _, rfl⟩
  · obtain ⟨ok, tape, h⟩ := s.ask_eq
    rw [h]
    cases ok with
    | false => exact .tape s tape
    | true => exact ⟨_, _, rfl⟩

theorem fdGenerationBump_regen (s : Rt) (fd : Nat) : Regen s (s.fdGenerationBump fd) := by
  unfold fdGenerationBump
  split
  · exact ⟨_, _, rfl⟩
  · obtain ⟨ok, tape, h⟩ := s.ask_eq
    rw [h]
    cases ok with
    | false => exact .tape s tape
    | true => exact ⟨_, _, rfl⟩

theorem fdAdopt_regen (s : Rt) (fd flags : Nat) : Regen s (s.fdAdopt fd flags).2 := by
  unfold fdAdopt
  split
  · exact .refl s
  · have hq := s.fdGenerationCurrent_regen fd
    split
    · next a heq =>
        rw [heq] at hq
        exact hq
    · next n a _ heq =>
        rw [heq] at hq
        split
        · split
          · exact hq
          · exact hq.trans ⟨_, _, rfl⟩
        · exact hq

theorem fdRelease_regen (s : Rt) (fd : Nat) : Regen s (s.fdRelease fd).2.2 := by
  unfold fdRelease
  split
  · exact .refl s
  · simp only [fdGenerationRemove]
    split
    · exact ⟨_, _, rfl⟩
    · exact .refl s

theorem fdCloseEnd_regen (s : Rt) (fd : Nat) : Regen s (s.fdCloseEnd fd) :=
  s.fdSetClosing_regen fd false

/-! ## Waking -/

theorem Inv.fdReadyWaiter_shifts (h : s.Inv) (hw : w ∈ s.fdWaiters) (ha : (s.fdw w).state = .active)
    {rc : Rc} {ready : Nat} (hk : k.Gives s (s.fdw w) rc ready) :
    FdShifts k s (s.fdReadyWaiter w rc ready) := by
  obtain ⟨items, hp, heq⟩ := h.fdReadyWaiter hw ha rc ready
  rw [heq]
  exact .single (.wake w items rc ready hw ha hp hk)

/-- A fold whose step is a sequence of elementary changes is one too. -/
theorem foldl_shifts {α : Type} {f : Rt → α → Rt} (l : List α)
    (hf : ∀ a, ∀ x ∈ l, a.Inv → FdShifts k a (f a x)) (h : s.Inv) :
    FdShifts k s (l.foldl f s) := by
  induction l generalizing s with
  | nil => exact .refl
  | cons x l ih =>
      have hx := hf s x List.mem_cons_self h
      exact hx.trans (ih (fun a y hy => hf a y (List.mem_cons_of_mem x hy)) (FdShifts.inv hx h))

/-- Only linked waiters are active. -/
theorem Inv.fdWakeSelected (h : s.Inv) (pick : FdWaiter → Bool) (rc : Rc) {ws : List FdWaiterId}
    (hk : ∀ a x, pick x = true → k.Gives a x rc 0) (hws : ws ⊆ s.fdWaiters) :
    FdShifts k s (s.fdWakeSelected pick rc ws) := by
  unfold Rt.fdWakeSelected
  induction ws generalizing s with
  | nil => exact .refl
  | cons w ws ih =>
      rw [List.foldl_cons]
      obtain ⟨hw, hws⟩ := List.cons_subset.mp hws
      by_cases hact : (s.fdWaiterIsActive w && pick (s.fdw w)) = true
      · rw [if_pos hact]
        simp only [Bool.and_eq_true, fdWaiterIsActive, beq_iff_eq] at hact
        have hstep := h.fdReadyWaiter_shifts hw hact.1 (hk s (s.fdw w) hact.2)
        refine hstep.trans (ih (FdShifts.inv hstep h) ?_)
        obtain ⟨items, hp, heq⟩ := h.fdReadyWaiter hw hact.1 rc 0
        rw [heq]
        exact hws
      · rw [if_neg hact]
        exact ih h hws

theorem Inv.fdWakeAll (h : s.Inv) (rc : Rc) (hk : ∀ a x, k.Gives a x rc 0) :
    FdShifts k s (s.fdWakeAll rc) :=
  h.fdWakeSelected _ rc (fun a x _ => hk a x) (List.Subset.refl _)

theorem Inv.fdCloseBegin (h : s.Inv) (fd : Nat) :
    ∃ a, Regen s a ∧ FdShifts (.close fd) a (s.fdCloseBegin fd).2 := by
  unfold Rt.fdCloseBegin
  split
  · exact ⟨s, .refl s, .refl⟩
  · have hq := s.fdSetClosing_regen fd true
    split
    · next a heq =>
        rw [heq] at hq
        have hq' := hq.trans (a.fdGenerationBump_regen fd)
        refine ⟨_, hq', (hq'.quiet.inv h).fdWakeSelected (·.fd == fd) .closed (fun a x hx => ?_)
          (List.Subset.refl _)⟩
        exact ⟨by simpa using hx, rfl, rfl⟩
    · next rc a _ heq =>
        rw [heq] at hq
        exact ⟨_, hq, .refl⟩

/-! ## Dispatch -/

/-- The waiter found for an event is linked and active and waits for the event. One that is
found out of date is completed instead. -/
theorem Inv.fdFindWaiter (h : s.Inv) (fd events : Nat)
    (hk : ∀ (a : Rt) x, x.fd = fd → ¬a.UpToDateAt x → k.Gives a x .closed 0) :
    FdShifts k s (s.fdFindWaiter fd events).2 ∧ ∀ w, (s.fdFindWaiter fd events).1 = some w →
      w ∈ (s.fdFindWaiter fd events).2.fdWaiters ∧
        ((s.fdFindWaiter fd events).2.fdw w).state = .active ∧
        ((s.fdFindWaiter fd events).2.fdw w).fd = fd ∧
        ((s.fdFindWaiter fd events).2.fdw w).events &&& events ≠ 0 := by
  unfold Rt.fdFindWaiter
  split
  · exact ⟨.refl, by simp⟩
  · next w hfind =>
      have hw := List.mem_of_find?_eq_some hfind
      have hact := List.find?_some hfind
      simp only [Bool.and_eq_true, fdWaiterIsActive, beq_iff_eq, bne_iff_ne] at hact
      obtain ⟨⟨ha, hfd⟩, hev⟩ := hact
      obtain ⟨gen, gens, tape, hcur, heq⟩ := s.fdGenerationCurrent_eq fd
      rw [heq]
      have hm := hcur.shifts (k := k) tape
      simp only
      split
      · refine ⟨hm, fun v hv => ?_⟩
        cases hv
        exact ⟨hw, ha, hfd, hev⟩
      · next hgen =>
          refine ⟨hm.trans ((FdShifts.inv hm h).fdReadyWaiter_shifts hw ha (hk _ _ hfd ?_)), by simp⟩
          -- the entry that the lookup has found or made is of another generation
          rintro ⟨g, hg, hgx⟩
          have hgx : g.generation = (s.fdw w).generation := hgx
          replace hg : gens.find? (·.fd == (s.fdw w).fd) = some g := hg
          rw [hfd] at hg
          cases hcur with
          | found g' hg' =>
              obtain rfl := Option.some.inj (hg'.symm.trans hg)
              exact hgen hgx.symm
          | failed hg' =>
              rw [Rt.fdGenerationFind, hg] at hg'
              cases hg'
          | entered =>
              rw [List.find?_cons_of_pos (by simp)] at hg
              cases hg
              exact hgen hgx.symm

theorem Inv.fdInvalidateAll (h : s.Inv) (fd fuel : Nat)
    (hk : ∀ (a : Rt) x, x.fd = fd → ¬a.UpToDateAt x → k.Gives a x .closed 0)
    (hki : ∀ (a : Rt) x, x.fd = fd → k.Gives a x .invalid 0) :
    FdShifts k s (fdInvalidateAll fd fuel s) := by
  induction fuel generalizing s with
  | zero => exact .refl
  | succ fuel ih =>
      obtain ⟨h1, h2⟩ := h.fdFindWaiter fd (fdRead ||| fdWrite) hk
      unfold Rt.fdInvalidateAll
      split
      · next w a heq =>
          rw [heq] at h1 h2
          obtain ⟨hw, ha, hfd, -⟩ := h2 w rfl
          have hstep := (FdShifts.inv h1 h).fdReadyWaiter_shifts hw ha (hki a (a.fdw w) hfd)
          exact (h1.trans hstep).trans (ih (FdShifts.inv (h1.trans hstep) h))
      · next a heq =>
          rw [heq] at h1
          exact h1

section

variable {batch : List ReadyEvent} {e : ReadyEvent} (he : e ∈ batch)

include he

theorem gives_closed (a : Rt) (x : FdWaiter) (hx : x.fd = e.fd) (hd : ¬a.UpToDateAt x) :
    (FdCause.ready batch).Gives a x .closed 0 :=
  ⟨e, he, hx.symm, .inr (.inr ⟨rfl, rfl, hd⟩)⟩

theorem gives_ok (a : Rt) {x : FdWaiter} {n : Nat} (hx : x.fd = e.fd) (hn : n &&& x.events ≠ 0) :
    (FdCause.ready batch).Gives a x .ok (n &&& x.events) :=
  ⟨e, he, hx.symm, .inl ⟨rfl, hn, by rw [Nat.and_assoc, Nat.and_self]⟩⟩

/-- An event completes the waiter found for it, if there is one. -/
theorem Inv.fdFindReady (h : s.Inv) (events : Nat) (ready : FdWaiterId → Rt → Nat)
    (hready : ∀ w (a : Rt), (a.fdw w).events &&& events ≠ 0 →
      ready w a = events &&& (a.fdw w).events) :
    FdShifts (.ready batch) s (match s.fdFindWaiter e.fd events with
      | (none, a) => a
      | (some w, a) => a.fdReadyWaiter w .ok (ready w a)) := by
  obtain ⟨h1, h2⟩ := h.fdFindWaiter e.fd events (gives_closed he)
  split
  · next a heq =>
      rw [heq] at h1
      exact h1
  · next w a heq =>
      rw [heq] at h1 h2
      obtain ⟨hw, ha, hfd, hev⟩ := h2 w rfl
      refine h1.trans ((FdShifts.inv h1 h).fdReadyWaiter_shifts hw ha ?_)
      rw [hready w a hev]
      exact gives_ok he a hfd (by rwa [Nat.and_comm] at hev)

theorem Inv.pollBackendDispatch (h : s.Inv) :
    FdShifts (.ready batch) s (s.pollBackendDispatch e) := by
  unfold Rt.pollBackendDispatch
  split
  · exact .refl
  · split
    · next hnval =>
        refine h.fdInvalidateAll e.fd _ (gives_closed he) fun a x hx => ?_
        exact ⟨e, he, hx.symm, .inr (.inl ⟨rfl, rfl, hnval⟩)⟩
    · refine h.fdFindReady he _ (fun w a =>
        if revents2FdEvents e.bits &&& (a.fdw w).events = 0 ∧ e.bits &&& (pollErr ||| pollHup) ≠ 0
        then (a.fdw w).events else revents2FdEvents e.bits &&& (a.fdw w).events) fun w a hev => ?_
      rw [if_neg]
      rw [Nat.and_comm] at hev
      exact fun hz => hev hz.1

theorem Inv.epollBackendDispatchLoop (h : s.Inv) (fuel remaining : Nat) :
    FdShifts (.ready batch) s (epollBackendDispatchLoop e fuel remaining s) := by
  induction fuel generalizing s remaining with
  | zero => exact .refl
  | succ fuel ih =>
      unfold Rt.epollBackendDispatchLoop
      split
      · exact .refl
      · obtain ⟨h1, h2⟩ := h.fdFindWaiter e.fd remaining (gives_closed he)
        split
        · next a heq =>
            rw [heq] at h1
            exact h1
        · next w a heq =>
            rw [heq] at h1 h2
            obtain ⟨hw, ha, hfd, hev⟩ := h2 w rfl
            rw [Nat.and_comm] at hev
            simp only
            rw [if_neg fun hz => hev hz.1]
            have hstep : FdShifts (.ready batch) s
                (a.fdReadyWaiter w .ok (remaining &&& (a.fdw w).events)) :=
              h1.trans ((FdShifts.inv h1 h).fdReadyWaiter_shifts hw ha (gives_ok he a hfd hev))
            exact hstep.trans (ih (FdShifts.inv hstep h) _)

theorem Inv.kqueueBackendDispatch (h : s.Inv) :
    FdShifts (.ready batch) s (s.kqueueBackendDispatch e) := by
  refine h.fdFindReady he _ (fun w a =>
    let ready := (if e.eofOrError then fdRead ||| fdWrite
      else if e.filterRead then fdRead else if e.filterWrite then fdWrite else 0) &&& (a.fdw w).events
    if ready = 0 then (a.fdw w).events else ready) fun w a hev => ?_
  rw [Nat.and_comm] at hev
  exact if_neg hev

end

/-- The batch of a backend wait. -/
theorem Inv.backendDispatch (h : s.Inv) (batch : List ReadyEvent) :
    FdShifts (.ready batch) s (s.backendDispatch batch) := by
  unfold Rt.backendDispatch
  split
  · exact .refl
  · exact foldl_shifts batch (fun a e he ha => ha.pollBackendDispatch he) h
  · exact foldl_shifts batch (fun a e he ha => ha.epollBackendDispatchLoop he 3 _) h
  · exact foldl_shifts batch (fun a e he ha => ha.kqueueBackendDispatch he) h

/-! ## Timers -/

/-- A task that has been popped from the heap is one that waits with a timer. -/
theorem Inv.timerFire (h : s.Inv) {items : List TaskId} (hmem : t ∈ s.timers.items)
    (hp : s.Disarms t items) {nowNs : Nat} (hnow : (s.task t).wakeNs ≤ nowNs) :
    Ticks (.expiry nowNs) s (({ s with timers := { s.timers with items := items } }.modTask t fun k =>
      { k with wakeNs := 0 }).timerFire t) := by
  obtain ⟨ht, hslot⟩ := (h.task.placed.mem .timers t).mp hmem
  have hst : (({ s with timers := { s.timers with items := items } }.modTask t fun k =>
      { k with wakeNs := 0 }).task t).state = (s.task t).state := by simp [modTask]
  unfold Rt.timerFire
  rw [hst]
  cases hs : (s.task t).state with
  | waitingSelect =>
      have hin : (s.task t).selectInTimer = true := by
        by_contra hc
        simp [Task.slot, hs, hc] at hslot
      simp only
      rw [h.selectTimeoutReady ht hs hin items]
      exact .single (.timeout t items ht hs hin hp ⟨nowNs, rfl, hnow⟩)
  | waitingFd =>
      obtain ⟨w, hw, ha, howner, heq⟩ := h.fdTimeoutReady ht hs items
      simp only
      rw [heq]
      exact .single (.fd (.wake w items .timeout 0 hw ha (howner ▸ hp)
        ⟨rfl, rfl, howner ▸ hnow⟩))
  | sleeping =>
      simp only
      rw [taskMarkReady_wakeSleep]
      exact .single (.wakeSleep t items ht hs hp ⟨nowNs, rfl, hnow⟩)
  | ready => simp [Task.slot, hs] at hslot
  | running => simp [Task.slot, hs] at hslot
  | dead => simp [Task.slot, hs] at hslot
  | waitingChan => simp [Task.slot, hs] at hslot
  | waitingJoin => simp [Task.slot, hs] at hslot

theorem Inv.wakeExpiredTimersLoop (h : s.Inv) (nowNs fuel : Nat) :
    Ticks (.expiry nowNs) s (wakeExpiredTimersLoop nowNs fuel s) := by
  induction fuel generalizing s with
  | zero => exact .refl
  | succ fuel ih =>
      unfold Rt.wakeExpiredTimersLoop
      split
      · exact .refl
      · next top hpeek =>
        split
        · exact .refl
        · next hnow =>
          split
          · exact .refl
          · next t a hpop =>
              obtain ⟨items, hp, hhead, rfl⟩ := timerPop_eq_some hpop
              obtain rfl := Option.some.inj (hpeek.symm.trans hhead)
              have hstep := h.timerFire (List.mem_of_head? hhead) hp (Nat.not_lt.mp hnow)
              exact hstep.trans (ih (Shifts.inv (Ticks.shifts hstep) h))

theorem Inv.wakeExpiredTimers (h : s.Inv) (nowNs : Nat) :
    Ticks (.expiry nowNs) s (s.wakeExpiredTimers nowNs) :=
  h.wakeExpiredTimersLoop nowNs _

/-- A sleeping task is parked in the heap; without memory for the timer nothing happens. -/
theorem sleepMs_cases (s : Rt) (t : TaskId) (ms nowNs : Nat) :
    (ms = 0 ∧ s.sleepMs t ms nowNs = s.yield t) ∨
      (∃ timers tape wakeNs, s.Arms t timers wakeNs ∧
        s.sleepMs t ms nowNs = (.park, ({ s with tape := tape } : Rt).parkSleep t timers wakeNs)) ∨
      ∃ tape, s.sleepMs t ms nowNs = (.ret .ok, { s with tape := tape }) := by
  unfold sleepMs
  by_cases hms : ms = 0
  · rw [if_pos hms]
    exact .inl ⟨hms, rfl⟩
  · rw [if_neg hms]
    rcases s.timerPushState_eq t (deadlineFromTimeout nowNs ms) .sleeping with
      ⟨timers, tape, hp, heq⟩ | ⟨tape, heq⟩
    · rw [timerPush, heq]
      exact .inr (.inl ⟨timers, tape, _, hp, rfl⟩)
    · rw [timerPush, heq]
      exact .inr (.inr ⟨tape, rfl⟩)

/-! ## Waiting for a descriptor -/

/-- The result fields of a descriptor wait are reset. -/
def touchFd (s : Rt) (t : TaskId) : Rt :=
  s.modTask t fun k => { k with fdResult := .ok, fdReadyEvents := 0, fdInTimer := false }

theorem registerError_eq (s : Rt) :
    ∃ rc tape, rc ≠ .ok ∧ s.registerError = (rc, { s with tape := tape }) := by
  unfold registerError
  obtain ⟨ok, tape, h⟩ := s.ask_eq
  rw [h]
  cases ok with
  | false => exact ⟨_, tape, by simp, rfl⟩
  | true => exact ⟨_, tape, by simp, rfl⟩

/-- The interest set once the kernel watches for `events` at `fd` as well. -/
def interestWith (s : Rt) (fd events : Nat) : Nat → Option Nat :=
  if s.ioBackendKind = .epoll then Function.update s.interest fd
    (some (epollEventsFromFdEvents (s.fdActiveEventsForFd fd 0 ||| events)))
  else s.interest

/-- The interest set once a registration has been taken back. -/
def interestUndone (s : Rt) (fd events : Nat) : Nat → Option Nat :=
  { s with interest := s.interestWith fd events }.interestAfter fd (s.fdActiveEventsForFd fd 0)

/-- The filters once the kqueue watches for `events` at `fd` as well. -/
def filtersWith (s : Rt) (fd events : Nat) : Nat → Nat → Bool :=
  if s.ioBackendKind = .kqueue then (kqueueChanges events).foldl (addFilter fd) s.filters
  else s.filters

/-- The filters once a registration has been taken back. -/
def filtersUndone (s : Rt) (fd events : Nat) : Nat → Nat → Bool :=
  if s.ioBackendKind = .kqueue then keventDelete fd (s.filtersWith fd events) (kqueueChanges events)
  else s.filters

/-- The kernel accepts a registration: epoll watches the descriptor already if and only if
there are active waiters for it. -/
def Watchable (s : Rt) (fd : Nat) : Prop :=
  s.ioBackendKind = .epoll → ((s.interest fd).isSome = true ↔ s.fdActiveEventsForFd fd 0 ≠ 0)

/-- Only linked waiters count. -/
theorem fdActiveEventsForFd_congr {a b : Rt} (hl : a.fdWaiters = b.fdWaiters)
    (hw : ∀ w ∈ b.fdWaiters, a.fdw w = b.fdw w) (fd n : Nat) :
    a.fdActiveEventsForFd fd n = b.fdActiveEventsForFd fd n := by
  unfold fdActiveEventsForFd
  rw [hl]
  refine List.foldl_ext _ _ _ fun m w hmem => ?_
  have hactive : a.fdWaiterIsActive w = b.fdWaiterIsActive w := by
    rw [fdWaiterIsActive, fdWaiterIsActive, hw w hmem]
  simp only [hactive, hw w hmem]

theorem interestWith_congr {a b : Rt} (hk : a.ioBackendKind = b.ioBackendKind)
    (hi : a.interest = b.interest) (hl : a.fdWaiters = b.fdWaiters)
    (hw : ∀ w ∈ b.fdWaiters, a.fdw w = b.fdw w) (fd events : Nat) :
    a.interestWith fd events = b.interestWith fd events := by
  unfold interestWith
  rw [hk, hi, fdActiveEventsForFd_congr hl hw]

/-- The kernel takes the new mask, or refuses it. -/
theorem epollCtl_watch (s : Rt) {op : EpollOp} (hop : op ≠ .del) (fd mask : Nat) :
    ∃ ok tape, (ok = true → ((s.interest fd).isSome = true ↔ op = .mod)) ∧
      s.epollCtl op fd mask = (ok, { s with
        interest := if ok then Function.update s.interest fd (some mask) else s.interest
        tape := tape }) := by
  unfold epollCtl
  split
  · next hnone =>
      obtain ⟨ok, tape, h⟩ := s.ask_eq
      rw [h]
      cases ok with
      | false => exact ⟨false, tape, by simp, rfl⟩
      | true => exact ⟨true, tape, by simp [hnone], rfl⟩
  · next hsome => exact ⟨true, s.tape, by simp [hsome], rfl⟩
  · exact absurd rfl hop
  · exact ⟨false, s.tape, by simp, rfl⟩

/-- The kernel takes all changes of a list, or some at its head. -/
theorem keventAdd_eq (s : Rt) (fd : Nat) (l : List Nat) :
    ∃ ok filters tape, (ok = true → filters = l.foldl (addFilter fd) s.filters) ∧
      keventAdd fd l s = (ok, { s with filters := filters, tape := tape }) := by
  induction l generalizing s with
  | nil => exact ⟨true, s.filters, s.tape, fun _ => rfl, rfl⟩
  | cons filter rest ih =>
      obtain ⟨ok, tape, h⟩ := s.ask_eq
      rw [keventAdd, h]
      cases ok with
      | false => exact ⟨false, s.filters, tape, by simp, rfl⟩
      | true =>
          obtain ⟨ok, filters, tape', hok, heq⟩ :=
            ih { s with tape := tape, filters := addFilter fd s.filters filter }
          exact ⟨ok, filters, tape', hok, heq⟩

theorem ioBackendAdd_eq (s : Rt) (w : FdWaiterId) :
    ∃ rc filters tape, (rc = .ok → s.Watchable (s.fdw w).fd ∧
        filters = s.filtersWith (s.fdw w).fd (s.fdw w).events) ∧
      s.ioBackendAdd w = (rc, { s with
        interest := if rc = .ok then s.interestWith (s.fdw w).fd (s.fdw w).events else s.interest
        filters := filters, tape := tape }) := by
  have hfail : ∀ filters tape, ∃ rc filters' tape', (rc = .ok → s.Watchable (s.fdw w).fd ∧
        filters' = s.filtersWith (s.fdw w).fd (s.fdw w).events) ∧
      ({ s with filters := filters, tape := tape } : Rt).registerError = (rc, { s with
        interest := if rc = .ok then s.interestWith (s.fdw w).fd (s.fdw w).events else s.interest
        filters := filters', tape := tape' }) := fun filters tape => by
    obtain ⟨rc, tape', hrc, h⟩ := ({ s with filters := filters, tape := tape } : Rt).registerError_eq
    exact ⟨rc, filters, tape', fun hok => absurd hok hrc, by rw [h, if_neg hrc]⟩
  unfold ioBackendAdd
  split
  · next hk =>
      unfold epollBackendAdd
      simp only
      obtain ⟨ok, tape, hwatch, h⟩ := s.epollCtl_watch
        (show (if s.fdActiveEventsForFd (s.fdw w).fd 0 ≠ 0 then EpollOp.mod else .add) ≠ .del by
          split <;> simp) (s.fdw w).fd
        (epollEventsFromFdEvents (s.fdActiveEventsForFd (s.fdw w).fd 0 ||| (s.fdw w).events))
      rw [h]
      cases ok with
      | true =>
          refine ⟨.ok, s.filters, tape, fun _ => ⟨fun _ => (hwatch rfl).trans ?_, ?_⟩, by
            simp [interestWith, hk]⟩
          · split
            · next hne => exact iff_of_true rfl hne
            · next hne => exact iff_of_false (by simp) hne
          · simp [filtersWith, hk]
      | false => exact hfail s.filters tape
  · next hk =>
      unfold kqueueBackendAdd
      obtain ⟨ok, filters, tape, hok, h⟩ :=
        s.keventAdd_eq (s.fdw w).fd (kqueueChanges (s.fdw w).events)
      rw [h]
      cases ok with
      | true =>
          exact ⟨.ok, filters, tape, fun _ => ⟨fun he => absurd (hk.symm.trans he) (by simp), by
            rw [filtersWith, if_pos hk, hok rfl]⟩, by simp [interestWith, hk]⟩
      | false => exact hfail filters tape
  · next hk hk' =>
      exact ⟨.ok, s.filters, s.tape, fun _ => ⟨fun he => absurd he hk, by
        rw [filtersWith, if_neg hk']⟩, by rw [if_pos rfl, interestWith, if_neg hk]⟩

/-- The state in which the waiter of `mt_fd_wait` is allocated and not yet registered. -/
def fdPrepared (s : Rt) (t : TaskId) (x : FdWaiter) : Rt :=
  { s with
    nextAddr := s.nextAddr + 1
    made := Function.update s.made (.fdWaiter s.nextAddr) true
    fdw := Function.update s.fdw s.nextAddr x
    task := Function.update s.task t { s.task t with
      fdWaiter := some s.nextAddr, fdResult := .ok, fdReadyEvents := 0, fdInTimer := false } }

section

variable (h : s.Inv) (hfd : (s.task t).fdWaiter = none)

include h in
theorem Inv.fd_fresh : s.nextAddr ∉ s.fdWaiters := by
  intro hmem
  have := h.heap.fresh _ (h.heap.fdWaiter _ hmem)
  exact absurd this (lt_irrefl _)

include h hfd in
/-- A waiter that was not registered is freed. -/
theorem Inv.fdFreeWaiter_prepared {x : FdWaiter} (hx : x.state = .removed)
    (interest filters tape) :
    ((({ s.fdPrepared t x with
        interest := interest, filters := filters, tape := tape } : Rt).modTask t fun k =>
      { k with fdWaiter := none }).fdFreeWaiter s.nextAddr) =
      (({ s with
        interest := interest, filters := filters, tape := tape } : Rt).touchFd t).wasteFd x := by
  have hxeq : ({ x with state := .removed } : FdWaiter) = x := by rw [← hx]
  rw [fdFreeWaiter_of_removed (s := Rt.modTask ({ s.fdPrepared t x with
    interest := interest, filters := filters, tape := tape }) t _)]
  · simp [fdPrepared, modTask, free, touchFd, Rt.wasteFd, Rt.waste, hfd, hxeq]
  · simp [fdPrepared, modTask, hx]
  · exact h.fd_fresh

/-- The state in which that waiter is registered. -/
def fdRegistered (s : Rt) (t : TaskId) (x : FdWaiter) (tape : List Bool) : Rt :=
  { s.fdPrepared t x with
    interest := s.interestWith x.fd x.events, filters := s.filtersWith x.fd x.events, tape := tape
    fdw := Function.update s.fdw s.nextAddr { x with state := .active }
    fdWaiters := s.nextAddr :: s.fdWaiters
    fdWaitingCount := s.fdWaitingCount + 1 }

include h in
theorem Inv.fdw_fresh (x : FdWaiter) : ∀ w ∈ s.fdWaiters,
    Function.update s.fdw s.nextAddr x w = s.fdw w := fun _ hw =>
  Function.update_of_ne (ne_of_mem_of_not_mem hw h.fd_fresh) _ _

include h in
theorem Inv.fdWaiterAdd_prepared (x : FdWaiter) :
    ∃ rc filters tape, (rc = .ok → s.Watchable x.fd) ∧
      (s.fdPrepared t x).fdWaiterAdd s.nextAddr = (rc, if rc = .ok then s.fdRegistered t x tape
        else { s.fdPrepared t x with filters := filters, tape := tape }) := by
  unfold fdWaiterAdd
  obtain ⟨rc, filters, tape, hwatch, hadd⟩ := (s.fdPrepared t x).ioBackendAdd_eq s.nextAddr
  have hself : (s.fdPrepared t x).fdw s.nextAddr = x := by simp [fdPrepared]
  have hi : (s.fdPrepared t x).interestWith x.fd x.events = s.interestWith x.fd x.events :=
    interestWith_congr (a := s.fdPrepared t x) (b := s) rfl rfl rfl (h.fdw_fresh x) _ _
  have hevents : (s.fdPrepared t x).fdActiveEventsForFd x.fd 0 = s.fdActiveEventsForFd x.fd 0 :=
    fdActiveEventsForFd_congr (a := s.fdPrepared t x) (b := s) rfl (h.fdw_fresh x) _ _
  rw [hself, hi] at hadd
  refine ⟨rc, filters, tape, fun hok hk => ?_, ?_⟩
  · have := (hwatch hok).1 hk
    rwa [hself, hevents] at this
  rw [hadd]
  cases rc with
  | ok =>
      have hf := (hwatch rfl).2
      rw [hself] at hf
      obtain rfl : filters = s.filtersWith x.fd x.events := hf
      simp [modFdw, fdRegistered, fdPrepared]
  | _ => rfl

/-- The task is parked on its registered waiter. -/
theorem parkFd_registered (s : Rt) (t : TaskId) {x : FdWaiter} (hx : x.task = t)
    (tape tape' : List Bool) (timers : Timers) (deadlineNs : Nat) :
    (({ s.fdRegistered t x tape with
        tape := tape', timers := timers
        task := Function.update (s.fdRegistered t x tape).task t
          { (s.fdRegistered t x tape).task t with
            wakeNs := deadlineNs, timerSeq := (s.fdRegistered t x tape).timers.nextSeq
            state := .waitingFd } } : Rt).modTask t fun k => { k with fdInTimer := true }) =
      ({ s with
        interest := s.interestWith x.fd x.events, filters := s.filtersWith x.fd x.events
        tape := tape' } : Rt).parkFd t timers deadlineNs x := by
  subst hx
  simp only [modTask, fdRegistered, fdPrepared, parkFd, Function.update_self, Function.update_idem]

include h hfd in
/-- A waiter whose timer could not be armed is unregistered and freed. -/
theorem Inv.fdRemove_registered {x : FdWaiter} (hx : x.state = .removed) (tape tape') :
    ((({ s.fdRegistered t x tape with
        tape := tape' } : Rt).fdWaiterRemove s.nextAddr).2.modTask t fun k =>
          { k with fdWaiter := none }).fdFreeWaiter s.nextAddr =
      (({ s with
        interest := s.interestUndone x.fd x.events, filters := s.filtersUndone x.fd x.events
        tape := tape' } : Rt).touchFd t).wasteFd x := by
  have hxeq : ({ x with state := .removed } : FdWaiter) = x := by rw [← hx]
  set a : Rt := { s.fdRegistered t x tape with tape := tape' } with ha
  have hact : a.fdWaiterIsActive s.nextAddr = true := by
    simp [ha, fdWaiterIsActive, fdRegistered]
  set b := a.modFdw s.nextAddr fun k => { k with state := .removed } with hb
  have hself : b.fdw s.nextAddr = x := by simp [hb, ha, modFdw, fdRegistered, hxeq]
  have hevents : b.fdActiveEventsForFd x.fd 0 = s.fdActiveEventsForFd x.fd 0 := by
    have hstep : b.fdActiveEventsForFd x.fd 0 =
        { b with fdWaiters := s.fdWaiters }.fdActiveEventsForFd x.fd 0 := by
      have hidle : b.fdWaiterIsActive s.nextAddr = false := by
        simp [fdWaiterIsActive, hself, hx]
      unfold fdActiveEventsForFd
      change (s.nextAddr :: s.fdWaiters).foldl _ 0 = _
      simp only [List.foldl_cons, hidle, Bool.false_and, Bool.false_eq_true, if_false]
      rfl
    rw [hstep]
    refine fdActiveEventsForFd_congr (a := { b with fdWaiters := s.fdWaiters }) (b := s) rfl
      (fun w hw => ?_) _ _
    simp [hb, ha, modFdw, fdRegistered, ne_of_mem_of_not_mem hw h.fd_fresh]
  have hrem : (a.fdWaiterRemove s.nextAddr).2 = { s.fdPrepared t x with
      interest := s.interestUndone x.fd x.events, filters := s.filtersUndone x.fd x.events
      tape := tape' } := by
    simp only [fdWaiterRemove, fdWaiterDeactivate, hact, if_true, Bool.false_eq_true, if_false]
    have hfilters : b.filtersWithout s.nextAddr = s.filtersUndone x.fd x.events := by
      unfold filtersWithout filtersUndone
      rw [hself]
      change (if s.ioBackendKind = .kqueue then keventDelete x.fd (s.filtersWith x.fd x.events) _
        else s.filtersWith x.fd x.events) = _
      split
      · rfl
      · next hk => rw [filtersWith, if_neg hk]
    rw [← hb, ioBackendRemove_eq, hself, hevents, hfilters]
    simp [hb, ha, modFdw, guarded, fdWaiterUnlink, fdPrepared, fdRegistered, hxeq, interestUndone,
      interestAfter]
  rw [hrem]
  exact h.fdFreeWaiter_prepared hfd hx _ _ tape'

/-- The waiter that `mt_fd_wait` fills. -/
def waiterFor (t : TaskId) (fd events gen : Nat) (inst : Option Nat) : FdWaiter :=
  { task := t, fd := fd, events := events, generation := gen, inst := inst }

/-- What the first section of `mt_fd_wait` does. A second answer of the tape is the one of
the allocation of the generation entry. -/
inductive FdWaits (s : Rt) (t : TaskId) (fd events : Nat) (inst : Option Nat) :
    Outcome → Rt → Prop where
  | answered (rc tape) : FdWaits s t fd events inst (.ret rc) { s with tape := tape }
  | refused (rc gen gens interest filters tape) : rc ≠ .ok →
      Current { s with tape := s.tape.tail } fd gen gens →
      interest = s.interest ∨ interest = s.interestUndone fd events ∧ s.Watchable fd →
      FdWaits s t fd events inst (.ret rc) (({ s with
        fdGenerations := gens, interest := interest, filters := filters
        tape := tape } : Rt).touchFd t |>.wasteFd (waiterFor t fd events gen inst))
  | parked (gen gens tape timers wakeNs) : Current { s with tape := s.tape.tail } fd gen gens →
      s.fdIsClosing fd = false → s.fdWaiterConflicts fd events = false →
      s.Arms t timers wakeNs → s.Watchable fd →
      FdWaits s t fd events inst .park (({ s with
        fdGenerations := gens, interest := s.interestWith fd events
        filters := s.filtersWith fd events, tape := tape } : Rt).parkFd t timers wakeNs
          (waiterFor t fd events gen inst))

include h hfd in
/-- Registration of a prepared waiter: the task is parked on it, or it is freed again. -/
theorem Inv.fdWaitRegister {x : FdWaiter} (hx : x.state = .removed) (hxt : x.task = t)
    (timeoutMs nowNs : Nat) :
    match (s.fdPrepared t x).fdWaitRegister t s.nextAddr timeoutMs nowNs with
    | (.ret rc, s') => rc ≠ .ok ∧ ∃ interest filters tape,
        (interest = s.interest ∨ interest = s.interestUndone x.fd x.events ∧ s.Watchable x.fd) ∧
        s' = (({ s with
          interest := interest, filters := filters, tape := tape } : Rt).touchFd t).wasteFd x
    | (.park, s') => ∃ tape timers wakeNs, s.Arms t timers wakeNs ∧
        s.Watchable x.fd ∧ s' = ({ s with
          interest := s.interestWith x.fd x.events, filters := s.filtersWith x.fd x.events
          tape := tape } : Rt).parkFd t timers wakeNs x := by
  unfold Rt.fdWaitRegister
  obtain ⟨rc, filters, tape, hwatch, hadd⟩ := h.fdWaiterAdd_prepared (t := t) x
  rw [hadd]
  cases rc with
  | ok =>
      simp only [if_true]
      rcases (s.fdRegistered t x tape).timerPushState_eq t
          (deadlineFromTimeout nowNs timeoutMs) .waitingFd with
        ⟨timers, tp, hperm, heq⟩ | ⟨tp, heq⟩
      · rw [heq]
        simp only
        rw [parkFd_registered s t hxt]
        have hkey : (s.fdRegistered t x tape).timerKey = s.timerKey :=
          timerKey_of_update rfl rfl rfl
        exact ⟨tp, timers, _, hperm.congr hkey.symm rfl, hwatch rfl, rfl⟩
      · rw [heq]
        exact ⟨by simp, _, _, tp, .inr ⟨rfl, hwatch rfl⟩, h.fdRemove_registered hfd hx tape tp⟩
  | _ =>
      exact ⟨by simp, _, _, tape, .inl rfl, h.fdFreeWaiter_prepared hfd hx s.interest filters tape⟩

theorem ask_tail (s : Rt) : s.ask.2 = { s with tape := s.tape.tail } := by
  unfold ask
  cases htape : s.tape with
  | nil => exact congrArg (fun x => ({ s with tape := x } : Rt)) htape
  | cons b rest => rfl

include h hfd in
theorem Inv.fdWaitPark {fd events : Nat} (hopen : s.fdIsClosing fd = false)
    (hconf : s.fdWaiterConflicts fd events = false) (timeoutMs nowNs : Nat) (inst : Option Nat) :
    FdWaits s t fd events inst (s.fdWaitPark t fd events timeoutMs nowNs inst).1
      (s.fdWaitPark t fd events timeoutMs nowNs inst).2 := by
  have htail := s.ask_tail
  unfold Rt.fdWaitPark
  generalize s.ask = p at htail
  obtain ⟨ok, a⟩ := p
  simp only at htail
  subst htail
  cases ok with
  | false => exact .answered .nomem _
  | true =>
      simp only [alloc]
      obtain ⟨gen, gens, tape, hcur, heq⟩ := fdGenerationCurrent_eq { s with
        tape := s.tape.tail, nextAddr := s.nextAddr + 1
        made := Function.update s.made (.fdWaiter s.nextAddr) true } fd
      replace hcur : Current { s with tape := s.tape.tail } fd gen gens := by
        cases hcur with
        | found g hg => exact .found g hg
        | failed hg hf => exact .failed hg hf
        | entered hg => exact .entered hg
      rw [heq]
      simp only
      set c : Rt := { s with fdGenerations := gens, tape := tape } with hc
      have hinv : c.Inv := Quiet.inv ⟨gens, s.ioPolling, s.interest, s.filters, tape, rfl⟩ h
      have key := hinv.fdWaitRegister (t := t) (x := waiterFor t fd events gen inst) hfd rfl rfl
        timeoutMs nowNs
      change FdWaits s t fd events inst
        ((c.fdPrepared t (waiterFor t fd events gen inst)).fdWaitRegister t c.nextAddr timeoutMs
          nowNs).1
        ((c.fdPrepared t (waiterFor t fd events gen inst)).fdWaitRegister t c.nextAddr timeoutMs
          nowNs).2
      generalize (c.fdPrepared t (waiterFor t fd events gen inst)).fdWaitRegister t c.nextAddr
        timeoutMs nowNs = r at key
      obtain ⟨_ | rc, s'⟩ := r
      · obtain ⟨hrc, interest, filters, tp, hi, rfl⟩ := key
        exact .refused _ gen gens interest filters tp hrc hcur hi
      · obtain ⟨tp, timers, wakeNs, hperm, hwatch, rfl⟩ := key
        exact .parked gen gens tp timers wakeNs hcur hopen hconf (hperm.congr rfl rfl) hwatch

include h hfd in
/-- The first section of `mt_fd_wait`. -/
theorem Inv.fdWait (fd events timeoutMs nowNs : Nat) (poll : PollResult) (inst : Option Nat) :
    FdWaits s t fd events inst (s.fdWait t fd events timeoutMs nowNs poll inst).1
      (s.fdWait t fd events timeoutMs nowNs poll inst).2.2 := by
  unfold Rt.fdWait
  by_cases hclosing : s.fdIsClosing fd = true
  · rw [if_pos hclosing]
    exact .answered _ s.tape
  rw [if_neg hclosing]
  by_cases hconf : s.fdWaiterConflicts fd events = true
  · rw [if_pos hconf]
    exact .answered _ s.tape
  rw [if_neg hconf]
  cases poll with
  | failed ebadf => exact .answered _ s.tape
  | revents bits =>
      by_cases hbits : bits ≠ 0
      · simp only [if_pos hbits]
        exact .answered _ s.tape
      by_cases hzero : timeoutMs = 0
      · simp only [if_neg hbits, if_pos hzero]
        exact .answered _ s.tape
      simp only [if_neg hbits, if_neg hzero]
      exact h.fdWaitPark hfd (by simpa using hclosing) (by simpa using hconf) timeoutMs nowNs inst

end

/-- The second section of `mt_fd_wait`. -/
theorem Inv.fdWaitFinish (h : s.Inv) (ht : t ∈ s.allTasks) (hs : (s.task t).state = .running)
    {w : FdWaiterId} (hw : (s.task t).fdWaiter = some w) :
    (s.fdWaitFinish t w).2.2 = s.finishFd t w := by
  obtain ⟨hmem, hown⟩ := h.fd.linked t ht w hw
  obtain ⟨-, -, -, hact⟩ := h.fd.owner w hmem
  have hinactive : (s.fdw w).state ≠ .active := by
    rw [hown, hs] at hact
    exact fun ha => absurd (hact.mp ha) (by simp)
  simp only [Rt.fdWaitFinish, hw, if_true, fdFreeWaiter]
  rw [fdWaiterRemove_of_inactive (s := s.modTask t _) hinactive]
  rfl

/-- A running runtime is told to stop. -/
def halt (s : Rt) : Rt := { s with stopping := true, runResult := .cancelled }

theorem Inv.shutdownRunning (h : s.Inv) : FdShifts .halt s.halt s.shutdownRunning := by
  have hinv : s.halt.Inv := h.congr (by constructor <;> rfl) rfl rfl rfl rfl
  exact hinv.fdWakeAll .cancelled fun _ _ => ⟨rfl, rfl⟩

end Rt

end Microthread
