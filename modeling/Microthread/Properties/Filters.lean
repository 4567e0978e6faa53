import Microthread.Invariant.Descriptors

/-!
# The filters of the kqueue

`mt_kqueue_backend_add` hands the kernel up to two changes in one `kevent` call. The kernel goes
through them in order and stops at the first that it refuses, so a registration that fails can
leave a filter behind; and a registration that is taken back deletes its filters whether it
has added them or found them there. What such a registration leaves is decided by the answers
of the kernel and by the filters of before.
-/

namespace Microthread

open Foundation

namespace Rt

variable {s s' : Rt} {t : TaskId} {fd events : Nat} {l : List Nat}

/-! ## The answers of a section -/

/-- The answer of the allocator or the kernel to the `n`-th question of a section. -/
def answer (s : Rt) (n : Nat) : Bool := s.tape.getD n true

theorem ask_answer (s : Rt) : s.ask = (s.answer 0, { s with tape := s.tape.drop 1 }) := by
  refine Prod.ext ?_ (by rw [ask_tail, List.drop_one])
  unfold ask answer
  split
  · next h => simp [h]
  · next h => simp [h]

@[simp] theorem answer_drop (s : Rt) (k n : Nat) :
    { s with tape := s.tape.drop k }.answer n = s.answer (k + n) := by
  simp [answer, List.getD_eq_getElem?_getD, List.getElem?_drop]

/-! ## Filters added and deleted -/

theorem foldl_addFilter_apply (filters : Nat → Nat → Bool) (g f : Nat) :
    l.foldl (addFilter fd) filters g f = (filters g f || (g == fd && l.contains f)) := by
  induction l generalizing filters with
  | nil => simp
  | cons a l ih =>
      rw [List.foldl_cons, ih, addFilter]
      by_cases hg : g = fd
      · subst hg
        by_cases hf : f = a
        · subst hf
          simp
        · simp [hf]
      · have hno : (g == fd) = false := by simpa using hg
        simp [hg, hno]

theorem foldl_addFilter_eq_self (filters : Nat → Nat → Bool) :
    l.foldl (addFilter fd) filters = filters ↔ ∀ f ∈ l, filters fd f = true := by
  constructor
  · intro h f hf
    have hadd : l.foldl (addFilter fd) filters fd f = _ := foldl_addFilter_apply filters fd f
    rw [h] at hadd
    simpa [hf] using hadd
  · intro h
    funext g f
    rw [foldl_addFilter_apply]
    by_cases hg : g = fd ∧ f ∈ l
    · obtain ⟨rfl, hf⟩ := hg
      simp [h f hf]
    · have hno : (g == fd && l.contains f) = false := by simpa using hg
      rw [hno, Bool.or_false]

theorem keventDelete_apply (hl : l.Nodup) (filters : Nat → Nat → Bool)
    (hin : ∀ f ∈ l, filters fd f = true) (g f : Nat) :
    keventDelete fd filters l g f = (filters g f && !(g == fd && l.contains f)) := by
  induction l generalizing filters with
  | nil => simp [keventDelete]
  | cons a l ih =>
      obtain ⟨ha, hl⟩ := List.nodup_cons.mp hl
      obtain ⟨hfirst, hrest⟩ := List.forall_mem_cons.mp hin
      rw [keventDelete, if_pos hfirst, ih hl _ fun f hf => ?_]
      · by_cases hg : g = fd
        · subst hg
          by_cases hf : f = a
          · subst hf
            simp
          · simp [hf]
        · have hno : (g == fd) = false := by simpa using hg
          simp [hg, hno]
      · simpa [Function.update_of_ne (ne_of_mem_of_not_mem hf ha)] using hrest f hf

theorem kqueueChanges_nodup (events : Nat) : (kqueueChanges events).Nodup := by
  unfold kqueueChanges
  split <;> split <;> simp [fdRead, fdWrite]

/-- A registration that is taken back leaves none of its filters. -/
theorem filtersUndone_eq_self (hk : s.ioBackendKind = .kqueue) :
    s.filtersUndone fd events = s.filters ↔
      ∀ f ∈ kqueueChanges events, s.filters fd f = false := by
  have happly : ∀ g f, s.filtersUndone fd events g f =
      (s.filters g f && !(g == fd && (kqueueChanges events).contains f)) := fun g f => by
    rw [filtersUndone, filtersWith, if_pos hk, if_pos hk,
      keventDelete_apply (kqueueChanges_nodup events), foldl_addFilter_apply]
    · cases s.filters g f <;> cases (g == fd && (kqueueChanges events).contains f) <;> rfl
    · intro f hf
      simp [foldl_addFilter_apply, hf]
  constructor
  · intro h f hf
    have hgone := happly fd f
    rw [h] at hgone
    simpa [hf] using hgone
  · intro h
    funext g f
    rw [happly]
    by_cases hg : g = fd ∧ f ∈ kqueueChanges events
    · obtain ⟨rfl, hf⟩ := hg
      simp [h f hf]
    · have hno : (g == fd && (kqueueChanges events).contains f) = false := by simpa using hg
      rw [hno, Bool.not_false, Bool.and_true]

/-- A `kevent` call ends with its list, or at the first change that the kernel refuses. -/
theorem keventAdd_cases (s : Rt) (fd : Nat) (l : List Nat) :
    (∀ i < l.length, s.answer i = true) ∧ keventAdd fd l s = (true, { s with
      filters := l.foldl (addFilter fd) s.filters, tape := s.tape.drop l.length }) ∨
    ∃ i < l.length, (∀ j < i, s.answer j = true) ∧ s.answer i = false ∧
      keventAdd fd l s = (false, { s with
        filters := (l.take i).foldl (addFilter fd) s.filters, tape := s.tape.drop (i + 1) }) := by
  induction l generalizing s with
  | nil => exact .inl ⟨by simp, rfl⟩
  | cons a l ih =>
      rw [keventAdd, ask_answer]
      cases h0 : s.answer 0 with
      | false => exact .inr ⟨0, by simp, by simp, h0, by simp⟩
      | true =>
          simp only
          have hnext : ∀ n, { s with
              filters := addFilter fd s.filters a, tape := s.tape.drop 1 }.answer n =
                s.answer (n + 1) := fun n => by
            rw [Nat.add_comm]
            exact s.answer_drop 1 n
          have hpre : ∀ n, (∀ j < n, s.answer (j + 1) = true) → ∀ j < n + 1, s.answer j = true :=
            fun n hn j hj => by
              cases j with
              | zero => exact h0
              | succ j => exact hn j (by omega)
          rcases ih { s with filters := addFilter fd s.filters a, tape := s.tape.drop 1 } with
            ⟨hall, heq⟩ | ⟨i, hi, hbefore, hno, heq⟩
          · refine .inl ⟨hpre _ fun j hj => hnext j ▸ hall j hj, ?_⟩
            rw [heq, List.drop_drop, List.length_cons, Nat.add_comm]
            rfl
          · refine .inr ⟨i + 1, by simpa using hi, hpre i fun j hj => hnext j ▸ hbefore j hj,
              hnext i ▸ hno, ?_⟩
            rw [heq, List.drop_drop, Nat.add_comm]
            rfl

/-! ## The registration of a waiter -/

theorem fdWaiterAdd_backend (s : Rt) (w : FdWaiterId) :
    (s.fdWaiterAdd w).1 = (s.ioBackendAdd w).1 ∧
      (s.fdWaiterAdd w).2.filters = (s.ioBackendAdd w).2.filters ∧
      (s.fdWaiterAdd w).2.tape = (s.ioBackendAdd w).2.tape := by
  unfold fdWaiterAdd
  split
  · next heq => simp [heq, modFdw]
  · next heq => simp [heq]

theorem ioBackendAdd_filters (hk : s.ioBackendKind ≠ .kqueue) (w : FdWaiterId) :
    (s.ioBackendAdd w).2.filters = s.filters := by
  unfold ioBackendAdd
  split
  · unfold epollBackendAdd
    obtain ⟨ok, tape, -, heq⟩ := s.epollCtl_watch
      (show (if s.fdActiveEventsForFd (s.fdw w).fd 0 ≠ 0 then EpollOp.mod else .add) ≠ .del by
        split <;> simp) (s.fdw w).fd
      (epollEventsFromFdEvents (s.fdActiveEventsForFd (s.fdw w).fd 0 ||| (s.fdw w).events))
    simp only [heq]
    cases ok with
    | true => rfl
    | false =>
        obtain ⟨rc, tape', -, herr⟩ := ({ s with tape := tape } : Rt).registerError_eq
        exact congrArg (fun r => r.2.filters) herr
  · next hkq => exact absurd hkq hk
  · rfl

/-- The kernel has accepted all changes for a waiter, or it has refused one. -/
theorem kqueueBackendAdd_cases (hk : s.ioBackendKind = .kqueue) {w : FdWaiterId} {x : FdWaiter}
    (hx : s.fdw w = x) :
    (∀ i < (kqueueChanges x.events).length, s.answer i = true) ∧ (s.ioBackendAdd w).1 = .ok ∧
      (s.ioBackendAdd w).2.tape = s.tape.drop (kqueueChanges x.events).length ∨
    ∃ i < (kqueueChanges x.events).length, (∀ j < i, s.answer j = true) ∧ s.answer i = false ∧
      (s.ioBackendAdd w).1 ≠ .ok ∧ (s.ioBackendAdd w).2.filters =
        ((kqueueChanges x.events).take i).foldl (addFilter x.fd) s.filters := by
  simp only [ioBackendAdd, hk, kqueueBackendAdd, hx]
  rcases s.keventAdd_cases x.fd (kqueueChanges x.events) with
    ⟨hall, heq⟩ | ⟨i, hi, hbefore, hno, heq⟩
  · rw [heq]
    exact .inl ⟨hall, rfl, rfl⟩
  · rw [heq]
    obtain ⟨rc, tape, hrc, herr⟩ := registerError_eq { s with
      filters := ((kqueueChanges x.events).take i).foldl (addFilter x.fd) s.filters
      tape := s.tape.drop (i + 1) }
    refine .inr ⟨i, hi, hbefore, hno, ?_⟩
    simp only [herr]
    exact ⟨hrc, trivial⟩

/-- The timer heap takes another task, unless it is full and cannot grow. -/
theorem timerPushState_fst (s : Rt) (t : TaskId) (deadlineNs : Nat) (state : TaskState) :
    (s.timerPushState t deadlineNs state).1 ≠ .ok ↔
      s.timers.cap < s.timers.items.length + 1 ∧ s.answer 0 = false := by
  unfold timerPushState timerReserve
  rw [ask_answer]
  by_cases hcap : s.timers.cap ≥ s.timers.items.length + 1
  · rw [if_pos hcap]
    exact ⟨fun h => absurd rfl h, fun h => absurd h.1 (Nat.not_lt.mpr hcap)⟩
  · rw [if_neg hcap]
    cases hans : s.answer 0 with
    | true => exact ⟨fun h => absurd rfl h, fun h => absurd h.2 (by simp)⟩
    | false => exact ⟨fun _ => ⟨Nat.not_le.mp hcap, rfl⟩, fun _ h => by cases h⟩

/-- After `n` answers the kernel refuses a change that follows one that adds a filter. -/
def Halfway (s : Rt) (n fd events : Nat) : Prop :=
  ∃ i < (kqueueChanges events).length, (∀ j < i, s.answer (n + j) = true) ∧
    s.answer (n + i) = false ∧ ∃ f ∈ (kqueueChanges events).take i, s.filters fd f = false

/-- After `n` answers the kernel accepts all changes, one of them for a filter that it has
already, and the timer heap cannot grow. -/
def Unarmed (s : Rt) (n fd events : Nat) : Prop :=
  (∀ i < (kqueueChanges events).length, s.answer (n + i) = true) ∧
    s.timers.cap < s.timers.items.length + 1 ∧
    s.answer (n + (kqueueChanges events).length) = false ∧
    ∃ f ∈ kqueueChanges events, s.filters fd f = true

theorem halfway_iff {i : Nat} (hi : i < (kqueueChanges events).length)
    (hbefore : ∀ j < i, s.answer j = true) (hno : s.answer i = false) :
    s.Halfway 0 fd events ↔ ∃ f ∈ (kqueueChanges events).take i, s.filters fd f = false := by
  simp only [Halfway, Nat.zero_add]
  constructor
  · rintro ⟨k, -, hk, hknot, hf⟩
    obtain rfl : k = i := by
      rcases Nat.lt_trichotomy k i with hlt | heq | hlt
      · exact absurd (hbefore k hlt) (by simp [hknot])
      · exact heq
      · exact absurd (hk i hlt) (by simp [hno])
    exact hf
  · exact fun hf => ⟨i, hi, hbefore, hno, hf⟩

/-- A registration that fails leaves the filters alone, unless it fails halfway or after it has
met a filter that is there. -/
theorem Inv.fdWaitRegister_filters (h : s.Inv) (hfd : (s.task t).fdWaiter = none) {x : FdWaiter}
    (hx : x.state = .removed) (timeoutMs nowNs : Nat)
    (hret : ((s.fdPrepared t x).fdWaitRegister t s.nextAddr timeoutMs nowNs).1 ≠ .park) :
    ((s.fdPrepared t x).fdWaitRegister t s.nextAddr timeoutMs nowNs).2.filters = s.filters ↔
      ¬(s.ioBackendKind = .kqueue ∧
        (s.Halfway 0 x.fd x.events ∨ s.Unarmed 0 x.fd x.events)) := by
  have hself : (s.fdPrepared t x).fdw s.nextAddr = x := by simp [fdPrepared]
  have hback := (s.fdPrepared t x).fdWaiterAdd_backend s.nextAddr
  obtain ⟨rc, filters, tape, -, hadd⟩ := h.fdWaiterAdd_prepared (t := t) x
  rw [hadd] at hback
  obtain ⟨hrc, hfilters, htape⟩ := hback
  by_cases hok : rc = .ok
  · subst hok
    unfold Rt.fdWaitRegister at hret ⊢
    rw [hadd] at hret ⊢
    simp only [if_true] at htape hret ⊢
    have hpush := (s.fdRegistered t x tape).timerPushState_fst t
      (deadlineFromTimeout nowNs timeoutMs) .waitingFd
    rcases (s.fdRegistered t x tape).timerPushState_eq t
        (deadlineFromTimeout nowNs timeoutMs) .waitingFd with ⟨timers, tp, -, heq⟩ | ⟨tp, heq⟩
    · exact absurd (by rw [heq]) hret
    rw [heq] at hpush ⊢
    obtain ⟨hfull, hno⟩ := hpush.mp (by simp)
    simp only [h.fdRemove_registered hfd hx tape tp]
    change s.filtersUndone x.fd x.events = s.filters ↔ _
    by_cases hk : s.ioBackendKind = .kqueue
    · rw [filtersUndone_eq_self hk]
      rcases kqueueBackendAdd_cases (s := s.fdPrepared t x) hk hself with
        ⟨hall, -, hdrop⟩ | ⟨i, -, -, -, hbad, -⟩
      · have hall : ∀ i < (kqueueChanges x.events).length, s.answer i = true := hall
        have hlast : s.answer (kqueueChanges x.events).length = false := by
          have htape : tape = s.tape.drop (kqueueChanges x.events).length := htape.trans hdrop
          subst htape
          simpa using (s.answer_drop (kqueueChanges x.events).length 0).symm.trans hno
        have hhalf : ¬s.Halfway 0 x.fd x.events := by
          rintro ⟨i, hi, -, hno, -⟩
          rw [Nat.zero_add, hall i hi] at hno
          cases hno
        simp only [hk, true_and, hhalf, false_or, Unarmed, Nat.zero_add]
        constructor
        · rintro hnone ⟨-, -, -, f, hf, hthere⟩
          rw [hnone f hf] at hthere
          cases hthere
        · intro hno f hf
          by_contra hthere
          exact hno ⟨hall, hfull, hlast, f, hf, by simpa using hthere⟩
      · exact absurd hrc.symm hbad
    · rw [filtersUndone, if_neg hk]
      simp [hk]
  · have hkept : filters = ((s.fdPrepared t x).ioBackendAdd s.nextAddr).2.filters := by
      rwa [if_neg hok] at hfilters
    have hresult : ((s.fdPrepared t x).fdWaitRegister t s.nextAddr timeoutMs nowNs).2.filters =
        filters := by
      unfold Rt.fdWaitRegister
      rw [hadd, if_neg hok]
      cases rc with
      | ok => exact absurd rfl hok
      | _ => exact congrArg Rt.filters (h.fdFreeWaiter_prepared hfd hx s.interest filters tape)
    rw [hresult, hkept]
    by_cases hk : s.ioBackendKind = .kqueue
    · rcases kqueueBackendAdd_cases (s := s.fdPrepared t x) hk hself with
        ⟨-, hgood, -⟩ | ⟨i, hi, hbefore, hno, -, htaken⟩
      · exact absurd (hrc.trans hgood) hok
      · have hhalf : s.Halfway 0 x.fd x.events ↔ _ := halfway_iff hi hbefore hno
        have harmed : ¬s.Unarmed 0 x.fd x.events := fun hu => by
          have hyes := hu.1 i hi
          rw [Nat.zero_add, show s.answer i = false from hno] at hyes
          cases hyes
        rw [htaken]
        change ((kqueueChanges x.events).take i).foldl (addFilter x.fd) s.filters = s.filters ↔ _
        rw [foldl_addFilter_eq_self]
        simp [hk, harmed, hhalf]
    · rw [ioBackendAdd_filters (s := s.fdPrepared t x) hk]
      simp [hk, fdPrepared]

/-! ## A wait that does not begin -/

/-- How many answers `mt_fd_wait` has used when it registers its waiter. -/
def asked (s : Rt) (fd : Nat) : Nat := if (s.fdGenerationFind fd).isSome then 1 else 2

theorem fdGenerationCurrent_tape (s : Rt) (fd : Nat) : (s.fdGenerationCurrent fd).2.tape =
    if (s.fdGenerationFind fd).isSome then s.tape else s.tape.drop 1 := by
  unfold fdGenerationCurrent
  cases s.fdGenerationFind fd with
  | some g => rfl
  | none =>
      rw [ask_answer]
      cases s.answer 0 with
      | true => rfl
      | false => rfl

/-- The registration of `mt_fd_wait` is reached and changes the filters without parking. -/
structure Spoils (s : Rt) (fd events timeoutMs : Nat) (poll : PollResult) : Prop where
  kqueue : s.ioBackendKind = .kqueue
  closing : s.fdIsClosing fd = false
  conflicts : s.fdWaiterConflicts fd events = false
  poll : poll = .revents 0
  timeoutMs : timeoutMs ≠ 0
  waiter : s.answer 0 = true
  register : s.Halfway (s.asked fd) fd events ∨ s.Unarmed (s.asked fd) fd events

theorem Inv.fdWaitPark_filters (h : s.Inv) (hfd : (s.task t).fdWaiter = none)
    (timeoutMs nowNs : Nat) (inst : Option Nat)
    (hret : (s.fdWaitPark t fd events timeoutMs nowNs inst).1 ≠ .park) :
    (s.fdWaitPark t fd events timeoutMs nowNs inst).2.filters = s.filters ↔
      ¬(s.ioBackendKind = .kqueue ∧ s.answer 0 = true ∧
        (s.Halfway (s.asked fd) fd events ∨ s.Unarmed (s.asked fd) fd events)) := by
  unfold Rt.fdWaitPark at hret ⊢
  rw [ask_answer] at hret ⊢
  cases h0 : s.answer 0 with
  | false => simp
  | true =>
      rw [h0] at hret
      simp only [alloc] at hret ⊢
      have htape := fdGenerationCurrent_tape { s with
        tape := s.tape.drop 1, nextAddr := s.nextAddr + 1
        made := Function.update s.made (.fdWaiter s.nextAddr) true } fd
      obtain ⟨gen, gens, tape, -, heq⟩ := fdGenerationCurrent_eq { s with
        tape := s.tape.drop 1, nextAddr := s.nextAddr + 1
        made := Function.update s.made (.fdWaiter s.nextAddr) true } fd
      rw [heq] at hret htape ⊢
      have htape : tape = s.tape.drop (s.asked fd) := by
        refine htape.trans ?_
        unfold asked
        change (if (s.fdGenerationFind fd).isSome then _ else _) = _
        split
        · rfl
        · exact List.drop_drop
      set c : Rt := { s with fdGenerations := gens, tape := tape } with hc
      have hinv : c.Inv := Quiet.inv ⟨gens, s.ioPolling, s.interest, s.filters, tape, rfl⟩ h
      have hans : ∀ n, c.answer (0 + n) = s.answer (s.asked fd + n) := fun n => by
        subst htape
        rw [Nat.zero_add]
        exact s.answer_drop (s.asked fd) n
      have key := hinv.fdWaitRegister_filters (t := t) hfd (x := waiterFor t fd events gen inst)
        rfl timeoutMs nowNs hret
      refine Iff.trans key ?_
      simp only [Halfway, Unarmed, hans, true_and]
      exact Iff.rfl

/-- What `mt_fd_wait` leaves of the filters when it does not park. -/
theorem Inv.fdWait_filters (h : s.Inv) (hfd : (s.task t).fdWaiter = none)
    (timeoutMs nowNs : Nat) (poll : PollResult) (inst : Option Nat)
    (hret : (s.fdWait t fd events timeoutMs nowNs poll inst).1 ≠ .park) :
    (s.fdWait t fd events timeoutMs nowNs poll inst).2.2.filters = s.filters ↔
      ¬s.Spoils fd events timeoutMs poll := by
  unfold Rt.fdWait at hret ⊢
  by_cases hclosing : s.fdIsClosing fd = true
  · rw [if_pos hclosing]
    exact iff_of_true rfl fun hs => absurd (hclosing.symm.trans hs.closing) (by simp)
  rw [if_neg hclosing] at hret ⊢
  by_cases hconf : s.fdWaiterConflicts fd events = true
  · rw [if_pos hconf]
    exact iff_of_true rfl fun hs => absurd (hconf.symm.trans hs.conflicts) (by simp)
  rw [if_neg hconf] at hret ⊢
  cases poll with
  | failed ebadf => exact iff_of_true rfl fun hs => by cases hs.poll
  | revents bits =>
      by_cases hbits : bits ≠ 0
      · simp only [if_pos hbits]
        refine iff_of_true trivial fun hs => hbits ?_
        cases hs.poll
        rfl
      by_cases hzero : timeoutMs = 0
      · simp only [if_neg hbits, if_pos hzero]
        exact iff_of_true trivial fun hs => hs.timeoutMs hzero
      simp only [if_neg hbits, if_neg hzero] at hret ⊢
      rw [h.fdWaitPark_filters hfd timeoutMs nowNs inst hret]
      refine not_congr ⟨fun ⟨hk, hans, hreg⟩ => ?_, fun hs => ⟨hs.kqueue, hs.waiter, hs.register⟩⟩
      exact ⟨hk, by simpa using hclosing, by simpa using hconf, by rw [not_not.mp hbits], hzero,
        hans, hreg⟩

end Rt

end Microthread
