import Microthread.Properties.Dispatch
import Microthread.Properties.Interest
import Microthread.Properties.Marks

/-!
# The interest set mirrors the waiters

The epoll backend keeps no record of what it has told the kernel: it computes from the linked
waiters whether the kernel watches a descriptor. That is right as long as a descriptor that the
process closes has no active waiter, since the kernel forgets it silently. `mt_fd_close` makes
sure of it: the mark keeps everybody from waiting until the descriptor is closed.
-/

namespace Microthread

open Foundation Rt

namespace Rt

variable {s s' : Rt} {t : TaskId} {w : FdWaiterId} {fd : Nat}

/-! ## Who waits -/

/-- No waiter is active at the descriptor. -/
def Idle (s : Rt) (fd : Nat) : Prop :=
  ∀ w ∈ s.fdWaiters, (s.fdw w).state = .active → (s.fdw w).fd ≠ fd

instance (s : Rt) (fd : Nat) : Decidable (s.Idle fd) :=
  inferInstanceAs (Decidable (∀ w ∈ s.fdWaiters, _ → _))

theorem foldl_share_eq_zero (s : Rt) (fd : Nat) (ws : List FdWaiterId) :
    ws.foldl (fun n w => n ||| s.share fd w) 0 = 0 ↔ ∀ w ∈ ws, s.share fd w = 0 := by
  induction ws with
  | nil => simp
  | cons w ws ih =>
      rw [List.foldl_cons, Nat.zero_or, foldl_share, Nat.or_eq_zero_iff, ih, List.forall_mem_cons]

theorem activeEvents_eq_zero : s.fdActiveEventsForFd fd 0 = 0 ↔ ∀ w ∈ s.fdWaiters,
    s.share fd w = 0 := by
  rw [fdActiveEventsForFd_foldl]
  exact foldl_share_eq_zero s fd s.fdWaiters

theorem Idle.activeEvents (h : s.Idle fd) : s.fdActiveEventsForFd fd 0 = 0 := by
  rw [activeEvents_eq_zero]
  intro w hw
  have hidle := h w hw
  simp only [share, fdWaiterIsActive, Bool.and_eq_true, beq_iff_eq]
  exact if_neg fun hboth => hidle hboth.1 hboth.2

/-- Every linked waiter waits for something. -/
def Wanting (s : Rt) : Prop := ∀ w ∈ s.fdWaiters, (s.fdw w).events ≠ 0

theorem Wanting.idle (h : s.Wanting) (hz : s.fdActiveEventsForFd fd 0 = 0) : s.Idle fd := by
  intro w hw hact hfd
  have hshare := activeEvents_eq_zero.mp hz w hw
  simp [share, fdWaiterIsActive, hact, hfd] at hshare
  exact h w hw hshare

theorem Wanting.of_kept (h : s.Wanting) (hl : s'.fdWaiters ⊆ s.fdWaiters)
    (hw : ∀ w ∈ s'.fdWaiters, (s'.fdw w).events = (s.fdw w).events) : s'.Wanting :=
  fun w hmem => hw w hmem ▸ h w (hl hmem)

theorem Wanting.of_same (h : s.Wanting) (hs : FdSame s s') : s'.Wanting :=
  h.of_kept (fun w hw => hs.list ▸ hw) fun w hw => by rw [hs.record w (hs.list ▸ hw)]

theorem Wanting.drifts (h : s.Wanting) (hd : Drifts s s') : s'.Wanting := by
  induction hd with
  | refl => exact h
  | tail _ hd ih =>
      cases hd with
      | same hs => exact ih.of_same hs
      | insert => exact ih
      | unlink w => exact ih.of_kept (fun _ hv => List.mem_of_mem_erase hv) fun _ _ => rfl
      | wake w =>
          refine ih.of_kept (fun _ hv => hv) fun v _ => ?_
          by_cases hv : v = w
          · subst hv
            simp [reserve]
          · simp [reserve, hv]

/-! ## Nothing is missing from the interest set -/

/-- The kernel watches every descriptor that an active waiter waits for. -/
def Covered (s : Rt) : Prop :=
  s.ioBackendKind = .epoll → ∀ fd, s.fdActiveEventsForFd fd 0 ≠ 0 → (s.interest fd).isSome = true

theorem Covered.of_nil (h : s.fdWaiters = []) : s.Covered := by
  intro _ fd hne
  simp [fdActiveEventsForFd, h] at hne

theorem Covered.of_same (h : s.Covered) (hs : FdSame s s') : s'.Covered := by
  intro hk fd hne
  rw [hs.activeEvents] at hne
  rw [hs.interest]
  exact h (hs.kind ▸ hk) fd hne

/-- A waiter that is no longer active has no share. -/
theorem activeEvents_reserve (s : Rt) (w : FdWaiterId) (fd : Nat)
    (hz : s.fdActiveEventsForFd fd 0 = 0) : (s.reserve w).fdActiveEventsForFd fd 0 = 0 := by
  rw [activeEvents_eq_zero] at hz ⊢
  intro v hv
  by_cases hvw : v = w
  · subst hvw
    simp [share, reserve, fdWaiterIsActive]
  · have hsame : (s.reserve w).share fd v = s.share fd v := by
      simp [share, reserve, fdWaiterIsActive, hvw]
    rw [hsame]
    exact hz v hv

theorem Covered.reserve (h : s.Covered) (w : FdWaiterId) : (s.reserve w).Covered := by
  intro hk fd hne
  have hkind : s.ioBackendKind = .epoll := hk
  have hsome : (s.interest fd).isSome = true := by
    refine h hkind fd fun hz => hne ?_
    exact activeEvents_reserve s w fd hz
  change (s.interestWithout w fd).isSome = true
  unfold interestWithout interestAfter
  split
  · by_cases hfd : fd = (s.fdw w).fd
    · subst hfd
      rw [Function.update_self, if_pos]
      · rfl
      · exact hne
    · rw [Function.update_of_ne hfd]
      exact hsome
  · exact hsome

theorem Covered.unlink (h : s.Covered) (hw : (s.fdw w).state ≠ .active) :
    { s with fdWaiters := s.fdWaiters.erase w }.Covered := by
  intro hk fd hne
  rw [activeEvents_erase s fd (by simp [share, fdWaiterIsActive, hw])] at hne
  exact h hk fd hne

theorem Covered.drifts (h : s.Covered) (hd : Drifts s s') : s'.Covered := by
  induction hd with
  | refl => exact h
  | tail _ hd ih =>
      cases hd with
      | same hs => exact ih.of_same hs
      | insert => exact ih
      | wake w => exact ih.reserve w
      | unlink w hw => exact ih.unlink hw

/-- A descriptor for which nobody waits may be closed. -/
theorem Covered.forget (h : s.Covered) (hidle : s.Idle fd) :
    (s.kernelForgets fd).Covered := by
  intro hk fd' hne
  have hfd : fd' ≠ fd := fun heq => hne (heq ▸ hidle.activeEvents)
  change (Function.update s.interest fd none fd').isSome = true
  rw [Function.update_of_ne hfd]
  exact h hk fd' hne

theorem Covered.regen (h : s.Covered) (hr : Regen s s') : s'.Covered := by
  obtain ⟨gens, tape, rfl⟩ := hr
  exact h

theorem Covered.parked (h : s.Covered) {inst : Option Nat} {events : Nat}
    (hw : FdWaits s t fd events inst .park s') :
    s'.Covered := by
  cases hw with
  | parked gen gens tape timers wakeNs =>
      intro hk fd' hne
      have hkind : s.ioBackendKind = .epoll := hk
      change (s.interestWith fd events fd').isSome = true
      rw [interestWith, if_pos hkind]
      by_cases hfd : fd' = fd
      · subst hfd
        rw [Function.update_self]
        rfl
      · rw [Function.update_of_ne hfd]
        refine h hkind fd' fun hz => hne ?_
        rw [activeEvents_eq_zero] at hz ⊢
        intro v hv
        by_cases hnew : v = s.nextAddr
        · subst hnew
          simp [share, Rt.parkFd, waiterFor, Ne.symm hfd]
        · have hmem : v ∈ s.fdWaiters := (List.mem_cons.mp hv).resolve_left hnew
          have hzero := hz v hmem
          simpa [share, Rt.parkFd, fdWaiterIsActive, hnew] using hzero

theorem Wanting.parked (h : s.Wanting) {inst : Option Nat} {events : Nat} (hev : events ≠ 0)
    (hw : FdWaits s t fd events inst .park s') : s'.Wanting := by
  cases hw with
  | parked gen gens tape timers wakeNs =>
      intro v hv
      by_cases hnew : v = s.nextAddr
      · subst hnew
        simpa [Rt.parkFd, waiterFor] using hev
      · have hmem : v ∈ s.fdWaiters := (List.mem_cons.mp hv).resolve_left hnew
        have hwants := h v hmem
        simpa [Rt.parkFd, hnew] using hwants

/-! ## A removal finds its entry -/

/-- A section has completed these waiters, one after the other. -/
def deactivated (s : Rt) (ws : List FdWaiterId) : Rt :=
  ws.foldl (fun r w => (r.fdWaiterDeactivate w true).2) s

/-- The `epoll_ctl` call of `mt_epoll_backend_remove` finds an entry. -/
def epollRemoveFinds (s : Rt) (w : FdWaiterId) : Bool :=
  let remaining := s.fdActiveEventsForFd (s.fdw w).fd 0
  if remaining ≠ 0 then
    (s.epollCtl .mod (s.fdw w).fd (epollEventsFromFdEvents remaining)).1
  else (s.epollCtl .del (s.fdw w).fd 0).1

theorem fdWaiterDeactivate_kind (s : Rt) (w : FdWaiterId) :
    (s.fdWaiterDeactivate w true).2.ioBackendKind = s.ioBackendKind := by
  by_cases ha : (s.fdw w).state = .active
  · rw [fdWaiterDeactivate_reserve ha]
  · simp [fdWaiterDeactivate, fdWaiterIsActive, ha, modFdw]

theorem Covered.deactivate (h : s.Covered) (w : FdWaiterId) :
    (s.fdWaiterDeactivate w true).2.Covered := by
  by_cases ha : (s.fdw w).state = .active
  · rw [fdWaiterDeactivate_reserve ha]
    exact h.reserve w
  · have hidle : (s.fdWaiterDeactivate w true).2 =
        s.modFdw w fun x => { x with state := .readyReserved } := by
      simp [fdWaiterDeactivate, fdWaiterIsActive, ha]
    rw [hidle]
    intro hk fd hne
    refine h hk fd fun hz => hne ?_
    exact activeEvents_reserve s w fd hz

theorem Wanting.deactivate (h : s.Wanting) (w : FdWaiterId) :
    (s.fdWaiterDeactivate w true).2.Wanting := by
  have hsame := s.fdWaiterDeactivate_fdw w
  refine h.of_kept (fun v hv => hsame.1 ▸ hv) fun v _ => ?_
  rw [hsame.2, readied]
  by_cases hv : v = w
  · subst hv
    rw [Function.update_self]
  · rw [Function.update_of_ne hv]

/-- Every removal of a section finds its entry, however many have come before it. -/
theorem Covered.remove_finds (h : s.Covered) (hk : s.ioBackendKind = .epoll) (hwant : s.Wanting)
    (hw : w ∈ s.fdWaiters) (ws : List FdWaiterId)
    (ha : ((s.deactivated ws).fdw w).state = .active) :
    ((s.deactivated ws).modFdw w fun x => { x with state := .readyReserved }).epollRemoveFinds w =
      true := by
  induction ws generalizing s with
  | nil =>
      have hne : s.fdActiveEventsForFd (s.fdw w).fd 0 ≠ 0 := fun hz =>
        hwant.idle hz w hw ha rfl
      obtain ⟨mask, hm⟩ := Option.isSome_iff_exists.mp (h hk _ hne)
      change (s.modFdw w fun x => { x with state := .readyReserved }).epollRemoveFinds w = true
      simp only [epollRemoveFinds, modFdw, Function.update_self, epollCtl, hm]
      split <;> rfl
  | cons v ws ih =>
      refine ih (h.deactivate v) ?_ (hwant.deactivate v) ?_ ha
      · rw [fdWaiterDeactivate_kind]
        exact hk
      · rw [(s.fdWaiterDeactivate_fdw v).1]
        exact hw

/-- An operation may close descriptors for which nobody waits. -/
theorem Covered.op {does : Op → Prop} (h : s.Covered) (hinv : s.Inv) (ho : FdOp does s s')
    (hidle : ∀ fd, does (.osClose fd) → s.Idle fd) : s'.Covered := by
  cases ho with
  | tape tape => exact h
  | adopt fd flags => exact h.regen (s.fdAdopt_regen fd flags)
  | release fd => exact h.regen (s.fdRelease_regen fd)
  | close fd =>
      obtain ⟨a, hr, hm⟩ := hinv.fdCloseBegin fd
      exact (h.regen hr).drifts (FdShifts.drifts hm)
  | unmark fd => exact h.regen (s.fdCloseEnd_regen fd)
  | forget fd hd => exact h.forget (hidle fd hd)

theorem Wanting.op {does : Op → Prop} (h : s.Wanting) (hinv : s.Inv) (ho : FdOp does s s') :
    s'.Wanting := by
  have regen : ∀ {a : Rt}, Regen s a → a.Wanting := by
    rintro a ⟨gens, tape, rfl⟩
    exact h
  cases ho with
  | tape tape => exact h
  | adopt fd flags => exact regen (s.fdAdopt_regen fd flags)
  | release fd => exact regen (s.fdRelease_regen fd)
  | close fd =>
      obtain ⟨a, hr, hm⟩ := hinv.fdCloseBegin fd
      exact (regen hr).drifts (FdShifts.drifts hm)
  | unmark fd => exact regen (s.fdCloseEnd_regen fd)
  | forget => exact h

end Rt

namespace Sys

variable {s : Sys}

/-- A descriptor for which a task waits is closed by `mt_fd_close` only. -/
def Respectful (s : Sys) : Act → Prop
  | .osClose _ fd => s.rt.Idle fd
  | .cont a _ =>
    match s.pc a.agent with
    | .acceptDrop _ fd => s.rt.Idle fd
    | _ => True
  | _ => True

instance (s : Sys) (act : Act) : Decidable (s.Respectful act) := by
  induction act using Act.casesOn with
  | osClose a fd => exact inferInstanceAs (Decidable (s.rt.Idle fd))
  | cont a env =>
      dsimp only [Respectful]
      generalize s.pc a.agent = p
      induction p using Pc.casesOn with
      | acceptDrop c fd => exact inferInstanceAs (Decidable (s.rt.Idle fd))
      | _ => exact instDecidableTrue
  | _ => exact instDecidableTrue

/-- Both conditions on the closing of descriptors. -/
def Careful (s : Sys) (act : Act) : Prop := s.Seated act ∧ s.Respectful act

instance (s : Sys) (act : Act) : Decidable (s.Careful act) :=
  inferInstanceAs (Decidable (_ ∧ _))

/-- Nobody waits for a descriptor that the process is about to close. -/
theorem idle_of_osClose {a : Actor} {env : Env} {fd : Nat} (hc : s.Closers)
    (hresp : s.Respectful (.cont a env)) (hd : Pc.Does a.agent (s.pc a.agent) (.osClose fd)) :
    s.rt.Idle fd := by
  rcases hd with ⟨c, inst, hpc⟩ | ⟨c, hpc⟩
  · have hmark := hc.marked a.agent fd (by rw [hpc]; rfl)
    rintro w hw hact rfl
    rw [hc.deserted w hw hact] at hmark
    cases hmark
  · simpa [Respectful, hpc] using hresp

theorem Watch.wanting {act : Act} {r : Rt} (hw : s.Watch act r) (hinv : s.rt.Inv)
    (h : s.rt.Wanting) : r.Wanting := by
  cases hw with
  | drifts hd _ => exact h.drifts hd
  | op a env _ ho hs _ => exact (h.op hinv ho).of_same hs
  | refuse w t env fd events inst rc _ _ _ hwait hs =>
      refine Wanting.of_same (s := _) ?_ hs
      cases hwait with
      | answered => exact h
      | refused =>
          intro v hv
          have hne := ne_of_mem_of_not_mem hv hinv.fd_fresh
          have hwants := h v hv
          simpa [Rt.wasteFd, Rt.waste, touchFd, modTask, hne] using hwants
  | park w t env fd events inst _ _ _ hp hwait hs =>
      exact (h.parked (Pc.waitsFor_ne_zero hp) hwait).of_same hs
  | osClose a fd _ hs =>
      have hforget : (s.rt.kernelForgets fd).Wanting := h
      exact hforget.of_same hs
  | reset hl => exact fun w hw => by simp [hl] at hw

theorem Watch.covered {act : Act} {r : Rt} (hw : s.Watch act r) (hinv : s.rt.Inv)
    (hm : s.rt.Mirrored) (hc : s.Closers) (hresp : s.Respectful act) (h : s.rt.Covered) :
    r.Covered := by
  cases hw with
  | drifts hd _ => exact h.drifts hd
  | op a env hact ho hs _ =>
      subst hact
      exact (h.op hinv ho fun fd hd => idle_of_osClose hc hresp hd).of_same hs
  | refuse w t env fd events inst rc _ _ _ hwait hs =>
      obtain ⟨hi, hl, hk, hr⟩ := hm.refused hwait
      refine Covered.of_same (s := _) (fun hkind fd' hne => ?_) hs
      rw [fdActiveEventsForFd_congr hl (hr hinv.fd_fresh)] at hne
      rw [hi]
      exact h (hk ▸ hkind) fd' hne
  | park w t env fd events inst _ _ _ _ hwait hs => exact (h.parked hwait).of_same hs
  | osClose a fd hact hs =>
      subst hact
      exact (h.forget hresp).of_same hs
  | reset hl => exact .of_nil hl

/-- What a run keeps in which nobody else closes what a task waits for. -/
theorem covered_of_reach (h : machine.Reach (Under Careful) s) :
    s.rt.Covered ∧ s.rt.Wanting := by
  refine h.invariant (I := fun s => s.rt.Covered ∧ s.rt.Wanting) (fun s hs => ?_)
    fun s act s' hr ih hact hs => ?_
  · obtain ⟨kind, rfl⟩ := hs
    exact ⟨.of_nil rfl, fun w hw => by simp at hw⟩
  · have hok := ok_of_under hr
    have hclosers := closers_of_reach (hr.mono fun _ _ hc => ⟨hc.1, hc.2.1⟩)
    have hmirror := mirrored_of_reach (hr.mono fun _ _ hc => hc.1)
    obtain ⟨s₀, hp, hcase⟩ := hok.step_cases hact.1 hs
    have hinv := (hp.ok hok).rest.inv
    have hwatch := hcase.watch (hp.ok hok)
    have hclosers₀ := hclosers.prepared hok hp
    rcases hp.cases hok with ⟨tape, rfl⟩ | ⟨-, -, rt, hb, rfl⟩
    · exact ⟨hwatch.covered hinv hmirror hclosers₀ hact.2.2 ih.1, hwatch.wanting hinv ih.2⟩
    · have hnil := hb.off.fdWaiters
      refine ⟨hwatch.covered hinv (.of_none hb.interest) hclosers₀ ?_ (.of_nil hnil),
        hwatch.wanting hinv fun w hw => by simp [hnil] at hw⟩
      cases act with
      | osClose a fd => exact fun w hw => by simp [hnil] at hw
      | cont a env =>
          have hresp := hact.2.2
          simp only [Respectful] at hresp ⊢
          split
          · exact fun w hw => by simp [hnil] at hw
          · trivial
      | _ => trivial

end Sys

/-- In every run in which `mt_fd_close` is called in an initialised runtime, and in which the
process closes a descriptor for which a task waits by `mt_fd_close` only, the kernel watches a
descriptor for a backend of epoll exactly while a waiter is active there, for errors, hang-ups
and the union of what the active waiters wait for. So an addition never meets an entry that is
there already, and a change or a deletion never a missing one, whatever waiters the same section
has removed before. -/
theorem interest_mirrors_waiters {s : Sys} (h : machine.Reach (Sys.Under Sys.Careful) s) :
    (∀ fd, (s.rt.interest fd).isSome = true ↔ s.rt.ioBackendKind = .epoll ∧
      ∃ w ∈ s.rt.fdWaiters, (s.rt.fdw w).state = .active ∧ (s.rt.fdw w).fd = fd) ∧
    (∀ fd mask, s.rt.interest fd = some mask →
      mask = epollEventsFromFdEvents (s.rt.fdActiveEventsForFd fd 0)) ∧
    (s.rt.ioBackendKind = .epoll → ∀ fd mask,
      (s.rt.fdActiveEventsForFd fd 0 = 0 → s.rt.interest fd = none) ∧
      (s.rt.fdActiveEventsForFd fd 0 ≠ 0 → (s.rt.epollCtl .mod fd mask).1 = true)) ∧
    (s.rt.ioBackendKind = .epoll → ∀ ws, ∀ w ∈ s.rt.fdWaiters,
      ((s.rt.deactivated ws).fdw w).state = .active →
      ((s.rt.deactivated ws).modFdw w fun x => { x with state := .readyReserved }).epollRemoveFinds
        w = true) := by
  obtain ⟨hcovered, hwanting⟩ := Sys.covered_of_reach h
  have hmirror := Sys.mirrored_of_reach (h.mono fun _ _ hc => hc.1)
  have hwaits : ∀ fd, s.rt.fdActiveEventsForFd fd 0 ≠ 0 ↔
      ∃ w ∈ s.rt.fdWaiters, (s.rt.fdw w).state = .active ∧ (s.rt.fdw w).fd = fd := fun fd => by
    constructor
    · intro hne
      by_contra hnone
      exact hne (Rt.Idle.activeEvents fun w hw hact hfd => hnone ⟨w, hw, hact, hfd⟩)
    · rintro ⟨w, hw, hact, hfd⟩ hz
      exact hwanting.idle hz w hw hact hfd
  refine ⟨fun fd => ?_, fun fd mask hm => (hmirror fd mask hm).2.2, fun hk fd mask =>
    ⟨fun hz => ?_, fun hne => ?_⟩, fun hk ws w hw => hcovered.remove_finds hk hwanting hw ws⟩
  · rw [← hwaits]
    constructor
    · intro hsome
      obtain ⟨mask, hm⟩ := Option.isSome_iff_exists.mp hsome
      exact ⟨(hmirror fd mask hm).1, (hmirror fd mask hm).2.1⟩
    · rintro ⟨hk, hne⟩
      exact hcovered hk fd hne
  · cases hm : s.rt.interest fd with
    | none => rfl
    | some m => exact absurd hz (hmirror fd m hm).2.1
  · obtain ⟨m, hm⟩ := Option.isSome_iff_exists.mp (hcovered hk fd hne)
    simp [Rt.epollCtl, hm]

/-- A reader and a writer wait at descriptor 5, and the kernel watches for both. -/
theorem interest_mirrors_waiters_duplex : ∃ s : Sys, machine.Reach Sys.Contract s ∧
    s.rt.fdActiveEventsForFd 5 0 = 3 ∧ s.rt.interest 5 = some 29 := by
  obtain ⟨s, hs, hp⟩ := reach_of_trace_under Sys.Careful .epoll duplexTrace (fun s =>
    s.rt.fdActiveEventsForFd 5 0 == 3 && (s.rt.interest 5).isSome) (by decide +kernel)
  simp only [Bool.and_eq_true, beq_iff_eq] at hp
  obtain ⟨mask, hm⟩ := Option.isSome_iff_exists.mp hp.2
  have heq := (interest_mirrors_waiters hs).2.1 5 mask hm
  rw [hp.1] at heq
  exact ⟨s, hs.mono fun _ _ hc => hc.1, hp.1, hm.trans (congrArg some (heq.trans (by decide)))⟩

end Microthread
