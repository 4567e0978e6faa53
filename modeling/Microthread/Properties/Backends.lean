import Microthread.Properties.Dispatch

/-!
# poll and epoll agree

The kernel reports to poll, for every entry, what is ready of the events asked for, and
to epoll the same for the union of the interests in a descriptor; hangups and errors are
reported to both. As long as a pass takes no waiter for one of an older opening, either
backend completes the same waiters with the same events, and these are the events that the
immediate poll of `mt_fd_wait` would have found.
-/

namespace Microthread

open Foundation

/-! ## Bits -/

section Bits

/-- What the kernel reports of the readiness `n` to one who asks for `events`. -/
def reportOf (n events : Nat) : Nat := n &&& (fdEvents2Poll events ||| pollErr ||| pollHup)

/-- An interest in one direction or in both. -/
def Interest (events : Nat) : Prop := events = 1 ∨ events = 2 ∨ events = 3

variable {n ev act : Nat}

theorem and_epollEventsFromFdEvents (n act : Nat) :
    n &&& Rt.epollEventsFromFdEvents act = reportOf n act := by
  unfold reportOf Rt.epollEventsFromFdEvents fdEvents2Poll
  congr 1
  split <;> split <;> rfl

/-- The directions of the readiness. -/
theorem revents2FdEvents_eq (n : Nat) : revents2FdEvents n =
    (if n &&& 25 ≠ 0 then 1 else 0) ||| (if n &&& 28 ≠ 0 then 2 else 0) := rfl

theorem revents2FdEvents_and_one (n : Nat) :
    revents2FdEvents n &&& 1 = if n &&& 25 ≠ 0 then 1 else 0 := by
  rw [revents2FdEvents_eq]
  split <;> split <;> rfl

theorem revents2FdEvents_and_two (n : Nat) :
    revents2FdEvents n &&& 2 = if n &&& 28 ≠ 0 then 2 else 0 := by
  rw [revents2FdEvents_eq]
  split <;> split <;> rfl

theorem revents2FdEvents_and_three (n : Nat) : revents2FdEvents n &&& 3 = revents2FdEvents n := by
  rw [revents2FdEvents_eq]
  split <;> split <;> rfl

theorem reportOf_one (n : Nat) : reportOf n 1 = n &&& 25 := rfl
theorem reportOf_two (n : Nat) : reportOf n 2 = n &&& 28 := rfl
theorem reportOf_three (n : Nat) : reportOf n 3 = n &&& 29 := rfl

/-- Something is reported exactly if something of interest is ready. -/
theorem reportOf_eq_zero (hev : Interest ev) :
    reportOf n ev = 0 ↔ revents2FdEvents n &&& ev = 0 := by
  rcases hev with rfl | rfl | rfl
  · rw [reportOf_one, revents2FdEvents_and_one]
    simp
  · rw [reportOf_two, revents2FdEvents_and_two]
    simp
  · rw [reportOf_three, revents2FdEvents_and_three, revents2FdEvents_eq,
      show 29 = 25 ||| 28 from rfl, Nat.and_or_distrib_left, Nat.or_eq_zero_iff, Nat.or_eq_zero_iff]
    simp

/-- Within a wider interest the report tells as much as the readiness itself. -/
theorem revents2FdEvents_reportOf (hact : Interest act) (hev : Interest ev) (hsub : ev &&& act = ev) :
    revents2FdEvents (reportOf n act) &&& ev = revents2FdEvents n &&& ev := by
  have h25 : n &&& 29 &&& 25 = n &&& 25 := Nat.and_assoc ..
  have h28 : n &&& 29 &&& 28 = n &&& 28 := Nat.and_assoc ..
  rcases hact with rfl | rfl | rfl
  · obtain rfl : ev = 1 := by rcases hev with rfl | rfl | rfl <;> simp at hsub ⊢
    rw [reportOf_one, revents2FdEvents_and_one, revents2FdEvents_and_one, Nat.and_assoc,
      Nat.and_self]
  · obtain rfl : ev = 2 := by rcases hev with rfl | rfl | rfl <;> simp at hsub ⊢
    rw [reportOf_two, revents2FdEvents_and_two, revents2FdEvents_and_two, Nat.and_assoc,
      Nat.and_self]
  · rw [reportOf_three, revents2FdEvents_eq, h25, h28, ← revents2FdEvents_eq]

/-- A direction that is not ready is not reported either. -/
theorem revents2FdEvents_reportOf_eq_zero (hev : Interest ev)
    (h : revents2FdEvents n &&& ev = 0) : revents2FdEvents (reportOf n act) &&& ev = 0 := by
  have hsub : ∀ k, n &&& k = 0 → reportOf n act &&& k = 0 := fun k hk => by
    rw [reportOf, Nat.and_assoc, Nat.and_comm _ k, ← Nat.and_assoc, hk, Nat.zero_and]
  rcases hev with rfl | rfl | rfl
  · rw [revents2FdEvents_and_one] at h ⊢
    rw [if_neg (by simpa using hsub 25 (by simpa using h))]
  · rw [revents2FdEvents_and_two] at h ⊢
    rw [if_neg (by simpa using hsub 28 (by simpa using h))]
  · rw [revents2FdEvents_and_three, revents2FdEvents_eq, Nat.or_eq_zero_iff] at h ⊢
    refine ⟨?_, ?_⟩
    · rw [if_neg (by simpa using hsub 25 (by simpa using h.1))]
    · rw [if_neg (by simpa using hsub 28 (by simpa using h.2))]

theorem reportOf_and_nval (hev : Interest ev) : reportOf n ev &&& pollNval = 0 := by
  rcases hev with rfl | rfl | rfl
  · rw [reportOf_one, Nat.and_assoc]
    exact Nat.and_zero n
  · rw [reportOf_two, Nat.and_assoc]
    exact Nat.and_zero n
  · rw [reportOf_three, Nat.and_assoc]
    exact Nat.and_zero n

end Bits

namespace Rt

variable {s s' : Rt} {ready : Nat → Nat} {done : FdWaiterId → Prop} {w : FdWaiterId}
  {J : List FdGeneration → List Bool → Prop} {known : FdWaiterId → Prop}

/-- What dispatch may rely on. -/
structure Watched (s : Rt) : Prop where
  inv : s.Inv
  exclusive : s.Exclusive

/-- The events a waiter waits for that are ready. -/
def readyFor (s : Rt) (ready : Nat → Nat) (w : FdWaiterId) : Nat :=
  revents2FdEvents (ready (s.fdw w).fd) &&& (s.fdw w).events

theorem Watched.interest (h : s.Watched) (hw : w ∈ s.fdWaiters) : Interest (s.fdw w).events :=
  valid_cases (h.exclusive.valid w hw)

/-- Something is ready that the active waiter waits for. -/
def Reported (s : Rt) (ready : Nat → Nat) (w : FdWaiterId) : Prop :=
  w ∈ s.fdWaiters ∧ (s.fdw w).state = .active ∧ s.readyFor ready w ≠ 0

/-! ## Progress of a pass -/

/-- The waiters in `done` have been completed with what was ready for them, the others have
not been touched. -/
structure Progress (s : Rt) (ready : Nat → Nat) (done : FdWaiterId → Prop) (s' : Rt) : Prop where
  inv : s'.Inv
  list : s'.fdWaiters = s.fdWaiters
  tasks : s'.allTasks = s.allTasks
  pending : ∀ w ∈ s.fdWaiters, ¬done w →
    s'.fdw w = s.fdw w ∧ s'.task (s.fdw w).task = s.task (s.fdw w).task
  completed : ∀ w ∈ s.fdWaiters, done w →
    s'.fdw w = { s.fdw w with state := .readyReserved } ∧
      (s'.task (s.fdw w).task).state = .ready ∧ (s'.task (s.fdw w).task).fdResult = .ok ∧
      (s'.task (s.fdw w).task).fdReadyEvents = s.readyFor ready w

theorem Progress.start (h : s.Inv) (hd : ∀ w, ¬done w) : Progress s ready done s :=
  ⟨h, rfl, rfl, fun _ _ _ => ⟨rfl, rfl⟩, fun w _ hw => absurd hw (hd w)⟩

theorem Progress.congr {done' : FdWaiterId → Prop} (h : Progress s ready done s')
    (hd : ∀ w ∈ s.fdWaiters, done w ↔ done' w) : Progress s ready done' s' :=
  ⟨h.inv, h.list, h.tasks, fun w hw hn => h.pending w hw fun hdw => hn ((hd w hw).mp hdw),
    fun w hw hdw => h.completed w hw ((hd w hw).mpr hdw)⟩

/-- A pass looks at the generations only. -/
theorem Progress.regen {a : Rt} (h : Progress s ready done s') (hr : Regen s' a) :
    Progress s ready done a := by
  have hinv := hr.quiet.inv h.inv
  obtain ⟨gens, tape, rfl⟩ := hr
  exact ⟨hinv, h.list, h.tasks, h.pending, h.completed⟩

/-- Two waiters have two tasks. -/
theorem Inv.fd_task_ne (h : s.Inv) {v : FdWaiterId} (hv : v ∈ s.fdWaiters) (hw : w ∈ s.fdWaiters)
    (hne : v ≠ w) : (s.fdw v).task ≠ (s.fdw w).task := fun he => by
  have hv' := (h.fd.owner v hv).2.1
  have hw' := (h.fd.owner w hw).2.1
  rw [he, hw'] at hv'
  exact hne (Option.some.inj hv').symm

/-- One more waiter is completed. -/
theorem Progress.complete (h : Progress s ready done s') (hs : s.Inv) (hw : w ∈ s.fdWaiters)
    (ha : (s.fdw w).state = .active) (hn : ¬done w) :
    Progress s ready (fun v => done v ∨ v = w)
      (s'.fdReadyWaiter w .ok (s.readyFor ready w)) := by
  obtain ⟨hrec, htask⟩ := h.pending w hw hn
  have hw' : w ∈ s'.fdWaiters := h.list ▸ hw
  have ha' : (s'.fdw w).state = .active := by rw [hrec, ha]
  obtain ⟨items, hperm, heq⟩ := h.inv.fdReadyWaiter hw' ha' .ok (s.readyFor ready w)
  have hinv : ((s'.unwatch w).wakeFd w items .ok
      (s.readyFor ready w)).Inv :=
    Shifts.inv (.tail (.single (.quiet s'.fdGenerations s'.ioPolling _ _ s'.tape))
      (.wakeFd w items _ _ hw' ha' (hperm.congr rfl rfl))) h.inv
  rw [heq]
  refine ⟨hinv, h.list, h.tasks, fun v hv hnv => ?_, fun v hv hdv => ?_⟩
  · obtain ⟨hnv, hne⟩ := not_or.mp hnv
    obtain ⟨hv1, hv2⟩ := h.pending v hv hnv
    have htne := hs.fd_task_ne hv hw hne
    simp only [Rt.wakeFd, hrec, Function.update_of_ne hne, Function.update_of_ne htne]
    exact ⟨hv1, hv2⟩
  · by_cases hne : v = w
    · subst hne
      simp [Rt.wakeFd, hrec]
    · obtain ⟨hv1, hv2⟩ := h.completed v hv (hdv.resolve_right hne)
      have htne := hs.fd_task_ne hv hw hne
      simp only [Rt.wakeFd, hrec, Function.update_of_ne hne, Function.update_of_ne htne]
      exact ⟨hv1, hv2⟩

/-- A waiter still active during a pass was so before and has not been completed. -/
theorem Progress.active (h : Progress s ready done s') (hw : w ∈ s.fdWaiters)
    (ha : (s'.fdw w).state = .active) : ¬done w ∧ s'.fdw w = s.fdw w := by
  have hn : ¬done w := fun hd => by
    rw [(h.completed w hw hd).1] at ha
    cases ha
  exact ⟨hn, (h.pending w hw hn).1⟩

/-! ## Looking up generations -/

/-- The generation table and the tape of a pass stay in `J` as long as the waiters that it
looks for are found, and those that are found are in `known`. -/
def Lookups (s : Rt) (ready : Nat → Nat) (J : List FdGeneration → List Bool → Prop)
    (known : FdWaiterId → Prop) : Prop :=
  ∀ w, s.Reported ready w → ∀ a : Rt, J a.fdGenerations a.tape →
    (a.fdGenerationCurrent (s.fdw w).fd).1 = (s.fdw w).generation →
    known w ∧ J (a.fdGenerationCurrent (s.fdw w).fd).2.fdGenerations
      (a.fdGenerationCurrent (s.fdw w).fd).2.tape

/-- A pass in which every waiter that was looked for has been found. -/
structure Pass (s : Rt) (ready : Nat → Nat) (J : List FdGeneration → List Bool → Prop)
    (known done : FdWaiterId → Prop) (s' : Rt) : Prop extends Progress s ready done s' where
  table : J s'.fdGenerations s'.tape
  found : ∀ w ∈ s.fdWaiters, done w → known w

/-- A pass that has taken a waiter for one of an older opening. -/
structure Missed (s : Rt) (ready : Nat → Nat) (J : List FdGeneration → List Bool → Prop)
    (s' : Rt) (w : FdWaiterId) : Prop where
  inv : s'.Inv
  reported : s.Reported ready w
  mem : (s.fdw w).task ∈ s'.allTasks
  state : (s'.task (s.fdw w).task).state = .ready
  result : (s'.task (s.fdw w).task).fdResult = .closed
  outdated : ∃ a : Rt, J a.fdGenerations a.tape ∧
    (a.fdGenerationCurrent (s.fdw w).fd).1 ≠ (s.fdw w).generation

theorem Pass.congr {done' : FdWaiterId → Prop} (h : Pass s ready J known done s')
    (hd : ∀ w ∈ s.fdWaiters, done w ↔ done' w) : Pass s ready J known done' s' :=
  ⟨h.toProgress.congr hd, h.table, fun w hw hdw => h.found w hw ((hd w hw).mpr hdw)⟩

/-- What is missed stays so until the task resumes. -/
theorem Missed.shifts {a : Rt} {c : FdCause} (h : Missed s ready J s' w) (hm : FdShifts c s' a) :
    Missed s ready J a w := by
  have hmoves := Shifts.moves (FdShifts.shifts hm)
  have htask := Moves.task_eq hmoves h.inv h.mem (.inl h.state)
  exact ⟨FdShifts.inv hm h.inv, h.reported, Moves.allTasks_eq hmoves ▸ h.mem,
    htask ▸ h.state, htask ▸ h.result, h.outdated⟩

/-- The search for an event finds the waiter it comes to, or takes it for an outdated one. -/
theorem Pass.look (h : Pass s ready J known done s') (hs : s.Inv) (hJ : Lookups s ready J known)
    (hw : s.Reported ready w) (hn : ¬done w) {r : Nat}
    (hf : (s'.fdWaiters.find? fun v => s'.fdWaiterIsActive v && (s'.fdw v).fd == (s.fdw w).fd &&
      ((s'.fdw v).events &&& r) != 0) = some w) :
    (∃ a, s'.fdFindWaiter (s.fdw w).fd r = (some w, a) ∧ Pass s ready J known done a ∧ known w) ∨
      ∃ a, s'.fdFindWaiter (s.fdw w).fd r = (none, a) ∧ Missed s ready J a w := by
  obtain ⟨hrec, -⟩ := h.pending w hw.1 hn
  have hcur := s'.fdGenerationCurrent_regen (s.fdw w).fd
  have hnext := hJ w hw s' h.table
  have hold : (s'.fdGenerationCurrent (s.fdw w).fd).1 ≠ (s.fdw w).generation →
      ∃ a : Rt, J a.fdGenerations a.tape ∧
        (a.fdGenerationCurrent (s.fdw w).fd).1 ≠ (s.fdw w).generation := fun hne => ⟨s', h.table, hne⟩
  unfold fdFindWaiter
  rw [hf]
  simp only
  generalize s'.fdGenerationCurrent (s.fdw w).fd = p at hcur hnext hold
  obtain ⟨gen, a⟩ := p
  have hprog : Progress s ready done a := h.toProgress.regen hcur
  obtain ⟨hreca, -⟩ := hprog.pending w hw.1 hn
  rw [hreca]
  by_cases hgen : (s.fdw w).generation = gen
  · rw [if_pos hgen]
    obtain ⟨hknown, htable⟩ := hnext hgen.symm
    exact .inl ⟨a, rfl, ⟨hprog, htable, h.found⟩, hknown⟩
  · rw [if_neg hgen]
    have hmem : w ∈ a.fdWaiters := hprog.list ▸ hw.1
    have hact : (a.fdw w).state = .active := by rw [hreca, hw.2.1]
    obtain ⟨items, hperm, heq⟩ := hprog.inv.fdReadyWaiter hmem hact .closed 0
    have hinv : ((a.unwatch w).wakeFd w items .closed 0).Inv :=
      Shifts.inv (.tail (.single (.quiet a.fdGenerations a.ioPolling _ _ a.tape))
        (.wakeFd w items _ _ hmem hact (hperm.congr rfl rfl))) hprog.inv
    refine .inr ⟨_, rfl, ?_⟩
    rw [heq]
    refine ⟨hinv, hw, ?_, ?_, ?_, hold (Ne.symm hgen)⟩
    · have hall : (s.fdw w).task ∈ a.allTasks := hprog.tasks ▸ (hs.fd.owner w hw.1).1
      exact hall
    · simp [Rt.wakeFd, hreca]
    · simp [Rt.wakeFd, hreca]

theorem Pass.complete (h : Pass s ready J known done s') (hs : s.Inv) (hw : s.Reported ready w)
    (hn : ¬done w) (hknown : known w) :
    Pass s ready J known (fun v => done v ∨ v = w)
      (s'.fdReadyWaiter w .ok (s.readyFor ready w)) := by
  refine ⟨h.toProgress.complete hs hw.1 hw.2.1 hn, ?_, fun v hv hdv => ?_⟩
  · obtain ⟨hrec, -⟩ := h.pending w hw.1 hn
    obtain ⟨items, -, heq⟩ := h.inv.fdReadyWaiter (h.list ▸ hw.1) (by rw [hrec, hw.2.1]) .ok
      (s.readyFor ready w)
    rw [heq]
    exact h.table
  · rcases hdv with hdv | rfl
    · exact h.found v hv hdv
    · exact hknown

/-! ## poll -/

/-- One pass of `mt_poll_backend_wait_locked` over the readiness `ready`. -/
def pollPass (s : Rt) (ready : Nat → Nat) : Rt :=
  (s.pollBackendEntries.map fun p => ({ fd := p.1, bits := ready p.1 &&& p.2 } : ReadyEvent)).foldl
    pollBackendDispatch s

/-- The search of an event ends at `w` if no waiter before it can be found. -/
theorem Progress.find?_eq (h : Progress s ready done s') {pre post : List FdWaiterId} {r : Nat}
    (hlist : s.fdWaiters.filter s.fdWaiterIsActive = pre ++ w :: post) (hn : ¬done w)
    (hr : (s.fdw w).events &&& r ≠ 0)
    (hpre : ∀ v ∈ pre, ¬done v → (s.fdw v).fd = (s.fdw w).fd → (s.fdw v).events &&& r = 0) :
    (s'.fdWaiters.find? fun v => s'.fdWaiterIsActive v && (s'.fdw v).fd == (s.fdw w).fd &&
      ((s'.fdw v).events &&& r) != 0) = some w := by
  have hmem : ∀ v ∈ pre ++ w :: post, v ∈ s.fdWaiters ∧ (s.fdw v).state = .active := fun v hv => by
    rw [← hlist] at hv
    simpa [fdWaiterIsActive] using hv
  obtain ⟨hw, ha⟩ := hmem w (by simp)
  have hrec := (h.pending w hw hn).1
  have hfilter : (s'.fdWaiters.find? fun v => s'.fdWaiterIsActive v &&
      (s'.fdw v).fd == (s.fdw w).fd && ((s'.fdw v).events &&& r) != 0) =
      (s.fdWaiters.filter s.fdWaiterIsActive).find? fun v => s'.fdWaiterIsActive v &&
      (s'.fdw v).fd == (s.fdw w).fd && ((s'.fdw v).events &&& r) != 0 := by
    rw [List.find?_filter, h.list, ← List.head?_filter, ← List.head?_filter]
    refine congrArg List.head? (List.filter_congr fun v hv => ?_)
    rw [Bool.eq_iff_iff]
    simp only [Bool.and_eq_true, fdWaiterIsActive, beq_iff_eq, decide_eq_true_eq]
    refine ⟨fun hp => ⟨?_, hp⟩, fun hp => hp.2⟩
    rw [← (h.active hv hp.1.1).2]
    exact hp.1.1
  rw [hfilter, hlist, List.find?_append, List.find?_eq_none.mpr, Option.none_or,
    List.find?_cons_of_pos]
  · simp [fdWaiterIsActive, hrec, ha, hr]
  · intro v hv hp
    obtain ⟨hv1, -⟩ := hmem v (by simp [hv])
    simp only [Bool.and_eq_true, fdWaiterIsActive, beq_iff_eq, bne_iff_ne] at hp
    obtain ⟨hnv, hrv⟩ := h.active hv1 hp.1.1
    rw [hrv] at hp
    exact hp.2 (hpre v hv hnv hp.1.2)

/-- The entry of a waiter completes this waiter if something is ready for it. -/
theorem Pass.pollDispatch {pre post : List FdWaiterId}
    (h : Pass s ready J known (fun v => v ∈ pre ∧ s.readyFor ready v ≠ 0) s') (hs : s.Watched)
    (hJ : Lookups s ready J known)
    (hlist : s.fdWaiters.filter s.fdWaiterIsActive = pre ++ w :: post) {e : ReadyEvent}
    (he : e = { fd := (s.fdw w).fd, bits := reportOf (ready (s.fdw w).fd) (s.fdw w).events }) :
    Pass s ready J known (fun v => v ∈ pre ++ [w] ∧ s.readyFor ready v ≠ 0)
      (s'.pollBackendDispatch e) ∨ ∃ v, Missed s ready J (s'.pollBackendDispatch e) v := by
  have hmem : w ∈ s.fdWaiters ∧ (s.fdw w).state = .active := by
    have : w ∈ s.fdWaiters.filter s.fdWaiterIsActive := by simp [hlist]
    simpa [fdWaiterIsActive] using this
  have hnodup : (pre ++ w :: post).Nodup := hlist ▸ hs.exclusive.nodup.filter _
  have hwpre : w ∉ pre := fun hw => (List.nodup_append.mp hnodup).2.2 w hw w (by simp) rfl
  have hev := hs.interest hmem.1
  have hself : (s.fdw w).events &&& (s.fdw w).events = (s.fdw w).events := Nat.and_self _
  have hval : revents2FdEvents (reportOf (ready (s.fdw w).fd) (s.fdw w).events) &&&
      (s.fdw w).events = s.readyFor ready w := revents2FdEvents_reportOf hev hev hself
  subst he
  unfold pollBackendDispatch
  by_cases hz : s.readyFor ready w = 0
  · rw [if_pos ((reportOf_eq_zero hev).mpr hz)]
    refine .inl (h.congr fun v _ => ?_)
    by_cases hv : v = w
    · simp [hv, hz]
    · simp [hv]
  · have hrep : s.Reported ready w := ⟨hmem.1, hmem.2, hz⟩
    have hpend : ¬(w ∈ pre ∧ s.readyFor ready w ≠ 0) := by simp [hwpre]
    rw [if_neg fun hb => hz ((reportOf_eq_zero hev).mp hb),
      if_neg (by simpa using reportOf_and_nval hev)]
    have hfind := h.find?_eq hlist hpend (r := revents2FdEvents
      (reportOf (ready (s.fdw w).fd) (s.fdw w).events)) (by rwa [Nat.and_comm, hval]) ?_
    · rcases h.look hs.inv hJ hrep hpend hfind with ⟨a, heq, ha, hknown⟩ | ⟨a, heq, hmiss⟩
      · rw [heq]
        have hrec := (ha.pending w hmem.1 hpend).1
        simp only [hrec, hval]
        rw [if_neg (by simp [hz])]
        refine .inl ((ha.complete hs.inv hrep hpend hknown).congr fun v _ => ?_)
        by_cases hv : v = w
        · simp [hv, hz]
        · simp [hv]
      · rw [heq]
        exact .inr ⟨w, hmiss⟩
    · -- a waiter before this one was left because nothing was ready for it
      intro v hv hnd hfd
      have hv0 : s.readyFor ready v = 0 := by
        by_contra hne
        exact hnd ⟨hv, hne⟩
      have hvmem : v ∈ s.fdWaiters := by
        have : v ∈ s.fdWaiters.filter s.fdWaiterIsActive := by simp [hlist, hv]
        exact (List.mem_filter.mp this).1
      rw [readyFor, hfd] at hv0
      rw [Nat.and_comm]
      exact revents2FdEvents_reportOf_eq_zero (hs.interest hvmem) hv0

theorem pollPass_pass (hs : s.Watched) (hJ : Lookups s ready J known)
    (htable : J s.fdGenerations s.tape) :
    Pass s ready J known (fun w => (s.fdw w).state = .active ∧ s.readyFor ready w ≠ 0)
      (s.pollPass ready) ∨ ∃ v, Missed s ready J (s.pollPass ready) v := by
  have key : ∀ (post pre : List FdWaiterId) (a : Rt),
      s.fdWaiters.filter s.fdWaiterIsActive = pre ++ post →
      (Pass s ready J known (fun v => v ∈ pre ∧ s.readyFor ready v ≠ 0) a ∨
        ∃ v, Missed s ready J a v) →
      (Pass s ready J known (fun v => v ∈ pre ++ post ∧ s.readyFor ready v ≠ 0)
        (post.foldl (fun a w => a.pollBackendDispatch
          { fd := (s.fdw w).fd, bits := reportOf (ready (s.fdw w).fd) (s.fdw w).events }) a) ∨
        ∃ v, Missed s ready J (post.foldl (fun a w => a.pollBackendDispatch
          { fd := (s.fdw w).fd, bits := reportOf (ready (s.fdw w).fd) (s.fdw w).events }) a) v) := by
    intro post
    induction post with
    | nil =>
        intro pre a _ h
        simpa using h
    | cons w post ih =>
        intro pre a hlist h
        have hnext := ih (pre ++ [w]) (a.pollBackendDispatch
          { fd := (s.fdw w).fd, bits := reportOf (ready (s.fdw w).fd) (s.fdw w).events })
          (by simpa using hlist)
        rw [List.append_assoc, List.singleton_append] at hnext
        refine hnext ?_
        rcases h with h | ⟨v, hmiss⟩
        · exact h.pollDispatch hs hJ hlist rfl
        · exact .inr ⟨v, hmiss.shifts (hmiss.inv.pollBackendDispatch (List.mem_singleton_self _))⟩
  have hall := key _ [] s rfl (.inl ⟨.start hs.inv (by simp), htable, by simp⟩)
  rw [pollPass, pollBackendEntries, List.map_map, List.foldl_map]
  refine hall.imp_left fun hpass => hpass.congr fun w hw => ?_
  simp [fdWaiterIsActive, hw]

/-! ## epoll -/

/-- What `epoll_wait` returns for the readiness `ready`, which makes at most 63 descriptors
ready: with the wake descriptor they fit into its array. -/
structure EpollReport (s : Rt) (ready : Nat → Nat) (batch : List ReadyEvent) : Prop where
  nodup : (batch.map (·.fd)).Nodup
  few : batch.length ≤ 63
  sound : ∀ e ∈ batch, s.fdActiveEventsForFd e.fd 0 ≠ 0 ∧ e.bits ≠ 0 ∧
    e.bits = ready e.fd &&& epollEventsFromFdEvents (s.fdActiveEventsForFd e.fd 0)
  complete : ∀ fd, s.fdActiveEventsForFd fd 0 ≠ 0 →
    ready fd &&& epollEventsFromFdEvents (s.fdActiveEventsForFd fd 0) ≠ 0 → ∃ e ∈ batch, e.fd = fd

/-- One descriptor is ready. -/
theorem EpollReport.one {fd n act bits : Nat} (hact : s.fdActiveEventsForFd fd 0 = act)
    (hpos : act ≠ 0) (hbits : bits ≠ 0 ∧ bits = n &&& epollEventsFromFdEvents act) :
    s.EpollReport (fun x => if x = fd then n else 0) [{ fd := fd, bits := bits }] := by
  refine ⟨by simp, by simp, fun e he => ?_, fun x _ hne => ⟨_, List.mem_singleton_self _, ?_⟩⟩
  · obtain rfl := List.mem_singleton.mp he
    rw [hact]
    exact ⟨hpos, hbits.1, by simpa using hbits.2⟩
  · by_contra hx
    simp [Ne.symm hx] at hne

theorem fdActiveEventsForFd_eq (s : Rt) (fd : Nat) : s.fdActiveEventsForFd fd 0 =
    (s.activeOn fd).foldl (fun active w => active ||| (s.fdw w).events) 0 := by
  rw [activeOn, List.foldl_filter]
  rfl

/-- The union of the interests in a descriptor covers each of them. -/
theorem Watched.activeEvents (h : s.Watched) {fd : Nat} (hw : w ∈ s.activeOn fd) :
    Interest (s.fdActiveEventsForFd fd 0) ∧
      (s.fdw w).events &&& s.fdActiveEventsForFd fd 0 = (s.fdw w).events := by
  rw [fdActiveEventsForFd_eq]
  have hint := fun v (hv : v ∈ s.activeOn fd) => h.interest (mem_activeOn.mp hv).1
  rcases h.exclusive.activeOn_cases fd with h0 | ⟨v, h1⟩ | ⟨v, x, h2, hop⟩
  · simp [h0] at hw
  · rw [h1] at hw hint ⊢
    obtain rfl := List.mem_singleton.mp hw
    simpa using hint w (by simp)
  · rw [h2] at hw ⊢
    have hor : (s.fdw v).events ||| (s.fdw x).events = 3 := by
      rcases hop with ⟨h3, h4⟩ | ⟨h3, h4⟩ <;> rw [h3, h4] <;> rfl
    simp only [List.foldl_cons, List.foldl_nil, Nat.zero_or, hor]
    refine ⟨.inr (.inr rfl), ?_⟩
    rcases hint w (by rw [h2]; exact hw) with h5 | h5 | h5 <;> rw [h5] <;> rfl

/-- The events that remain once those of a waiter have been cleared. -/
def cleared (r b : Nat) : Nat := r &&& (3 ^^^ (r &&& b))

theorem cleared_spec : ∀ r < 4, ∀ b < 4, r &&& b ≠ 0 → cleared r b < 4 ∧ cleared r b &&& b = 0 ∧
    cleared r b % 2 + cleared r b / 2 < r % 2 + r / 2 := by
  decide

theorem cleared_and : ∀ r < 4, ∀ b < 4, ∀ a < 4, (a &&& b = 0 → cleared r b &&& a = r &&& a) ∧
    (r &&& a = 0 → cleared r b &&& a = 0) := by
  decide

theorem interest_lt {ev : Nat} (h : Interest ev) : ev < 4 := by
  rcases h with rfl | rfl | rfl <;> decide

/-- The loop may stop when nothing that remains concerns a waiter that is left. -/
theorem Pass.stop {fd r : Nat} (h : Pass s ready J known done s')
    (hpend : ∀ w ∈ s.activeOn fd, ¬done w → r &&& (s.fdw w).events = s.readyFor ready w)
    (hz : ∀ w ∈ s.activeOn fd, ¬done w → r &&& (s.fdw w).events = 0) :
    Pass s ready J known (fun v => done v ∨ (v ∈ s.activeOn fd ∧ s.readyFor ready v ≠ 0)) s' :=
  h.congr fun w _ => by
    refine ⟨.inl, fun hd => hd.elim id fun ⟨hw, hne⟩ => ?_⟩
    by_contra hn
    exact hne ((hpend w hw hn).symm.trans (hz w hw hn))

/-- The inner loop completes the waiters of its descriptor for which something is ready. -/
theorem Pass.epollLoop (hs : s.Watched) (hJ : Lookups s ready J known) (e : ReadyEvent)
    {fuel r : Nat} (h : Pass s ready J known done s') (hr : r < 4) (hfuel : r % 2 + r / 2 ≤ fuel)
    (hpend : ∀ w ∈ s.activeOn e.fd, ¬done w → r &&& (s.fdw w).events = s.readyFor ready w)
    (hdone : ∀ w ∈ s.activeOn e.fd, done w → r &&& (s.fdw w).events = 0) :
    Pass s ready J known (fun v => done v ∨ (v ∈ s.activeOn e.fd ∧ s.readyFor ready v ≠ 0))
      (epollBackendDispatchLoop e fuel r s') ∨
      ∃ v, Missed s ready J (epollBackendDispatchLoop e fuel r s') v := by
  induction fuel generalizing r s' done with
  | zero =>
      obtain rfl : r = 0 := by omega
      exact .inl (h.stop hpend fun w _ _ => Nat.zero_and _)
  | succ fuel ih =>
      unfold epollBackendDispatchLoop
      split
      · next hz =>
          subst hz
          exact .inl (h.stop hpend fun w _ _ => Nat.zero_and _)
      · cases hf : s'.fdWaiters.find? fun w =>
            s'.fdWaiterIsActive w && (s'.fdw w).fd == e.fd && ((s'.fdw w).events &&& r) != 0 with
        | none =>
            have hnone : s'.fdFindWaiter e.fd r = (none, s') := by
              unfold fdFindWaiter
              rw [hf]
            rw [hnone]
            refine .inl (h.stop hpend fun w hw hn => ?_)
            obtain ⟨hw1, hw2, hw3⟩ := mem_activeOn.mp hw
            have hp := List.find?_eq_none.mp hf w (h.list ▸ hw1)
            simpa [fdWaiterIsActive, (h.pending w hw1 hn).1, hw2, hw3, Nat.and_comm] using hp
        | some w =>
            have hw1 : w ∈ s.fdWaiters := h.list ▸ List.mem_of_find?_eq_some hf
            have hp := List.find?_some hf
            simp only [Bool.and_eq_true, fdWaiterIsActive, beq_iff_eq, bne_iff_ne] at hp
            obtain ⟨hn, hrec⟩ := h.active hw1 hp.1.1
            rw [hrec, Nat.and_comm] at hp
            have hw : w ∈ s.activeOn e.fd := mem_activeOn.mpr ⟨hw1, hp.1.1, hp.1.2⟩
            have hval := hpend w hw hn
            have hrep : s.Reported ready w := ⟨hw1, hp.1.1, fun hz => hp.2 (hval.trans hz)⟩
            have hlook := h.look hs.inv hJ hrep hn (r := r) (by rw [hp.1.2]; exact hf)
            rw [hp.1.2] at hlook
            rcases hlook with ⟨a, heq, ha, hknown⟩ | ⟨a, heq, hmiss⟩
            · have hlt := fun v hv => interest_lt (hs.interest (w := v) hv)
              obtain ⟨c1, c2, c3⟩ := cleared_spec r hr _ (hlt w hw1) hp.2
              have c4 := fun v hv => cleared_and r hr _ (hlt w hw1) _ (hlt v hv)
              rw [heq]
              have hreca := (ha.pending w hw1 hn).1
              simp only [hreca, if_neg fun hc : r &&& (s.fdw w).events = 0 ∧ _ => hp.2 hc.1]
              have hnext := ha.complete hs.inv hrep hn hknown
              rw [← hval] at hnext
              have hrest := ih (r := cleared r (s.fdw w).events) hnext c1 (by omega) ?_ ?_
              · refine hrest.imp_left fun hpass => hpass.congr fun v _ => ?_
                constructor
                · rintro ((hd | rfl) | hv)
                  · exact .inl hd
                  · exact .inr ⟨hw, hrep.2.2⟩
                  · exact .inr hv
                · rintro (hd | hv)
                  · exact .inl (.inl hd)
                  · exact .inr hv
              · intro v hv hnv
                obtain ⟨hnv, hne⟩ := not_or.mp hnv
                have hv1 := (mem_activeOn.mp hv).1
                rw [(c4 v hv1).1 (hs.exclusive.activeOn_disjoint hv hw hne)]
                exact hpend v hv hnv
              · intro v hv hdv
                by_cases hne : v = w
                · rw [hne]
                  exact c2
                · exact (c4 v (mem_activeOn.mp hv).1).2 (hdone v hv (hdv.resolve_right hne))
            · rw [heq]
              exact .inr ⟨w, hmiss⟩

/-- One entry completes the waiters of its descriptor for which something is ready. -/
theorem Pass.epollDispatch {batch : List ReadyEvent} {e : ReadyEvent}
    (h : Pass s ready J known done s') (hs : s.Watched) (hJ : Lookups s ready J known)
    (hb : s.EpollReport ready batch) (he : e ∈ batch) (hnew : ∀ w ∈ s.activeOn e.fd, ¬done w) :
    Pass s ready J known (fun v => done v ∨ (v ∈ s.activeOn e.fd ∧ s.readyFor ready v ≠ 0))
      (s'.epollBackendDispatch e) ∨ ∃ v, Missed s ready J (s'.epollBackendDispatch e) v := by
  obtain ⟨-, -, hbits⟩ := hb.sound e he
  have hlt : revents2FdEvents e.bits < 4 := by
    rw [revents2FdEvents_eq]
    split <;> split <;> decide
  refine h.epollLoop hs hJ e hlt (by omega) (fun w hw _ => ?_) fun w hw hd => absurd hd (hnew w hw)
  obtain ⟨hw1, -, hfd⟩ := mem_activeOn.mp hw
  obtain ⟨hact, hsub⟩ := hs.activeEvents hw
  rw [hbits, and_epollEventsFromFdEvents, revents2FdEvents_reportOf hact (hs.interest hw1) hsub,
    readyFor, hfd]

theorem epollPass_pass (hs : s.Watched) (hJ : Lookups s ready J known)
    (htable : J s.fdGenerations s.tape) {batch : List ReadyEvent} (hb : s.EpollReport ready batch) :
    Pass s ready J known (fun w => (s.fdw w).state = .active ∧ s.readyFor ready w ≠ 0)
      (batch.foldl epollBackendDispatch s) ∨
      ∃ v, Missed s ready J (batch.foldl epollBackendDispatch s) v := by
  have key : ∀ (post pre : List ReadyEvent) (a : Rt), batch = pre ++ post →
      (Pass s ready J known (fun v => ∃ e ∈ pre, v ∈ s.activeOn e.fd ∧ s.readyFor ready v ≠ 0) a ∨
        ∃ v, Missed s ready J a v) →
      (Pass s ready J known (fun v => ∃ e ∈ batch, v ∈ s.activeOn e.fd ∧ s.readyFor ready v ≠ 0)
        (post.foldl epollBackendDispatch a) ∨
        ∃ v, Missed s ready J (post.foldl epollBackendDispatch a) v) := by
    intro post
    induction post with
    | nil =>
        intro pre a hbatch h
        rw [hbatch, List.append_nil]
        exact h
    | cons e post ih =>
        intro pre a hbatch h
        refine ih (pre ++ [e]) _ (by simp [hbatch]) ?_
        rcases h with h | ⟨v, hmiss⟩
        · have hstep := h.epollDispatch hs hJ hb (e := e) (by simp [hbatch]) fun w hw hdone => by
            -- a descriptor has one entry
            obtain ⟨x, hx, hwx, -⟩ := hdone
            have hfd : x.fd = e.fd := (mem_activeOn.mp hwx).2.2.symm.trans (mem_activeOn.mp hw).2.2
            have hnodup := hb.nodup
            rw [hbatch, List.map_append, List.map_cons] at hnodup
            exact (List.nodup_append.mp hnodup).2.2 x.fd (List.mem_map_of_mem hx) e.fd (by simp) hfd
          refine hstep.imp_left fun hpass => hpass.congr fun v _ => ?_
          simp only [List.mem_append, List.mem_singleton, or_and_right, exists_or, exists_eq_left]
        · exact .inr ⟨v, hmiss.shifts
            (hmiss.inv.epollBackendDispatchLoop (List.mem_singleton_self e) 3 _)⟩
  refine (key batch [] s rfl (.inl ⟨.start hs.inv (by simp), htable, by simp⟩)).imp_left fun hpass =>
    hpass.congr fun w hw => ?_
  constructor
  · rintro ⟨e, -, hact, hne⟩
    exact ⟨(mem_activeOn.mp hact).2.1, hne⟩
  · rintro ⟨ha, hne⟩
    have hact : w ∈ s.activeOn (s.fdw w).fd := mem_activeOn.mpr ⟨hw, ha, rfl⟩
    obtain ⟨hint, hsub⟩ := hs.activeEvents hact
    have hpos : s.fdActiveEventsForFd (s.fdw w).fd 0 ≠ 0 := by
      rcases hint with h1 | h1 | h1 <;> simp [h1]
    obtain ⟨e, he, hfd⟩ := hb.complete (s.fdw w).fd hpos fun hz => by
      rw [and_epollEventsFromFdEvents] at hz
      have hval := revents2FdEvents_reportOf (n := ready (s.fdw w).fd) hint (hs.interest hw) hsub
      rw [hz] at hval
      exact hne (hval.symm.trans (by simp [revents2FdEvents]))
    exact ⟨e, he, hfd ▸ hact, hne⟩

/-! ## Agreement -/

/-- A pass from `s` to `s'` has completed the waiter. -/
structure Completed (s s' : Rt) (w : FdWaiterId) (rc : Rc) (ready : Nat) : Prop where
  waiter : s'.fdw w = { s.fdw w with state := .readyReserved }
  state : (s'.task (s.fdw w).task).state = .ready
  result : (s'.task (s.fdw w).task).fdResult = rc
  ready : (s'.task (s.fdw w).task).fdReadyEvents = ready

/-- A pass from `s` to `s'` has left the waiter as it was. -/
structure Untouched (s s' : Rt) (w : FdWaiterId) : Prop where
  waiter : s'.fdw w = s.fdw w
  task : s'.task (s.fdw w).task = s.task (s.fdw w).task

theorem Progress.outcome (h : Progress s ready done s') (hw : w ∈ s.fdWaiters) :
    (done w → Completed s s' w .ok (s.readyFor ready w)) ∧ (¬done w → Untouched s s' w) := by
  constructor
  · intro hd
    obtain ⟨h1, h2, h3, h4⟩ := h.completed w hw hd
    exact ⟨h1, h2, h3, h4⟩
  · intro hd
    obtain ⟨h1, h2⟩ := h.pending w hw hd
    exact ⟨h1, h2⟩

/-- The immediate poll of `mt_fd_wait` returns the events that are ready at once. -/
theorem fdWait_immediate {events : Nat} (hev : Interest events) {n : Nat}
    (hne : revents2FdEvents n &&& events ≠ 0) (a : Rt) (t : TaskId) (fd timeoutMs nowNs : Nat)
    (inst : Option Nat) (hc : a.fdIsClosing fd = false) (hw : a.fdWaiterConflicts fd events = false) :
    a.fdWait t fd events timeoutMs nowNs (.revents (reportOf n events)) inst =
      (.ret .ok, revents2FdEvents n &&& events, a) := by
  have hbits : reportOf n events ≠ 0 := fun hz => hne ((reportOf_eq_zero hev).mp hz)
  have hnval := reportOf_and_nval (n := n) hev
  have hval := revents2FdEvents_reportOf (n := n) hev hev (Nat.and_self events)
  unfold fdWait
  rw [if_neg (by simp [hc]), if_neg (by simp [hw])]
  simp only [if_pos hbits, hnval, fdWaitReady, hval, hne, ne_eq, not_true_eq_false, if_false,
    false_and, and_false]

/-! ## The passes agree as long as nobody is missed -/

/-- One pass of poll and one pass of epoll complete the same waiters with `MT_OK` and the same
events: the active ones that wait for something the kernel reports, each with what the
immediate poll of `mt_fd_wait` would have returned. All other waiters are left alone. -/
def Agrees (s : Rt) (ready : Nat → Nat) (batch : List ReadyEvent) : Prop := ∀ w ∈ s.fdWaiters,
  ((s.fdw w).state = .active ∧ s.readyFor ready w ≠ 0 →
    s.Completed (s.pollPass ready) w .ok (s.readyFor ready w) ∧
    s.Completed (batch.foldl epollBackendDispatch s) w .ok (s.readyFor ready w) ∧
    ∀ (a : Rt) (t : TaskId) (timeoutMs nowNs : Nat) (inst : Option Nat),
      a.fdIsClosing (s.fdw w).fd = false →
      a.fdWaiterConflicts (s.fdw w).fd (s.fdw w).events = false →
      a.fdWait t (s.fdw w).fd (s.fdw w).events timeoutMs nowNs
          (.revents (reportOf (ready (s.fdw w).fd) (s.fdw w).events)) inst =
        (.ret .ok, s.readyFor ready w, a)) ∧
  (¬((s.fdw w).state = .active ∧ s.readyFor ready w ≠ 0) →
    s.Untouched (s.pollPass ready) w ∧ s.Untouched (batch.foldl epollBackendDispatch s) w)

variable {batch : List ReadyEvent}

instance (s : Rt) (x : FdWaiter) : Decidable (s.UpToDateAt x) := by
  unfold UpToDateAt
  infer_instance

theorem fdGenerationCurrent_of_find {fd : Nat} {g : FdGeneration}
    (hg : s.fdGenerationFind fd = some g) : s.fdGenerationCurrent fd = (g.generation, s) := by
  unfold fdGenerationCurrent
  rw [hg]

theorem UpToDateAt.current {a : Rt} {x : FdWaiter} (h : s.UpToDateAt x)
    (ha : a.fdGenerations = s.fdGenerations) : a.fdGenerationCurrent x.fd = (x.generation, a) := by
  obtain ⟨g, hg, hgen⟩ := h
  rw [fdGenerationCurrent_of_find (g := g) (by rw [fdGenerationFind, ha]; exact hg), hgen]

theorem Agrees.of_upToDate (hs : s.Watched) (hb : s.EpollReport ready batch)
    (hu : ∀ w, s.Reported ready w → s.UpToDateAt (s.fdw w)) : s.Agrees ready batch := by
  let J : List FdGeneration → List Bool → Prop := fun gens _ => gens = s.fdGenerations
  have hJ : Lookups s ready J fun _ => True := fun w hw a ha _ => by
    rw [(hu w hw).current ha]
    exact ⟨trivial, ha⟩
  have found : ∀ {a : Rt} v, ¬Missed s ready J a v := fun v hmiss => by
    obtain ⟨a, ha, hne⟩ := hmiss.outdated
    rw [(hu v hmiss.reported).current ha] at hne
    exact hne rfl
  have hpoll := (pollPass_pass hs hJ rfl).resolve_right fun hmiss => hmiss.elim fun v => found v
  have hepoll := (epollPass_pass hs hJ rfl hb).resolve_right fun hmiss => hmiss.elim fun v => found v
  intro w hw
  obtain ⟨h1, h2⟩ := hpoll.toProgress.outcome hw
  obtain ⟨h3, h4⟩ := hepoll.toProgress.outcome hw
  exact ⟨fun hd => ⟨h1 hd, h3 hd, fun a t timeoutMs nowNs inst hc hx =>
    fdWait_immediate (hs.interest hw) hd.2 a t _ timeoutMs nowNs inst hc hx⟩,
    fun hd => ⟨h2 hd, h4 hd⟩⟩

/-- A pass that agrees has found every waiter it looked for. -/
theorem Agrees.found (h : s.Agrees ready batch) (hs : s.Watched) (hJ : Lookups s ready J known)
    (htable : J s.fdGenerations s.tape) (hw : s.Reported ready w) : known w := by
  rcases pollPass_pass hs hJ htable with hpass | ⟨v, hmiss⟩
  · exact hpass.found w hw.1 hw.2
  · obtain ⟨hv, hrep⟩ := hmiss.reported
    have hresult := ((h v hv).1 hrep).1.result
    rw [hmiss.result] at hresult
    cases hresult

theorem Watched.tape (h : s.Watched) (tape : List Bool) : Watched { s with tape := tape } :=
  ⟨(Regen.tape s tape).quiet.inv h.inv, h.exclusive.nodup, h.exclusive.valid, h.exclusive.disjoint⟩

/-- With memory for every entry, a waiter that is not of the current generation could at best
be of the first, with an entry still to be made. -/
theorem Agrees.first (h : Agrees { s with tape := [] } ready batch) (hs : s.Watched)
    (hw : s.Reported ready w) : s.UpToDateAt (s.fdw w) ∨
      (s.fdGenerationFind (s.fdw w).fd = none ∧ (s.fdw w).generation = 1) := by
  let J : List FdGeneration → List Bool → Prop := fun gens tape => tape = [] ∧
    ∀ fd, gens.find? (·.fd == fd) = s.fdGenerationFind fd ∨ (s.fdGenerationFind fd = none ∧
      ∃ g, gens.find? (·.fd == fd) = some g ∧ g.generation = 1)
  have hlook : Lookups { s with tape := [] } ready J fun v => s.UpToDateAt (s.fdw v) ∨
      (s.fdGenerationFind (s.fdw v).fd = none ∧ (s.fdw v).generation = 1) := ?_
  · exact h.found (hs.tape []) hlook ⟨rfl, fun fd => .inl rfl⟩ hw
  intro v _ a ha hgen
  obtain ⟨htape, hfind⟩ := ha
  change (a.fdGenerationCurrent (s.fdw v).fd).1 = (s.fdw v).generation at hgen
  change _ ∧ J (a.fdGenerationCurrent (s.fdw v).fd).2.fdGenerations
    (a.fdGenerationCurrent (s.fdw v).fd).2.tape
  cases hg : a.fdGenerationFind (s.fdw v).fd with
  | some g =>
      rw [fdGenerationCurrent_of_find hg] at hgen ⊢
      refine ⟨?_, htape, hfind⟩
      rcases hfind (s.fdw v).fd with heq | ⟨hnone, x, hx, hone⟩
      · exact .inl ⟨g, heq.symm.trans hg, hgen⟩
      · obtain rfl := Option.some.inj (hx.symm.trans hg)
        exact .inr ⟨hnone, hgen.symm.trans hone⟩
  | none =>
      have hnone : s.fdGenerationFind (s.fdw v).fd = none := by
        rcases hfind (s.fdw v).fd with heq | ⟨hnone, -⟩
        · exact heq.symm.trans hg
        · exact hnone
      have hcur : a.fdGenerationCurrent (s.fdw v).fd = (1, { a with fdGenerations :=
          { fd := (s.fdw v).fd, generation := 1, originalFlags := -1 } :: a.fdGenerations }) := by
        simp only [fdGenerationCurrent, ask, hg, htape]
      rw [hcur] at hgen ⊢
      refine ⟨.inr ⟨hnone, hgen.symm⟩, htape, fun fd => ?_⟩
      by_cases hfd : (s.fdw v).fd = fd
      · exact .inr ⟨hfd ▸ hnone, _, List.find?_cons_of_pos (by simpa using hfd), rfl⟩
      · have hskip : (({ fd := (s.fdw v).fd, generation := 1, originalFlags := -1 } : FdGeneration) ::
            a.fdGenerations).find? (·.fd == fd) = a.fdGenerations.find? (·.fd == fd) :=
          List.find?_cons_of_neg (by simpa using hfd)
        rw [hskip]
        exact hfind fd

/-- Without memory for the first entry that a pass makes, nobody can be of the first
generation and have none. -/
theorem Agrees.second (h : Agrees { s with tape := [false] } ready batch) (hs : s.Watched)
    (hfirst : ∀ v, s.Reported ready v → s.UpToDateAt (s.fdw v) ∨
      (s.fdGenerationFind (s.fdw v).fd = none ∧ (s.fdw v).generation = 1))
    (hw : s.Reported ready w) : s.UpToDateAt (s.fdw w) := by
  let J : List FdGeneration → List Bool → Prop := fun gens tape =>
    gens = s.fdGenerations ∧ tape = [false]
  have hlook : Lookups { s with tape := [false] } ready J fun v => s.UpToDateAt (s.fdw v) := ?_
  · exact h.found (hs.tape [false]) hlook ⟨rfl, rfl⟩ hw
  intro v hv a ha hgen
  change (a.fdGenerationCurrent (s.fdw v).fd).1 = (s.fdw v).generation at hgen
  change _ ∧ J (a.fdGenerationCurrent (s.fdw v).fd).2.fdGenerations
    (a.fdGenerationCurrent (s.fdw v).fd).2.tape
  rcases hfirst v hv with hup | ⟨hnone, hone⟩
  · rw [hup.current ha.1]
    exact ⟨hup, ha⟩
  · have hzero : (a.fdGenerationCurrent (s.fdw v).fd).1 = 0 := by
      have hg : a.fdGenerationFind (s.fdw v).fd = none := by
        rw [fdGenerationFind, ha.1]
        exact hnone
      unfold fdGenerationCurrent ask
      rw [hg, ha.2]
    rw [hzero, hone] at hgen
    cases hgen

end Rt

/-- The passes agree, whatever the allocator answers on the way, exactly if the waiters with
something reported are of the current generations of their descriptors. -/
theorem poll_and_epoll_agree {s : Rt} (hs : s.Watched) {ready : Nat → Nat}
    {batch : List ReadyEvent} (hb : s.EpollReport ready batch) :
    (∀ tape, Rt.Agrees { s with tape := tape } ready batch) ↔
      ∀ w, s.Reported ready w → s.UpToDateAt (s.fdw w) := by
  constructor
  · intro h w hw
    exact (h [false]).second hs (fun v hv => (h []).first hs hv) hw
  · intro hu tape
    exact .of_upToDate (hs.tape tape) ⟨hb.nodup, hb.few, hb.sound, hb.complete⟩ hu

/-- The peer of descriptor 5 hangs up with data left: the reader and the writer of it are
completed by either backend. -/
theorem poll_and_epoll_agree_hangup : ∃ s : Rt, s.Watched ∧ s.fdWaiters = [3, 2] ∧
    s.Completed (s.pollPass fun fd => if fd = 5 then 17 else 0) 2 .ok 1 ∧
    s.Completed ([{ fd := 5, bits := 17 }].foldl Rt.epollBackendDispatch s) 2 .ok 1 := by
  obtain ⟨s, hs, hp⟩ := reach_of_promised .poll duplexTrace (fun s =>
      s.rt.Exclusive && (s.rt.fdWaiters.all fun w => s.rt.UpToDateAt (s.rt.fdw w)) &&
        s.rt.fdWaiters == [3, 2] && s.rt.fdActiveEventsForFd 5 0 == 3 &&
        (s.rt.fdw 2).state == .active && (s.rt.fdw 2).fd == 5 && (s.rt.fdw 2).events == 1)
    (by decide +kernel)
  simp only [Bool.and_eq_true, decide_eq_true_eq, beq_iff_eq, List.all_eq_true] at hp
  obtain ⟨⟨⟨⟨⟨⟨hx, hu⟩, hlist⟩, hact⟩, hst⟩, hfd⟩, hev⟩ := hp
  have hwatched : s.rt.Watched := ⟨(Sys.ok_of_reach (fun _ _ hc => hc) hs).rest.inv, hx⟩
  have hreport : s.rt.EpollReport (fun fd => if fd = 5 then 17 else 0)
      [{ fd := 5, bits := 17 }] := .one hact (by decide) (by decide)
  have hval : s.rt.readyFor (fun fd => if fd = 5 then 17 else 0) 2 = 1 := by
    simp [Rt.readyFor, hfd, hev, revents2FdEvents, pollIn, pollHup, pollErr, pollOut, fdRead, fdWrite]
  have hagree := (poll_and_epoll_agree hwatched hreport).mpr (fun w hw => hu w hw.1) s.rt.tape
  have hdone := (hagree 2 (by simp [hlist])).1 ⟨hst, by simp [hval]⟩
  rw [hval] at hdone
  exact ⟨s.rt, hwatched, hlist, hdone.1, hdone.2.1⟩

/-- A task waits at a descriptor, and there was no memory for the generation entry. -/
def unlistedTrace : List Act := List.flatten
  [[.osOpen (.ext 0) 5 0], invoke (.ext 0) (.go true 0 false), invoke (.ext 0) (.run 1 true) 2,
    works 0 3, [.api (.task 0 0) (.fdWait 5 1 1000),
      .cont (.task 0 0) { tape := [true, false] }]]

/-- The descriptor that is reported as readable is open and has never been closed. -/
theorem poll_and_epoll_report_closed : ∃ s, machine.Reach Sys.Contract s ∧ s.rt.Watched ∧
    s.rt.EpollReport (fun fd => if fd = 5 then 1 else 0) [{ fd := 5, bits := 1 }] ∧
    s.rt.Reported (fun fd => if fd = 5 then 1 else 0) 1 ∧ (s.rt.fdw 1).task = 0 ∧
    ((s.rt.pollPass fun fd => if fd = 5 then 1 else 0).task 0).fdResult = .closed ∧
    (([{ fd := 5, bits := 1 }].foldl Rt.epollBackendDispatch s.rt).task 0).fdResult = .closed ∧
    ¬s.rt.Agrees (fun fd => if fd = 5 then 1 else 0) [{ fd := 5, bits := 1 }] := by
  obtain ⟨s, hs, hp⟩ := reach_of_promised .poll unlistedTrace (fun s =>
      s.rt.Exclusive && s.rt.fdWaiters == [1] && s.rt.fdActiveEventsForFd 5 0 == 1 &&
        (s.rt.fdw 1).state == .active && s.rt.readyFor (fun fd => if fd = 5 then 1 else 0) 1 != 0 &&
        (s.rt.fdw 1).task == 0 &&
        ((s.rt.pollPass fun fd => if fd = 5 then 1 else 0).task 0).fdResult == .closed &&
        (([{ fd := 5, bits := 1 }].foldl Rt.epollBackendDispatch s.rt).task 0).fdResult == .closed)
    (by decide +kernel)
  simp only [Bool.and_eq_true, decide_eq_true_eq, beq_iff_eq, bne_iff_ne] at hp
  obtain ⟨⟨⟨⟨⟨⟨⟨hx, hlist⟩, hact⟩, hst⟩, hval⟩, htask⟩, hpoll⟩, hepoll⟩ := hp
  have hwatched : s.rt.Watched := ⟨(Sys.ok_of_reach (fun _ _ hc => hc) hs).rest.inv, hx⟩
  have hrep : s.rt.Reported (fun fd => if fd = 5 then 1 else 0) 1 := ⟨by simp [hlist], hst, hval⟩
  refine ⟨s, hs, hwatched, .one hact (by decide) (by decide), hrep, htask, hpoll, hepoll, ?_⟩
  intro hagree
  have hdone := ((hagree 1 hrep.1).1 hrep.2).1.result
  rw [htask, hpoll] at hdone
  cases hdone

end Microthread
