import Microthread.System.Trace
import Microthread.System.Watch
import Microthread.Properties.Filters

/-!
# The interest set of the kernel

The epoll backend tells the kernel about the active waiters only: what the kernel watches
for at a descriptor is the union of what they wait for. A registration that has to be taken
back therefore leaves the interest set as it was, also where another task waits at the same
descriptor, and an `mt_fd_wait` that does not park leaves no trace but a generation entry.
-/

namespace Microthread

open Foundation Rt

namespace Rt

variable {s s' : Rt} {t : TaskId} {w : FdWaiterId}

/-! ## What the active waiters wait for -/

/-- The share of one waiter in the events of the active waiters of `fd`. -/
def share (s : Rt) (fd : Nat) (w : FdWaiterId) : Nat :=
  if s.fdWaiterIsActive w && (s.fdw w).fd == fd then (s.fdw w).events else 0

theorem activeEvents_step (s : Rt) (fd n : Nat) (w : FdWaiterId) :
    (if s.fdWaiterIsActive w && (s.fdw w).fd == fd then n ||| (s.fdw w).events else n) =
      n ||| s.share fd w := by
  unfold share
  split
  · rfl
  · rw [Nat.or_zero]

theorem fdActiveEventsForFd_foldl (s : Rt) (fd n : Nat) :
    s.fdActiveEventsForFd fd n = s.fdWaiters.foldl (fun n w => n ||| s.share fd w) n := by
  unfold fdActiveEventsForFd
  simp only [activeEvents_step]

theorem foldl_share (s : Rt) (fd n : Nat) (ws : List FdWaiterId) :
    ws.foldl (fun n w => n ||| s.share fd w) n =
      n ||| ws.foldl (fun n w => n ||| s.share fd w) 0 := by
  induction ws generalizing n with
  | nil => simp
  | cons w ws ih =>
      simp only [List.foldl_cons, Nat.zero_or]
      rw [ih (n ||| s.share fd w), ih (s.share fd w), Nat.or_assoc]

/-- A waiter is linked. -/
theorem activeEvents_link {w : FdWaiterId} (hl : s'.fdWaiters = w :: s.fdWaiters)
    (hr : ∀ v ∈ s.fdWaiters, s'.fdw v = s.fdw v) (fd : Nat) :
    s'.fdActiveEventsForFd fd 0 = s'.share fd w ||| s.fdActiveEventsForFd fd 0 := by
  have hshare : ∀ n, s.fdWaiters.foldl (fun n v => n ||| s'.share fd v) n =
      s.fdWaiters.foldl (fun n v => n ||| s.share fd v) n := fun n => by
    refine List.foldl_ext _ _ _ fun m v hv => ?_
    rw [share, share, fdWaiterIsActive, fdWaiterIsActive, hr v hv]
  rw [fdActiveEventsForFd_foldl, fdActiveEventsForFd_foldl, hl, List.foldl_cons, Nat.zero_or,
    foldl_share, hshare]

/-- A waiter without a share is unlinked. -/
theorem activeEvents_erase (s : Rt) (fd : Nat) {w : FdWaiterId} (hw : s.share fd w = 0) :
    { s with fdWaiters := s.fdWaiters.erase w }.fdActiveEventsForFd fd 0 =
      s.fdActiveEventsForFd fd 0 := by
  have key : ∀ ws : List FdWaiterId, (ws.erase w).foldl (fun n v => n ||| s.share fd v) 0 =
      ws.foldl (fun n v => n ||| s.share fd v) 0 := fun ws => by
    induction ws with
    | nil => rfl
    | cons v ws ih =>
        by_cases hv : v = w
        · subst hv
          simp [hw]
        · rw [List.erase_cons_tail (by simpa using hv), List.foldl_cons, List.foldl_cons,
            foldl_share, ih, ← foldl_share]
  rw [fdActiveEventsForFd_foldl, fdActiveEventsForFd_foldl]
  exact key s.fdWaiters

/-- A waiter at another descriptor has no share. -/
theorem activeEvents_update (s : Rt) (fd : Nat) {w : FdWaiterId} {x : FdWaiter}
    (hfd : (s.fdw w).fd ≠ fd) (hx : x.fd ≠ fd) :
    { s with fdw := Function.update s.fdw w x }.fdActiveEventsForFd fd 0 =
      s.fdActiveEventsForFd fd 0 := by
  have hshare : { s with fdw := Function.update s.fdw w x }.share fd = s.share fd := by
    funext v
    by_cases hv : v = w
    · subst hv
      simp [share, hfd, hx]
    · simp [share, fdWaiterIsActive, hv]
  rw [fdActiveEventsForFd_foldl, fdActiveEventsForFd_foldl, hshare]

theorem FdSame.activeEvents (h : FdSame s s') (fd : Nat) :
    s'.fdActiveEventsForFd fd 0 = s.fdActiveEventsForFd fd 0 :=
  fdActiveEventsForFd_congr h.list h.record fd 0

/-! ## The kernel watches no more than that -/

/-- What the kernel watches for at a descriptor is what the active waiters wait for. -/
def Mirrored (s : Rt) : Prop := ∀ fd mask, s.interest fd = some mask → s.ioBackendKind = .epoll ∧
  s.fdActiveEventsForFd fd 0 ≠ 0 ∧ mask = epollEventsFromFdEvents (s.fdActiveEventsForFd fd 0)

theorem Mirrored.of_same (h : s.Mirrored) (hs : FdSame s s') : s'.Mirrored := by
  intro fd mask hm
  rw [hs.interest] at hm
  rw [hs.kind, hs.activeEvents]
  exact h fd mask hm

theorem Mirrored.of_none (h : s'.interest = fun _ => none) : s'.Mirrored := by
  intro fd mask hm
  simp [h] at hm

/-- The kernel is told what is left to watch for at `fd`. -/
theorem Mirrored.after (h : s.Mirrored) (fd : Nat) (hk : s'.ioBackendKind = s.ioBackendKind)
    (hi : s'.interest = s.interestAfter fd (s'.fdActiveEventsForFd fd 0))
    (hother : ∀ fd', fd' ≠ fd → s'.fdActiveEventsForFd fd' 0 = s.fdActiveEventsForFd fd' 0) :
    s'.Mirrored := by
  intro fd' mask hm
  rw [hi, interestAfter] at hm
  by_cases hne : fd' = fd
  · subst hne
    split at hm
    · next hcond =>
        rw [Function.update_self] at hm
        split at hm
        · next hrem =>
            cases hm
            exact ⟨hk.trans hcond.1, hrem, rfl⟩
        · cases hm
    · next hcond =>
        have hepoll := (h fd' mask hm).1
        exact absurd ⟨hepoll, by simp [hm]⟩ hcond
  · rw [hk, hother fd' hne]
    refine h fd' mask ?_
    split at hm
    · rwa [Function.update_of_ne hne] at hm
    · exact hm

theorem Mirrored.reserve (h : s.Mirrored) (w : FdWaiterId) : (s.reserve w).Mirrored := by
  refine h.after (s.fdw w).fd rfl rfl fun fd hne => ?_
  exact activeEvents_update s fd (Ne.symm hne) (Ne.symm hne)

theorem Mirrored.unlink (h : s.Mirrored) {w : FdWaiterId} (hw : (s.fdw w).state ≠ .active) :
    { s with fdWaiters := s.fdWaiters.erase w }.Mirrored := by
  intro fd mask hm
  rw [activeEvents_erase s fd (by simp [share, fdWaiterIsActive, hw])]
  exact h fd mask hm

theorem Mirrored.drift (h : s.Mirrored) (hd : Drift s s') : s'.Mirrored := by
  cases hd with
  | same hs => exact h.of_same hs
  | insert g => exact h
  | wake w => exact h.reserve w
  | unlink w hw => exact h.unlink hw

theorem Mirrored.drifts (h : s.Mirrored) (hd : Drifts s s') : s'.Mirrored := by
  induction hd with
  | refl => exact h
  | tail _ hd ih => exact ih.drift hd

theorem Mirrored.forget (h : s.Mirrored) (fd : Nat) :
    (s.kernelForgets fd).Mirrored := by
  intro fd' mask hm
  have hm : Function.update s.interest fd none fd' = some mask := hm
  by_cases hne : fd' = fd
  · subst hne
    simp at hm
  · rw [Function.update_of_ne hne] at hm
    exact h fd' mask hm

/-- A registration that the kernel has accepted and that is taken back leaves no trace. -/
theorem Mirrored.undone (h : s.Mirrored) {fd : Nat} (hw : s.Watchable fd) (events : Nat) :
    s.interestUndone fd events = s.interest := by
  unfold interestUndone interestAfter interestWith
  by_cases hk : s.ioBackendKind = .epoll
  · simp only [hk, if_true, true_and, Function.update_self, Option.isSome_some, Function.update_idem]
    cases hi : s.interest fd with
    | none =>
        have hzero : s.fdActiveEventsForFd fd 0 = 0 := by
          by_contra hne
          have := (hw hk).mpr hne
          simp [hi] at this
        simp [hzero, ← hi]
    | some mask =>
        obtain ⟨-, hne, hmask⟩ := h fd mask hi
        simp [hne, ← hmask, ← hi]
  · simp [hk]

/-- A waiter that is registered with the kernel is linked. -/
theorem Mirrored.link (h : s.Mirrored) {w : FdWaiterId} {x : FdWaiter}
    (hk : s'.ioBackendKind = s.ioBackendKind) (hi : s'.interest = s.interestWith x.fd x.events)
    (hl : s'.fdWaiters = w :: s.fdWaiters) (hr : ∀ v ∈ s.fdWaiters, s'.fdw v = s.fdw v)
    (hx : s'.fdw w = x) (ha : x.state = .active) (hev : x.events ≠ 0) : s'.Mirrored := by
  intro fd mask hm
  rw [hk, activeEvents_link hl hr fd]
  rw [hi, interestWith] at hm
  by_cases hne : fd = x.fd
  · subst hne
    have hshare : s'.share x.fd w = x.events := by simp [share, fdWaiterIsActive, hx, ha]
    rw [hshare]
    split at hm
    · next hepoll =>
        rw [Function.update_self] at hm
        cases hm
        refine ⟨hepoll, fun hz => hev ?_, by rw [Nat.or_comm]⟩
        exact (Nat.or_eq_zero_iff.mp hz).1
    · next hepoll => exact absurd (h _ mask hm).1 hepoll
  · have hshare : s'.share fd w = 0 := by simp [share, hx, Ne.symm hne]
    rw [hshare, Nat.zero_or]
    refine h fd mask ?_
    split at hm
    · rwa [Function.update_of_ne hne] at hm
    · exact hm

theorem Mirrored.parked (h : s.Mirrored) {inst : Option Nat} {fd events : Nat}
    (hfresh : s.nextAddr ∉ s.fdWaiters) (hev : events ≠ 0)
    (hw : FdWaits s t fd events inst .park s') : s'.Mirrored := by
  cases hw with
  | parked gen gens tape timers wakeNs _ _ _ _ _ =>
      refine h.link (w := s.nextAddr)
        (x := { waiterFor t fd events gen inst with task := t, state := .active }) rfl rfl rfl
        (fun v hv => ?_) (Function.update_self ..) rfl hev
      exact Function.update_of_ne (ne_of_mem_of_not_mem hv hfresh) _ _

/-- A wait that does not begin leaves the descriptor part alone, the generation of its
descriptor aside. -/
theorem Mirrored.refused (h : s.Mirrored) {inst : Option Nat} {fd events : Nat} {rc : Rc}
    (hw : FdWaits s t fd events inst (.ret rc) s') :
    s'.interest = s.interest ∧ s'.fdWaiters = s.fdWaiters ∧
      s'.ioBackendKind = s.ioBackendKind ∧ (s.nextAddr ∉ s.fdWaiters →
        ∀ v ∈ s.fdWaiters, s'.fdw v = s.fdw v) := by
  cases hw with
  | answered => exact ⟨rfl, rfl, rfl, fun _ _ _ => rfl⟩
  | refused _ gen gens interest filters tape _ hcur hi =>
      refine ⟨?_, rfl, rfl, fun hfresh v hv => ?_⟩
      · rcases hi with hi | ⟨hi, hwatch⟩
        · exact hi
        · exact hi.trans (h.undone hwatch events)
      · exact Function.update_of_ne (ne_of_mem_of_not_mem hv hfresh) _ _

theorem Mirrored.regen (h : s.Mirrored) (hr : Regen s s') : s'.Mirrored := by
  obtain ⟨gens, tape, rfl⟩ := hr
  exact h

theorem Mirrored.op {does : Op → Prop} (h : s.Mirrored) (hinv : s.Inv) (ho : FdOp does s s') :
    s'.Mirrored := by
  cases ho with
  | tape tape => exact h
  | adopt fd flags => exact h.regen (s.fdAdopt_regen fd flags)
  | release fd => exact h.regen (s.fdRelease_regen fd)
  | close fd =>
      obtain ⟨a, hr, hm⟩ := hinv.fdCloseBegin fd
      exact (h.regen hr).drifts (FdShifts.drifts hm)
  | unmark fd => exact h.regen (s.fdCloseEnd_regen fd)
  | forget fd => exact h.forget fd

theorem valid_ne_zero {events : Nat} (h : fdValidateEvents events = true) : events ≠ 0 := by
  rintro rfl
  simp [fdValidateEvents] at h

end Rt

namespace Sys

variable {s : Sys}

theorem Pc.waitsFor_ne_zero {p : Pc} {fd events : Nat} (h : p.waitsFor = some (fd, events)) :
    events ≠ 0 := by
  unfold Pc.waitsFor at h
  split at h
  · split at h
    · next hv =>
        cases h
        exact valid_ne_zero hv
    · cases h
  · next op =>
      cases h
      unfold IoOp.events fdRead fdWrite
      split <;> decide
  · cases h

/-- In every reachable state the kernel watches for nothing that no active waiter waits for. -/
theorem mirrored_of_reach (h : machine.Reach Contract s) : s.rt.Mirrored := by
  refine watch_invariant (C := fun _ _ => True) (fun r r' hs hm => hm.of_same hs)
    (fun r _ _ hi => .of_none hi) (fun _ _ _ _ _ _ => trivial) (fun s act r hok _ hm hw => ?_)
    (h.mono fun _ _ hc => ⟨hc, trivial⟩)
  have hfresh := hok.rest.inv.fd_fresh
  cases hw with
  | drifts hd _ => exact hm.drifts hd
  | op a env _ ho hs _ => exact (hm.op hok.rest.inv ho).of_same hs
  | refuse w t env fd events inst rc _ _ _ hw hs =>
      obtain ⟨hi, hl, hk, hr⟩ := hm.refused hw
      refine Mirrored.of_same (s := _) (fun fd mask hmask => ?_) hs
      rw [hk, fdActiveEventsForFd_congr hl (hr hfresh)]
      exact hm fd mask (hi ▸ hmask)
  | park w t env fd events inst _ _ _ hp hw hs =>
      exact (hm.parked hfresh (Pc.waitsFor_ne_zero hp) hw).of_same hs
  | osClose a fd _ hs => exact (hm.forget fd).of_same hs
  | reset _ _ hi => exact .of_none hi

end Sys

/-- The agent is about to enter `mt_fd_wait` for `events` at `fd`, called by the user or by a
read, a write or an accept. -/
def Pc.AtFdWait (fd events : Nat) : Pc → Prop
  | .called _ (.fdWait fd' events' _) => fd' = fd ∧ events' = events
  | .ioWait _ op => op.fd = fd ∧ op.events = events
  | _ => False

/-- The timeout with which `mt_fd_wait` is entered, where its event mask is valid. -/
def Pc.fdTimeout (env : Env) : Pc → Option Nat
  | .called _ (.fdWait _ events timeoutMs) =>
    if fdValidateEvents events then some timeoutMs else none
  | .ioWait _ op => some (timeoutLeftMs op.deadlineNs env.nowNs)
  | _ => none

namespace Rt

/-- Nothing is left of a wait at `fd` that did not begin, its generation entry aside. -/
structure FdRolledBack (fd : Nat) (s s' : Rt) : Prop where
  fdWaiters : s'.fdWaiters = s.fdWaiters
  record : ∀ w ∈ s.fdWaiters, s'.fdw w = s.fdw w
  fdWaitingCount : s'.fdWaitingCount = s.fdWaitingCount
  timers : s'.timers = s.timers
  runq : s'.runq = s.runq
  interest : s'.interest = s.interest
  allTasks : s'.allTasks = s.allTasks
  task : ∀ t, (s'.task t).state = (s.task t).state ∧ (s'.task t).fdWaiter = (s.task t).fdWaiter
  generations : s'.fdGenerations = s.fdGenerations ∨
    s.fdGenerationFind fd = none ∧ ∃ g, g.fd = fd ∧ s'.fdGenerations = g :: s.fdGenerations

variable {s s' : Rt} {t : TaskId} {fd events : Nat}

theorem FdRolledBack.same (s : Rt) (tape : List Bool) (log : List Event) :
    FdRolledBack fd s { s with tape := tape, log := log } :=
  ⟨rfl, fun _ _ => rfl, rfl, rfl, rfl, rfl, rfl, fun _ => ⟨rfl, rfl⟩, .inl rfl⟩

theorem FdWaits.rolledBack {inst : Option Nat} {rc : Rc}
    (hw : FdWaits s t fd events inst (.ret rc) s') (h : s.Inv) (hm : s.Mirrored)
    (log : List Event) : FdRolledBack fd s { s' with log := log } := by
  obtain ⟨hi, hl, -, hr⟩ := hm.refused hw
  cases hw with
  | answered _ tape => exact .same s tape log
  | refused _ gen gens interest filters tape _ hcur _ =>
      refine ⟨hl, hr h.fd_fresh, rfl, rfl, rfl, hi, rfl, fun u => ?_, ?_⟩
      · by_cases hu : u = t
        · subst hu
          simp [Rt.wasteFd, Rt.waste, touchFd, modTask]
        · simp [Rt.wasteFd, Rt.waste, touchFd, modTask, hu]
      · cases hcur with
        | found g => exact .inl rfl
        | failed => exact .inl rfl
        | entered hnone => exact .inr ⟨hnone, _, rfl, rfl⟩

end Rt

namespace Sys

variable {s s' : Sys} {a : Actor} {fd events : Nat}

theorem Pc.AtFdWait.cases {p : Pc} (hp : p.AtFdWait fd events) :
    (∃ c ms, p = .called c (.fdWait fd events ms)) ∨
      ∃ c op, p = .ioWait c op ∧ op.fd = fd ∧ op.events = events := by
  unfold Pc.AtFdWait at hp
  split at hp
  · obtain ⟨rfl, rfl⟩ := hp
    exact .inl ⟨_, _, rfl⟩
  · exact .inr ⟨_, _, rfl, hp⟩
  · cases hp

/-- The descriptor of the wait is the one of the call. -/
theorem Pc.AtFdWait.fd_eq {p : Pc} {fd' events' : Nat} (hp : p.AtFdWait fd events)
    (hw : p.waitsFor = some (fd', events')) : fd' = fd := by
  rcases Pc.AtFdWait.cases hp with ⟨c, ms, rfl⟩ | ⟨c, op, rfl, rfl, rfl⟩
  · simp only [Pc.waitsFor] at hw
    split at hw
    · cases hw
      rfl
    · cases hw
  · cases hw
    rfl

/-- The section of `mt_fd_wait` that does not park. -/
theorem Section.fdRolledBack {g : Agent} {p : Pc} {c : CallId} {r r' : Rt}
    {o : Option (Role × Rc)} (hs : Section (Pc.Does g p) c r o r') (hp : p.AtFdWait fd events)
    (h : r.Inv) (hm : r.Mirrored) (log : List Event) :
    FdRolledBack fd r { r' with log := log } := by
  have key : ∀ q, Pc.Does g p q → (∃ t, q = .unpark t) ∨ q = .fd ∨
      ∃ fd' events', q = .fdWait fd' events' := fun q hd => by
    rcases Pc.AtFdWait.cases hp with ⟨c, ms, rfl⟩ | ⟨c, op, rfl, -, -⟩
    all_goals
      cases q with
      | send kind ch value => cases kind <;> simp [Pc.Does] at hd
      | _ => simp [Pc.Does] at hd ⊢
  cases hs with
  | idle o tape => exact .same r tape log
  | fd o _ _ ho =>
      cases ho with
      | tape tape => exact .same r tape log
      | adopt fd' flags hd => simpa using key _ hd
      | release fd' hd => simpa using key _ hd
      | close fd' hd => simpa using key _ hd
      | unmark fd' hd => simpa using key _ hd
      | forget fd' hd => simpa using key _ hd
  | release x rc hd => simpa using key _ hd
  | go rc hd => simpa using key _ hd
  | chanCreate rc hd => simpa using key _ hd
  | cancel x hd => simpa using key _ hd
  | send kind ch value rc hd => simpa using key _ hd
  | sendNot => exact .same r r.tape log
  | recv ch out rc hd => simpa using key _ hd
  | recvNot => exact .same r r.tape log
  | close ch rc hd => simpa using key _ hd
  | destroy ch rc hd => simpa using key _ hd
  | unselect t rc _ _ _ hd => simpa using key _ hd
  | unwait t rc x _ _ _ _ hw =>
      obtain ⟨fd', events', inst, rc₀, hwaits, hw⟩ := hw
      obtain rfl := Pc.AtFdWait.fd_eq hp hwaits
      exact hw.rolledBack h hm log

theorem Case.fdRolledBack {env : Env} (hc : Case s (.cont a env) s') (h : s.Ok)
    (hm : s.rt.Mirrored) (hpc : (s.pc a.agent).AtFdWait fd events)
    (hret : (s'.pc a.agent).parked = false) : FdRolledBack fd s.rt s'.rt := by
  cases hc with
  | acts a env c o p es os sel hen hcall hp hr _ hs hon =>
      exact Section.fdRolledBack hs hpc h.rest.inv hm _
  | parks w t env c p hw hl hcall hnp hp hm =>
      have hparked : p.parked = false := by simpa [Sys.setPc, Sys.setWorker, Actor.agent] using hret
      cases hp with
      | send | recv | select | join | sleep | yield | fd => cases hparked
  | resumesFd w t env c v use o p es hw hq => exact absurd hpc (by simp [Actor.agent, hq, Pc.AtFdWait])
  | returns w t env c rc sel hw hq =>
      cases hq' : s.pc (.task t) with
      | called c call => rw [hq'] at hq; cases hq
      | ioWait c op => rw [hq'] at hq; cases hq
      | _ => exact absurd hpc (by simp [Actor.agent, hq', Pc.AtFdWait])
  | goesOn w t env hw hq => exact absurd hpc (by simp [Actor.agent, hq, Pc.AtFdWait])
  | runBegins n env c k _ hq => exact absurd hpc (by simp [Actor.agent, hq, Pc.AtFdWait])
  | runPrepares n env c k tape hq => exact absurd hpc (by simp [Actor.agent, hq, Pc.AtFdWait])
  | runFails n env c k tape hq => exact absurd hpc (by simp [Actor.agent, hq, Pc.AtFdWait])
  | spawns n env c k j hq => exact absurd hpc (by simp [Actor.agent, hq, Pc.AtFdWait])
  | launches n env c hq =>
      rcases hq with ⟨k, hq⟩ | ⟨k, j, hq, -⟩ <;>
        exact absurd hpc (by simp [Actor.agent, hq, Pc.AtFdWait])
  | aborts n env c k j hq => exact absurd hpc (by simp [Actor.agent, hq, Pc.AtFdWait])
  | runEnds n env c hq => exact absurd hpc (by simp [Actor.agent, hq, Pc.AtFdWait])
  | abortEnds n env c hq => exact absurd hpc (by simp [Actor.agent, hq, Pc.AtFdWait])
  | halts n env c hq => exact absurd hpc (by simp [Actor.agent, hq, Pc.AtFdWait])
  | shutsDown n env c hq => exact absurd hpc (by simp [Actor.agent, hq, Pc.AtFdWait])
  | descriptors os interest filters hact => simp at hact
  | loops w q lock hact => simp at hact

/-- The task enters an `mt_fd_wait` that changes the filters of the kqueue without parking. -/
def Spoils (s : Sys) (env : Env) (fd events : Nat) : Actor → Prop
  | .ext _ => False
  | .task _ t => ∃ timeoutMs, (s.pc (.task t)).fdTimeout env = some timeoutMs ∧
      (s.tick env.tape).rt.Spoils fd events timeoutMs (s.pollAnswer fd env)

theorem Pc.AtFdWait.unparked {p : Pc} (hp : p.AtFdWait fd events) : p.parked = false := by
  rcases Pc.AtFdWait.cases hp with ⟨c, ms, rfl⟩ | ⟨c, op, rfl, -, -⟩ <;> rfl

/-- The section of `mt_fd_wait`: a mask that is not valid is refused before it. -/
theorem fdWait_of_step {env : Env} (hpc : (s.pc a.agent).AtFdWait fd events)
    (hstep : machine.step s (.cont a env) = some s') :
    (∃ timeoutMs c nowNs use, (s.pc a.agent).fdTimeout env = some timeoutMs ∧
      s' = (s.tick env.tape).waitSection a c fd events timeoutMs nowNs use env) ∨
    (s.pc a.agent).fdTimeout env = none ∧
      ∃ c, s' = (s.tick env.tape).ret a c .neither .invalid (s.tick env.tape).rt := by
  rcases Pc.AtFdWait.cases hpc with ⟨c, ms, hq⟩ | ⟨c, op, hq, rfl, rfl⟩
  · have heq := callApi_of_step hq hstep
    simp only [callApi] at heq
    split at heq
    · next hv => exact .inl ⟨ms, c, env.nowNs, .wait, by simp [hq, Pc.fdTimeout, hv], heq⟩
    · next hv => exact .inr ⟨by simp [hq, Pc.fdTimeout, hv], c, heq⟩
  · have hq' : (s.tick env.tape).pc a.agent = .ioWait c op := hq
    simp only [machine, step] at hstep
    split at hstep
    · change (s.tick env.tape).continueCall a env = some s' at hstep
      simp only [continueCall, hq'] at hstep
      split at hstep
      · cases hstep
      · exact .inl ⟨_, c, env.nowNs2, .io op, by simp [hq, Pc.fdTimeout], (Option.some.inj hstep).symm⟩
    · cases hstep

theorem waitReturn_rt (s : Sys) (a : Actor) (c : CallId) (rc : Rc) (rt : Rt) (use : WaitUse) :
    ∃ es, (s.waitReturn a c rc rt use).rt = { rt with log := rt.log ++ es } := by
  unfold waitReturn
  split
  · exact ⟨[.done c .neither rc, .ret c rc], by simp [Sys.ret, Sys.setPc, Rt.record]⟩
  · split
    · exact ⟨[], by simp [Sys.setPc]⟩
    · next op _ =>
        exact ⟨[.done c .neither (op.result rc), .ret c (op.result rc)],
          by simp [Sys.ret, Sys.setPc, Rt.record]⟩

/-- An external thread cannot wait for a descriptor. -/
theorem fdRolledBack_ext {n : Nat} {env : Env} (hpc : (s.pc (.ext n)).AtFdWait fd events)
    (hstep : machine.step s (.cont (.ext n) env) = some s') :
    FdRolledBack fd s.rt s'.rt ∧ s'.rt.filters = s.rt.filters := by
  have hret : ∀ (c : CallId) (use : WaitUse),
      FdRolledBack fd s.rt
        ((s.tick env.tape).waitReturn (.ext n) c .state (s.tick env.tape).rt use).rt ∧
      ((s.tick env.tape).waitReturn (.ext n) c .state (s.tick env.tape).rt use).rt.filters =
        s.rt.filters := fun c use => by
    cases use with
    | wait => exact ⟨.same s.rt env.tape _, rfl⟩
    | io op => exact ⟨.same s.rt env.tape _, rfl⟩
  rcases fdWait_of_step hpc hstep with ⟨ms, c, nowNs, use, -, rfl⟩ | ⟨-, c, rfl⟩
  · exact hret c use
  · exact ⟨.same s.rt env.tape _, rfl⟩

theorem waitSection_returns {w : Nat} {t : TaskId} {env : Env} {c : CallId} {ms nowNs : Nat}
    {use : WaitUse}
    (hret : ((s.waitSection (.task w t) c fd events ms nowNs use env).pc (.task t)).parked = false) :
    (s.rt.fdWait t fd events ms nowNs (s.pollAnswer fd env) (s.os.inst fd)).1 ≠ .park ∧
      (s.waitSection (.task w t) c fd events ms nowNs use env).rt.filters =
        (s.rt.fdWait t fd events ms nowNs (s.pollAnswer fd env) (s.os.inst fd)).2.2.filters := by
  simp only [waitSection] at hret ⊢
  generalize s.rt.fdWait t fd events ms nowNs (s.pollAnswer fd env) (s.os.inst fd) = r at hret
  obtain ⟨rc | _, ready, rt⟩ := r
  · obtain ⟨es, hrt⟩ := s.waitReturn_rt (.task w t) c rc rt use
    exact ⟨by simp, by simp only [hrt]⟩
  · simp [Sys.switch, Sys.setPc, Sys.setWorker, Pc.parked] at hret

/-- What a wait that does not park leaves of the filters. -/
theorem filters_of_step {w : Nat} {t : TaskId} {env : Env} (h : s.Ok)
    (hpc : (s.pc (.task t)).AtFdWait fd events)
    (hstep : machine.step s (.cont (.task w t) env) = some s')
    (hret : (s'.pc (.task t)).parked = false) :
    s'.rt.filters = s.rt.filters ↔ ¬s.Spoils env fd events (.task w t) := by
  have hfd := h.fdWaiter_eq_none (h.runs_of_enabled (enabled_of_step hstep))
    (Pc.AtFdWait.unparked hpc)
  rcases fdWait_of_step hpc hstep with ⟨ms, c, nowNs, use, hms, rfl⟩ | ⟨hms, c, rfl⟩
  · have hspoils : s.Spoils env fd events (.task w t) ↔
        (s.tick env.tape).rt.Spoils fd events ms (s.pollAnswer fd env) :=
      ⟨fun ⟨ms', hms', hs⟩ => by
        cases hms.symm.trans hms'
        exact hs, fun hs => ⟨ms, hms, hs⟩⟩
    obtain ⟨hreturns, hfilters⟩ := waitSection_returns hret
    rw [hspoils, hfilters]
    exact (h.tick env.tape).rest.inv.fdWait_filters hfd ms nowNs _ _ hreturns
  · refine iff_of_true rfl fun ⟨ms, hms', _⟩ => ?_
    exact absurd (hms.symm.trans hms') (by simp)

end Sys

/-- `mt_fd_wait` rolls back when it does not park, whatever made it return: the waiter list,
the waiting count, the timer heap, the run queue, the interest set of epoll and the states and
waiters of all tasks are those of before the call; only the generation table may have gained
an entry for the descriptor. The filters of a kqueue are those of before as well, unless the
registration has failed halfway or has met a filter that nobody waits for. -/
theorem fd_wait_rolls_back {s s' : Sys} {a : Actor} {fd events : Nat} {env : Env}
    (h : machine.Reach Sys.Contract s) (hpc : (s.pc a.agent).AtFdWait fd events)
    (hstep : machine.step s (.cont a env) = some s') (hret : (s'.pc a.agent).parked = false) :
    s.rt.FdRolledBack fd s'.rt ∧
      (s'.rt.filters = s.rt.filters ↔ ¬s.Spoils env fd events a) := by
  have hok := Sys.ok_of_reach (fun _ _ hc => hc) h
  cases a with
  | ext n =>
      obtain ⟨hback, hfilters⟩ := Sys.fdRolledBack_ext hpc hstep
      exact ⟨hback, iff_of_true hfilters (by simp [Sys.Spoils])⟩
  | task w t =>
      refine ⟨?_, Sys.filters_of_step hok hpc hstep hret⟩
      have hc : s.Contract (.cont (.task w t) env) := by
        rcases Sys.Pc.AtFdWait.cases hpc with ⟨c, ms, hq⟩ | ⟨c, op, hq, -, -⟩
        · simp only [Sys.Contract, Sys.SectionOk, hq]
          trivial
        · simp only [Sys.Contract, Sys.SectionOk, hq]
      obtain ⟨s₀, hp, hcase⟩ := hok.step_cases hc hstep
      have hw : s.workers w = .running t := by
        simpa [Sys.enabled] using Sys.enabled_of_step hstep
      obtain ⟨tape, rfl⟩ := hp.tick hok (w := w) (by simp [hw])
      have hm := Sys.mirrored_of_reach h
      obtain ⟨h1, h2, h3, h4, h5, h6, h7, h8, h9⟩ := hcase.fdRolledBack (hok.tick tape) hm hpc hret
      exact ⟨h1, h2, h3, h4, h5, h6, h7, h8, h9⟩

/-- A task has called `mt_fd_wait` for `events`. -/
def waitingTrace (events : Nat) : List Act := List.flatten
  [[.osOpen (.ext 0) 5 0], invoke (.ext 0) (.go true 0 false), invoke (.ext 0) (.run 1 true) 2,
    works 0 3, invoke (.task 0 0) (.fdWait 5 events 100) 0]

/-- The waiter is linked and the kernel watches the descriptor when the heap cannot grow. -/
theorem fd_wait_rolls_back_timer : ∃ s s', machine.Reach Sys.Contract s ∧
    machine.step s (.cont (.task 0 0) { tape := [true, true, true, false] }) = some s' ∧
    s'.rt.log = s.rt.log ++ [.done 2 .neither .nomem, .ret 2 .nomem] ∧
    s.rt.ioBackendKind = .epoll ∧ s.rt.FdRolledBack 5 s'.rt ∧ s'.rt.filters = s.rt.filters := by
  obtain ⟨s, hs, hp⟩ := reach_of_promised .epoll (waitingTrace 1) (fun s =>
      s.pc (.task 0) == .called 2 (.fdWait 5 1 100) && s.rt.ioBackendKind == .epoll &&
        (machine.step s (.cont (.task 0 0) { tape := [true, true, true, false] })).any fun s' =>
          s'.pc (.task 0) == .user &&
            s'.rt.log == s.rt.log ++ [.done 2 .neither .nomem, .ret 2 .nomem])
    (by decide +kernel)
  simp only [Bool.and_eq_true, beq_iff_eq, Option.any_eq_true] at hp
  obtain ⟨⟨hpc, hkind⟩, s', hstep, hpc', hlog⟩ := hp
  have hat : (s.pc (Actor.task 0 0).agent).AtFdWait 5 1 := by simp [Actor.agent, hpc, Pc.AtFdWait]
  obtain ⟨hback, hfilters⟩ :=
    fd_wait_rolls_back hs hat hstep (by simp [Actor.agent, hpc', Pc.parked])
  refine ⟨s, s', hs, hstep, hlog, hkind, hback, hfilters.mpr ?_⟩
  rintro ⟨ms, -, hspoils⟩
  exact absurd (hkind.symm.trans hspoils.kqueue) (by simp)

/-- On the kqueue the kernel takes the filter for reading and refuses the one for writing. The
wait fails, nobody waits for the descriptor, and the first filter stays. -/
theorem registration_stops_halfway : ∃ s s', machine.Reach Sys.Contract s ∧
    s.pc (.task 0) = .called 2 (.fdWait 5 (fdRead ||| fdWrite) 100) ∧
    machine.step s (.cont (.task 0 0) { tape := [true, true, true, false] }) = some s' ∧
    s'.rt.log = s.rt.log ++ [.done 2 .neither .backend, .ret 2 .backend] ∧
    s'.rt.fdWaiters = [] ∧ s.rt.filters 5 fdRead = false ∧ s'.rt.filters 5 fdRead = true := by
  obtain ⟨s, hs, hp⟩ := reach_of_promised .kqueue (waitingTrace (fdRead ||| fdWrite)) (fun s =>
      s.pc (.task 0) == .called 2 (.fdWait 5 (fdRead ||| fdWrite) 100) &&
        s.rt.filters 5 fdRead == false &&
        (machine.step s (.cont (.task 0 0) { tape := [true, true, true, false] })).any fun s' =>
          s'.rt.filters 5 fdRead == true && s'.rt.fdWaiters == [] &&
            s'.rt.log == s.rt.log ++ [.done 2 .neither .backend, .ret 2 .backend])
    (by decide +kernel)
  simp only [Bool.and_eq_true, beq_iff_eq, Option.any_eq_true] at hp
  obtain ⟨⟨hpc, hbefore⟩, s', hstep, ⟨hafter, hnobody⟩, hlog⟩ := hp
  exact ⟨s, s', hs, hpc, hstep, hlog, hnobody, hbefore, hafter⟩

end Microthread
