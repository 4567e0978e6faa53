import Microthread.System.Cases

/-!
# Every step is one of the listed cases

`Sys.Ok.step_cases` is the inversion of the step function: a step taken from a
state that meets the invariant, by a program that keeps its contract, is one of
`Sys.Case`, up to the answers the step brings along (`tick`) and the
initialisation of the runtime on first use (`boot`).
-/

namespace Microthread

open Foundation Rt

namespace Sys

variable {s s' : Sys} {a : Actor} {c : CallId} {e : Env}

/-- The answers of the allocator for one step. -/
def tick (s : Sys) (tape : List Bool) : Sys := { s with rt := { s.rt with tape := tape } }

/-- `mt_init`, which does nothing to an initialised runtime. -/
def boot (s : Sys) : Sys := { s with rt := s.rt.init.2 }

theorem Ok.tick (h : s.Ok) (tape : List Bool) : (s.tick tape).Ok :=
  ⟨h.rest.tape tape, fun hi => ⟨(h.off hi).1.congr rfl, (h.off hi).2⟩, h.runs, h.once, h.lock,
    ⟨h.run.bound, h.run.runner, h.run.single, h.run.alloc, h.run.allocCount, h.run.spawn,
      h.run.task, h.run.exited, h.run.active⟩, h.fits, h.fresh, h.tried, h.triedExt⟩

/-- The invariant does not look at the indices that selects have stored. -/
theorem Ok.reindex (h : s.Ok) (index : CallId → Option Nat) :
    Ok { s with selectedIndex := index } :=
  ⟨h.rest, h.off, h.runs, h.once, h.lock,
    ⟨h.run.bound, h.run.runner, h.run.single, h.run.alloc, h.run.allocCount, h.run.spawn,
      h.run.task, h.run.exited, h.run.active⟩, h.fits, h.fresh, h.tried, h.triedExt⟩

theorem init_of_initialized {r : Rt} (hi : r.initialized = true) : r.init = (.ok, r) := by
  simp [Rt.init, hi]

theorem Ok.workers_off (h : s.Ok) (hr : s.rt.running = false) (w : Nat) : s.workers w = .off := by
  by_contra hne
  have hrun := (h.run.bound w hne).2
  simp [hr] at hrun

/-- The caller is inside call `c` and runs. -/
structure At (s : Sys) (a : Actor) (c : CallId) : Prop where
  enabled : s.enabled a = true
  call : (s.pc a.agent).call? = some c
  parked : (s.pc a.agent).parked = false
  inRun : (s.pc a.agent).inRun = false

theorem enabled_task {w : Nat} {t : TaskId} : s.enabled (.task w t) = true ↔
    s.workers w = .running t := by
  simp [Sys.enabled]

theorem ret_eq (s : Sys) (a : Actor) (c : CallId) (role : Role) (rc : Rc) (rt : Rt) :
    s.ret a c role rc rt = { s with rt := { rt with
      log := rt.log ++ [Event.done c role rc, Event.ret c rc] } }.setPc a.agent .user := by
  simp [Sys.ret, Rt.record]

/-- A section that ends its call. -/
theorem At.ret {role : Role} {rc : Rc} {rt : Rt} (h : s.At a c)
    (hs : Section (Pc.Does a.agent (s.pc a.agent)) c s.rt (some (role, rc)) rt) :
    Case s (.cont a e) (s.ret a c role rc rt) := by
  rw [ret_eq]
  exact .acts a e c _ .user _ s.os _ h.enabled h.call h.parked h.inRun (.inl rfl) hs (.out role rc)
    (.same ..)

/-- A section of a select that ends it with case `i`. -/
theorem At.retSelect {role : Role} {rc : Rc} {rt : Rt} (h : s.At a c)
    (hsel : (s.pc a.agent).selects = true) (i : Nat)
    (hs : Section (Pc.Does a.agent (s.pc a.agent)) c s.rt (some (role, rc)) rt) :
    Case s (.cont a e) ((s.storeIndex c i).ret a c role rc rt) := by
  rw [ret_eq]
  exact .acts a e c _ .user _ s.os _ h.enabled h.call h.parked h.inRun (.inl rfl) hs (.out role rc)
    (.store hsel c i)

/-- A section after which the call goes on at `p`. -/
theorem At.goes {p : Pc} {rt : Rt} (h : s.At a c)
    (hs : Section (Pc.Does a.agent (s.pc a.agent)) c s.rt none rt)
    (hp : p.call? = some c) (hparked : p.parked = false) (hrun : p.inRun = false)
    (htried : rt.Tried p) (hfol : Pc.Follows rt (s.pc a.agent) p) :
    Case s (.cont a e) ({ s with rt := rt }.setPc a.agent p) := by
  have := Case.acts (s := s) a e c none p [] s.os _ h.enabled h.call h.parked h.inRun (.inl rfl) hs
    (.on p hp hparked hrun htried hfol) (.same ..)
  simpa using this

/-- A section that changes nothing and ends its call. -/
theorem At.retIdle {rc : Rc} (h : s.At a c) : Case s (.cont a e) (s.ret a c .neither rc s.rt) :=
  h.ret (.idle _ s.rt.tape (by simp))

theorem At.goesIdle {p : Pc} (h : s.At a c) (hp : p.call? = some c) (hparked : p.parked = false)
    (hrun : p.inRun = false) (htried : p.tried = []) (hfol : Pc.Follows s.rt (s.pc a.agent) p) :
    Case s (.cont a e) (s.setPc a.agent p) :=
  h.goes (.idle _ s.rt.tape (by simp)) hp hparked hrun (by simp [Tried, htried]) hfol

theorem FdOp.refl (does : Op → Prop) (r : Rt) : FdOp does r r := .tape r.tape

/-- A section of a descriptor operation that ends its call. -/
theorem At.retFd {rc : Rc} {rt : Rt} (h : s.At a c) (hfd : (s.pc a.agent).onFd = true)
    (hq : FdOp (Pc.Does a.agent (s.pc a.agent)) s.rt rt) (os : Os) :
    Case s (.cont a e) ({ s with os := os }.ret a c .neither rc rt) := by
  rw [ret_eq]
  exact .acts a e c _ .user _ os _ h.enabled h.call h.parked h.inRun (.inr hfd)
    (.fd _ (by simp) hfd hq) (.out .neither rc) (.same ..)

theorem At.goesFd {p : Pc} {rt : Rt} (h : s.At a c) (hfd : (s.pc a.agent).onFd = true)
    (hq : FdOp (Pc.Does a.agent (s.pc a.agent)) s.rt rt) (hp : p.call? = some c)
    (hparked : p.parked = false) (hrun : p.inRun = false) (htried : p.tried = [])
    (hfol : Pc.Follows rt (s.pc a.agent) p)
    (os : Os) : Case s (.cont a e) ({ s with rt := rt, os := os }.setPc a.agent p) := by
  have := Case.acts (s := s) a e c none p [] os _ h.enabled h.call h.parked h.inRun (.inr hfd)
    (.fd _ (by simp) hfd hq) (.on p hp hparked hrun (by simp [Tried, htried]) hfol) (.same ..)
  simpa using this

theorem Ok.runs_of_enabled (h : s.Ok) {w : Nat} {t : TaskId} (he : s.enabled (.task w t) = true) :
    s.rt.Runs t :=
  (h.runs t).mpr ⟨w, enabled_task.mp he⟩

/-- A running task that is not in `mt_fd_wait` has no descriptor waiter. -/
theorem Ok.fdWaiter_eq_none (h : s.Ok) {t : TaskId} (hr : s.rt.Runs t)
    (hp : (s.pc (.task t)).parked = false) : (s.rt.task t).fdWaiter = none := by
  cases hw : (s.rt.task t).fdWaiter with
  | none => rfl
  | some w =>
      obtain ⟨c, use, hpc⟩ := ((h.fits t hr.1).fdWaiter w).mp hw
      simp [hpc, Pc.parked] at hp

/-! ## Descriptor calls -/

section

variable (h : s.At a c) (hfd : (s.pc a.agent).onFd = true)

include h hfd

theorem At.adoptFailed (fd : Nat) (rc : Rc) {rt : Rt}
    (hq : FdOp (Pc.Does a.agent (s.pc a.agent)) s.rt rt) (use : AdoptUse) :
    Case s (.cont a e) (s.adoptFailed a c fd rc rt use) := by
  cases use with
  | adopt => exact h.retFd hfd hq s.os
  | io op => exact h.retFd hfd hq s.os
  | accepted => exact h.goesFd hfd hq rfl rfl rfl rfl (by exact fun _ => hfd) s.os

theorem At.adoptFcntl (fd : Nat) (use : AdoptUse) (env : Env) :
    Case s (.cont a e) (s.adoptFcntl a c fd use env) := by
  unfold Sys.adoptFcntl
  split
  · exact h.adoptFailed hfd fd .invalid (FdOp.refl _ _) use
  · split
    · exact h.goesFd hfd (FdOp.refl _ _) rfl rfl rfl rfl (by exact fun _ => hfd) _
    · exact h.adoptFailed hfd fd .io (FdOp.refl _ _) use

theorem At.adoptSection {fd flags : Nat} {use : AdoptUse} (env : Env)
    (hpc : s.pc a.agent = .fdAdopting c fd flags use) :
    Case s (.cont a e) (s.adoptSection a c fd flags use env) := by
  have hq : FdOp (Pc.Does a.agent (s.pc a.agent)) s.rt (s.rt.fdAdopt fd flags).2 :=
    .adopt fd flags ⟨c, use, hpc⟩
  unfold Sys.adoptSection
  split
  · next rt heq =>
      rw [heq] at hq
      cases use with
      | adopt => exact h.retFd hfd hq _
      | accepted => exact h.retFd hfd hq _
      | io op => exact h.goesFd hfd hq rfl rfl rfl rfl (by exact fun _ => hfd) _
  · next rc rt _ heq =>
      rw [heq] at hq
      exact h.adoptFailed hfd fd rc hq use

theorem At.releaseSection {fd : Nat} (hpc : s.pc a.agent = .called c (.fdRelease fd)) :
    Case s (.cont a e) (s.releaseSection a c fd) := by
  have hq : FdOp (Pc.Does a.agent (s.pc a.agent)) s.rt (s.rt.fdRelease fd).2.2 :=
    .release fd ⟨c, hpc⟩
  unfold Sys.releaseSection
  split
  · next flags rt heq =>
      rw [heq] at hq
      exact h.goesFd hfd hq rfl rfl rfl rfl (by exact fun _ => hfd) s.os
  · next n rt heq =>
      rw [heq] at hq
      exact h.retFd hfd hq _
  · next rc n rt _ _ heq =>
      rw [heq] at hq
      exact h.retFd hfd hq s.os

theorem At.releaseFcntl (fd flags : Nat) (env : Env) :
    Case s (.cont a e) (s.releaseFcntl a c fd flags env) := by
  unfold Sys.releaseFcntl
  split
  · exact h.retIdle
  · split
    · exact h.retFd hfd (FdOp.refl _ _) _
    · exact h.retIdle

/-- The result of an `mt_fd_wait` goes to its caller. -/
theorem At.waitReturn {rc : Rc} {rt : Rt} (use : WaitUse)
    (hret : ∀ rc', Section (Pc.Does a.agent (s.pc a.agent)) c s.rt (some (.neither, rc')) rt)
    (hon : rc = .ok → FdOp (Pc.Does a.agent (s.pc a.agent)) s.rt rt) :
    Case s (.cont a e) (s.waitReturn a c rc rt use) := by
  cases use with
  | wait => exact h.ret (hret rc)
  | io op =>
      unfold Sys.waitReturn
      simp only
      split
      · next hrc => exact h.goesFd hfd (hon hrc) rfl rfl rfl rfl (by exact fun _ => hfd) s.os
      · exact h.ret (hret _)

theorem At.ioStep (op : IoOp) (env : Env) (hs : s.ioStep a c op env = some s') :
    Case s (.cont a e) s' := by
  unfold Sys.ioStep at hs
  split at hs
  · cases hs
    exact h.goesIdle rfl rfl rfl rfl (by exact fun _ => hfd)
  · cases hs
    exact h.retIdle
  · cases hs
    exact h.retIdle
  · split at hs
    · cases hs
      exact h.goesIdle rfl rfl rfl rfl (by exact fun _ => hfd)
    · cases hs
      exact h.retIdle
  · split at hs
    · cases hs
    · cases hs
      exact h.goesFd hfd (FdOp.refl _ _) rfl rfl rfl rfl (by exact fun _ => hfd) _

theorem At.closeStep {fd : Nat} {inst : Option Nat} (env : Env)
    (hpc : s.pc a.agent = .fdClosing c fd inst) :
    Case s (.cont a e) (s.closeStep a c fd env) := by
  unfold Sys.closeStep
  split
  · exact h.goesIdle rfl rfl rfl rfl (by exact fun _ => hfd)
  · exact h.goesFd hfd (.forget fd (.inl ⟨c, inst, hpc⟩)) rfl rfl rfl rfl (by exact fun _ => hfd)
      (s.os.close fd)

end

/-- The lock is free, and the allocator answers from the tape of the action. -/
structure Clear (s : Sys) (e : Env) : Prop where
  lock : s.lock = none
  tape : s.rt.tape = e.tape

/-- A task that parks, other than by yielding, switches to its scheduler. -/
theorem Ok.switch (h : s.Ok) {w : Nat} {t : TaskId} {p : Pc} {rt : Rt}
    (hat : s.At (.task w t) c) (hl : s.Clear e)
    (hp : Parks t c (s.pc (.task t)) s.rt p rt)
    (hst : (rt.task t).state ≠ .ready) : Case s (.cont (.task w t) e) (s.switch w t rt p) := by
  have hw := enabled_task.mp hat.enabled
  have hr := h.runs_of_enabled hat.enabled
  have hparked := hp.parked h.rest hr
  refine .parks w t e c p hw hl.lock hat.call hat.parked hp ?_ hl.tape
  exact hparked.inv.taskAfterSwitch_parked (hparked.allTasks ▸ hr.1)
    ⟨hst, hparked.state.1, hparked.state.2⟩

theorem Ok.switchYield (h : s.Ok) {w : Nat} {t : TaskId} (hat : s.At (.task w t) c)
    (hl : s.Clear e) :
    Case s (.cont (.task w t) e)
      (s.switch w t (s.rt.modTask t fun k => { k with state := .ready }) .switchPark) := by
  have hr := h.runs_of_enabled hat.enabled
  exact .parks w t e c _ (enabled_task.mp hat.enabled) hl.lock hat.call hat.parked .yield
    (h.rest.inv.taskAfterSwitch_yield hr.1 hr.2) hl.tape

theorem Pc.onFd_of_waitsFor {p : Pc} {fd events : Nat} (hp : p.waitsFor = some (fd, events)) :
    p.onFd = true := by
  unfold Pc.waitsFor at hp
  split at hp
  · rfl
  · rfl
  · cases hp

theorem Ok.waitSection (h : s.Ok) (hat : s.At a c) {fd events : Nat}
    (hwaits : (s.pc a.agent).waitsFor = some (fd, events)) (hl : s.Clear e)
    (timeoutMs nowNs : Nat) (use : WaitUse) (env : Env) :
    Case s (.cont a e) (s.waitSection a c fd events timeoutMs nowNs use env) := by
  have honfd := Pc.onFd_of_waitsFor hwaits
  unfold Sys.waitSection
  cases a with
  | ext n =>
      exact hat.waitReturn honfd use (fun _ => .idle _ s.rt.tape (by simp)) fun _ => FdOp.refl _ _
  | task w t =>
      have hr := h.runs_of_enabled hat.enabled
      have hfd := h.fdWaiter_eq_none hr hat.parked
      have hwait := h.rest.inv.fdWait hfd fd events timeoutMs nowNs (s.pollAnswer fd env)
        (s.os.inst fd)
      simp only
      generalize s.rt.fdWait t fd events timeoutMs nowNs (s.pollAnswer fd env)
        (s.os.inst fd) = r at hwait
      obtain ⟨o, ready, rt⟩ := r
      simp only at hwait
      cases hwait with
      | answered rc tape =>
          exact hat.waitReturn honfd use (fun rc' => .idle _ tape (by simp))
            fun _ => .tape tape
      | refused rc gen gens interest filters tape hrc hcur hi =>
          refine hat.waitReturn honfd use (fun rc' => ?_) fun hok => absurd hok hrc
          exact .unwait t rc' _ rfl honfd hr ⟨gens, _, interest, filters, tape, rfl⟩
            ⟨fd, events, s.os.inst fd, rc, hwaits, .refused rc gen gens interest filters tape hrc hcur hi⟩
      | parked gen gens tape timers wakeNs hcur hopen hconf hperm hwatch =>
          have hpark : Parks t c (s.pc (.task t)) s.rt (.fdPark c s.rt.nextAddr use) _ :=
            .fd timers wakeNs (waiterFor t fd events gen (s.os.inst fd)) use honfd
              ⟨gens, s.rt.ioPolling, s.rt.interestWith fd events, s.rt.filtersWith fd events, tape, rfl⟩
              hfd hperm
              ⟨fd, events, s.os.inst fd, hwaits,
                .parked gen gens tape timers wakeNs hcur hopen hconf hperm hwatch⟩
          simp only [Rt.parkFd, Function.update_self, Option.getD_some]
          exact h.switch hat hl hpark (by simp)

/-! ## First use of the runtime -/

theorem init_running {r : Rt} (hr : r.running = false) : r.init.2.running = false := by
  unfold Rt.init
  split
  · exact hr
  · obtain ⟨ok, tape, hask⟩ := r.reset.ask_eq
    rw [hask]
    cases ok <;> rfl

theorem init_made (r : Rt) : r.init.2.made = r.made := by
  unfold Rt.init
  split
  · rfl
  · obtain ⟨ok, tape, hask⟩ := r.reset.ask_eq
    rw [hask]
    cases ok <;> rfl

theorem init_frees (r : Rt) : r.init.2.frees = r.frees := by
  unfold Rt.init
  split
  · rfl
  · obtain ⟨ok, tape, hask⟩ := r.reset.ask_eq
    rw [hask]
    cases ok <;> rfl

theorem init_activeWorkers {r : Rt} (hi : r.initialized = false) :
    r.init.2.activeWorkers = 0 := by
  unfold Rt.init
  rw [if_neg (by simp [hi])]
  obtain ⟨ok, tape, hask⟩ := r.reset.ask_eq
  rw [hask]
  cases ok <;> rfl

theorem Ok.boot (h : s.Ok) : s.boot.Ok := by
  cases hi : s.rt.initialized with
  | true =>
      have heq : s.boot = s := by simp [Sys.boot, init_of_initialized hi]
      rwa [heq]
  | false =>
      obtain ⟨hoff, hrun⟩ := h.off hi
      have hoff' : s.boot.rt.Off := hoff.init
      have hrun' : s.boot.rt.running = false := init_running hrun
      have hw := h.workers_off hrun
      have hnorun : ∀ a, (s.pc a).inRun = false := fun a => by
        cases hin : (s.pc a).inRun with
        | false => rfl
        | true =>
            have hon := h.run.runner a hin
            simp [hrun] at hon
      refine ⟨hoff'.rest, fun _ => ⟨hoff', hrun'⟩, fun t => ?_, h.once, h.lock, ?_, ?_, ?_, ?_, ?_⟩
      · refine iff_of_false (hoff'.not_runs t) ?_
        rintro ⟨w, hwt⟩
        simp [Sys.boot, hw w] at hwt
      · constructor
        · exact fun w hne => absurd (hw w) hne
        · exact fun a ha => absurd ha (by simp [Sys.boot, hnorun a])
        · exact h.run.single
        · exact h.run.alloc
        · intro a c k ha
          have := hnorun a
          simp [Sys.boot] at ha
          simp [ha, Pc.inRun] at this
        · intro a c k j ha
          have := hnorun a
          simp [Sys.boot] at ha
          simp [ha, Pc.inRun] at this
        · exact h.run.task
        · intro w he
          simp [Sys.boot, hw w] at he
        · rw [Sys.boot, init_activeWorkers hi]
          simp [hw, WorkerPc.active]
      · intro t ht
        rw [hoff'.allTasks] at ht
        cases ht
      · intro t ht
        exact h.fresh t (by rwa [Sys.boot, init_made] at ht)
      · exact fun t ht => absurd ht (hoff'.not_runs t)
      · intro n k hk hch
        refine (h.triedExt n k hk hch).imp (fun hreg => ?_) fun hdead hlive => hdead ?_
        · rw [hoff.channels] at hreg
          cases hreg
        · rwa [Live, Sys.boot, init_made, init_frees] at hlive

theorem At.boot (h : s.At a c) : s.boot.At a c := ⟨h.enabled, h.call, h.parked, h.inRun⟩

theorem init_initialized {r : Rt} (hi : r.init.1 = .ok) : r.init.2.initialized = true := by
  unfold Rt.init at hi ⊢
  by_cases h : r.initialized = true
  · rw [if_pos h]
    exact h
  · rw [if_neg h] at hi ⊢
    obtain ⟨ok, tape, hask⟩ := r.reset.ask_eq
    rw [hask] at hi ⊢
    cases ok with
    | false => cases hi
    | true => rfl

/-- A section that initialises the runtime first. -/
theorem ensureInit_cases {k fail : Rt → Sys}
    (hk : ∀ rt, rt = s.boot.rt → rt.initialized = true → Case s.boot (.cont a e) (k rt))
    (hf : ∀ rt, rt = s.boot.rt → Case s.boot (.cont a e) (fail rt)) :
    Case s.boot (.cont a e) (s.ensureInit k fail) := by
  unfold ensureInit
  have hboot : s.boot.rt = s.rt.init.2 := rfl
  have hinit := init_initialized (r := s.rt)
  generalize s.rt.init = r at hboot hinit
  obtain ⟨rc, rt⟩ := r
  cases rc with
  | ok => exact hk rt hboot.symm (hinit rfl)
  | _ => exact hf rt hboot.symm

/-! ## API calls -/

theorem Ok.conclude (h : s.Ok) (hat : s.At a c) (hl : s.Clear e) {role : Role} {p : Pc}
    {r : Outcome × Rt}
    (hr : match r with
      | (.ret rc, rt) => Section (Pc.Does a.agent (s.pc a.agent)) c s.rt (some (role, rc)) rt
      | (.park, rt) => ∃ w t, a = .task w t ∧ Parks t c (s.pc a.agent) s.rt p rt ∧
          (rt.task t).state ≠ .ready) :
    Case s (.cont a e) (s.conclude a c role p r) := by
  obtain ⟨rc | _, rt⟩ := r
  · exact hat.ret hr
  · obtain ⟨w, t, rfl, hp, hst⟩ := hr
    exact h.switch hat hl hp hst

theorem current_eq_some {t : TaskId} (ha : a.current = some t) : ∃ w, a = .task w t := by
  cases a with
  | ext n => cases ha
  | task w u =>
      cases ha
      exact ⟨w, rfl⟩

theorem Ok.chanSend (h : s.Ok) (hat : s.At a c) (hl : s.Clear e) {ch : ChanId} {value : Addr}
    (hpc : s.pc a.agent = .called c (.chanSend (some ch) (some value)))
    (hlive : s.rt.Live (.chan ch)) :
    Case s (.cont a e) (s.conclude a c (.send ch) (.chanPark c (.send ch))
      (s.rt.chanSend a.current c ch value)) := by
  have hsend := h.rest.inv.chanSend h.rest.noWaiters a.current c ch value
  refine h.conclude hat hl ?_
  generalize s.rt.chanSend a.current c ch value = r at hsend
  obtain ⟨rc | _, rt⟩ := r
  · rcases hsend with hnow | ⟨rfl, rfl⟩
    · exact .send .plain ch value rc ⟨c, hpc⟩ hlive hnow
    · exact .sendNot ch .state (by simp)
  · obtain ⟨t, ht, hblock, rfl⟩ := hsend
    obtain ⟨w, rfl⟩ := current_eq_some ht
    exact ⟨w, t, rfl, .send ch value hpc (h.rest.inv.chan.registered ch hlive hblock.1) hblock,
      by simp [Rt.parkChan]⟩

theorem Ok.chanRecv (h : s.Ok) (hat : s.At a c) (hl : s.Clear e) {ch : ChanId} {out : Addr}
    (hpc : s.pc a.agent = .called c (.chanRecv (some ch) (some out)))
    (hlive : s.rt.Live (.chan ch)) :
    Case s (.cont a e) (s.conclude a c (.recv ch) (.chanPark c (.recv ch))
      (s.rt.chanRecv a.current c ch out)) := by
  have hrecv := h.rest.inv.chanRecv h.rest.noWaiters a.current c ch out
  refine h.conclude hat hl ?_
  generalize s.rt.chanRecv a.current c ch out = r at hrecv
  obtain ⟨rc | _, rt⟩ := r
  · rcases hrecv with hnow | ⟨rfl, rfl⟩
    · exact .recv ch out rc (.inl ⟨c, hpc⟩) hlive hnow
    · exact .recvNot ch .state (by simp)
  · obtain ⟨t, ht, hblock, rfl⟩ := hrecv
    obtain ⟨w, rfl⟩ := current_eq_some ht
    exact ⟨w, t, rfl, .recv ch out hpc (h.rest.inv.chan.registered ch hlive hblock.1) hblock,
      by simp [Rt.parkChan]⟩

theorem Ok.join (h : s.Ok) (hat : s.At a c) (hl : s.Clear e) {x : HandleId}
    (hpc : s.pc a.agent = .called c (.join x)) (hx : s.rt.Usable x) :
    Case s (.cont a e) (s.conclude a c .neither (.joinPark c x) (s.rt.join a.current x)) := by
  have hjoin := h.rest.inv.join hx a.current
  refine h.conclude hat hl ?_
  generalize s.rt.join a.current x = r at hjoin
  obtain ⟨rc | _, rt⟩ := r
  · obtain ⟨rfl, -⟩ := hjoin
    exact .idle _ s.rt.tape (by simp)
  · obtain ⟨t, ht, hmem, hcomp, rfl⟩ := hjoin
    obtain ⟨w, rfl⟩ := current_eq_some ht
    exact ⟨w, t, rfl, .join x hpc hmem hcomp, by simp [Rt.parkJoin]⟩

theorem Ok.sleep (h : s.Ok) {w : Nat} {t : TaskId} (hat : s.At (.task w t) c) (hl : s.Clear e)
    (ms nowNs : Nat) :
    Case s (.cont (.task w t) e)
      (s.conclude (.task w t) c .neither .switchPark (s.rt.sleepMs t ms nowNs)) := by
  rcases s.rt.sleepMs_cases t ms nowNs with ⟨-, heq⟩ | ⟨timers, tape, wakeNs, hperm, heq⟩ |
    ⟨tape, heq⟩
  · rw [heq]
    exact h.switchYield hat hl
  · rw [heq]
    exact h.switch hat hl (.sleep tape timers wakeNs hperm) (by simp [Rt.parkSleep])
  · rw [heq]
    exact hat.ret (.idle _ tape (by simp))

/-- Reading a handle that may be used changes nothing. -/
theorem derefHandle_of_usable {r : Rt} {x : HandleId} (hx : r.Usable x) : r.derefHandle x = r :=
  derefHandle_eq hx.1.2

theorem Ok.taskCancelled (h : s.Ok) {t : TaskId} (hr : s.rt.Runs t) :
    (s.rt.taskCancelled t).2 = s.rt := by
  unfold Rt.taskCancelled
  cases hh : (s.rt.task t).handle with
  | none => rfl
  | some x =>
      have hlive := h.rest.inv.handle_frees hr.1 (by simp [hr.2]) x hh
      simp [derefHandle_eq hlive]

theorem taskStatus_eq {r : Rt} {x : HandleId} (hx : r.Usable x) : (r.taskStatus x).2 = r := by
  unfold Rt.taskStatus
  rw [derefHandle_of_usable hx]
  simp only
  split
  · rfl
  · split
    · rfl
    · split <;> rfl

theorem At.chanTrySend (h : s.At a c) (hok : s.Ok) {ch : ChanId} {value : Addr}
    (hpc : s.pc a.agent = .called c (.chanTrySend (some ch) (some value)))
    (hlive : s.rt.Live (.chan ch)) :
    Case s (.cont a e) (s.ret a c (.send ch) (s.rt.chanTrySend c .nonblocking ch value).1
      (s.rt.chanTrySend c .nonblocking ch value).2) := by
  rcases hok.rest.inv.chanTrySend hok.rest.noWaiters c .nonblocking ch value with
    hnow | ⟨hrc, -, heq⟩
  · exact h.ret (.send .nonblocking ch value _ ⟨c, hpc⟩ hlive hnow)
  · rw [hrc, heq]
    exact h.ret (.sendNot ch _ (by simp))

theorem At.chanTryRecv (h : s.At a c) (hok : s.Ok) {ch : ChanId} {out : Addr}
    (hpc : s.pc a.agent = .called c (.chanTryRecv (some ch) (some out)))
    (hlive : s.rt.Live (.chan ch)) :
    Case s (.cont a e) (s.ret a c (.recv ch) (s.rt.chanTryRecv c ch out).1
      (s.rt.chanTryRecv c ch out).2) := by
  rcases hok.rest.inv.chanTryRecv hok.rest.noWaiters c ch out with hnow | ⟨hrc, -, heq⟩
  · exact h.ret (.recv ch out _ (.inr (.inl ⟨c, hpc⟩)) hlive hnow)
  · rw [hrc, heq]
    exact h.ret (.recvNot ch _ (by simp))

theorem At.callRun (hat : s.At a c) {k : Nat} {sleepForTimers : Bool} (env : Env)
    (hpc : s.pc a.agent = .called c (.run k sleepForTimers)) :
    Case s (.cont a e) (s.callApi a c env (.run k sleepForTimers)) ∨
      Case s.boot (.cont a e) (s.callApi a c env (.run k sleepForTimers)) := by
  simp only [Sys.callApi]
  by_cases hk : k = 0
  · rw [if_pos hk]
    exact .inl (hat.retIdle)
  rw [if_neg hk]
  refine .inr (ensureInit_cases (fun rt hrt hi => ?_) fun rt hrt => ?_)
  · split
    · exact hrt ▸ hat.boot.retIdle
    · next hcond =>
        simp only [Bool.or_eq_true, not_or, Bool.not_eq_true] at hcond
        cases a with
        | task w t => simp [Actor.current] at hcond
        | ext n =>
            subst hrt
            exact .runBegins n e c k sleepForTimers hpc (Nat.pos_of_ne_zero hk) hi hcond.2
  · exact hrt ▸ hat.boot.retIdle

theorem Ok.callGo (h : s.Ok) (hat : s.At a c) {fn wantHandle : Bool} {stackSize : Nat} (env : Env)
    (hpc : s.pc a.agent = .called c (.go fn stackSize wantHandle)) :
    Case s.boot (.cont a e) (s.callApi a c env (.go fn stackSize wantHandle)) := by
  refine ensureInit_cases (fun rt hrt hi => ?_) fun rt hrt => ?_
  · have hcreate := (h.boot.rest.inv.createTaskInternal fn stackSize wantHandle).created
    rw [← hrt] at hcreate
    simp only
    generalize rt.createTaskInternal fn stackSize wantHandle = r at hcreate
    obtain ⟨id, hd, rt'⟩ := r
    exact hat.boot.ret (.go _ ⟨c, fn, stackSize, wantHandle, hpc⟩ (hrt ▸ hi) (hrt ▸ hcreate))
  · exact hrt ▸ hat.boot.retIdle

theorem At.callChanCreate (hat : s.At a c) {elemSize capacity : Nat} (env : Env)
    (hpc : s.pc a.agent = .called c (.chanCreate elemSize capacity)) :
    Case s.boot (.cont a e) (s.callApi a c env (.chanCreate elemSize capacity)) := by
  refine ensureInit_cases (fun rt hrt hi => ?_) fun rt hrt => ?_
  · have hcreate := chanCreate_created s.boot.rt elemSize capacity
    rw [← hrt] at hcreate
    exact hat.boot.ret (.chanCreate _ ⟨c, elemSize, capacity, hpc⟩ (hrt ▸ hi) (hrt ▸ hcreate))
  · exact hrt ▸ hat.boot.retIdle

theorem Ok.callCancel (h : s.Ok) (hat : s.At a c) {x : HandleId} (env : Env)
    (hpc : s.pc a.agent = .called c (.cancel x)) (hx : s.rt.Usable x) :
    Case s (.cont a e) (s.callApi a c env (.cancel x)) := by
  obtain ⟨hrc, hcancel⟩ := h.rest.inv.taskCancel h.rest.noDead hx
  simp only [Sys.callApi]
  generalize s.rt.taskCancel x = r at hrc hcancel
  obtain ⟨rc, rt⟩ := r
  cases hrc
  exact hat.ret (.cancel x ⟨c, hpc⟩ hcancel)

theorem At.callSelect (hat : s.At a c) {cases : List SelectCase} (env : Env)
    (hpc : s.pc a.agent = .called c (.select cases)) :
    Case s (.cont a e) (s.callApi a c env (.select cases)) := by
  simp only [Sys.callApi]
  split
  · exact hat.retIdle
  · split
    · exact hat.retIdle
    · next plan hscan =>
        exact hat.goesIdle rfl rfl rfl (by simp [Pc.tried]) ⟨fun _ => ⟨hpc, hscan⟩, by simp⟩

/-- `mt_fd_read` and `mt_fd_write` do nothing for no bytes, and adopt the descriptor else. -/
theorem At.callTransfer (hat : s.At a c) (hfd : (s.pc a.agent).onFd = true) (fd len : Nat)
    (use : AdoptUse) (env : Env) : Case s (.cont a e)
      (if len = 0 then s.ret a c .neither .ok s.rt else s.adoptFcntl a c fd use env) := by
  split
  · exact hat.retIdle
  · exact hat.adoptFcntl hfd fd use env

theorem At.callFdClose (hat : s.At a c) {fd : Nat} (env : Env)
    (hpc : s.pc a.agent = .called c (.fdClose fd)) :
    Case s (.cont a e) (s.callApi a c env (.fdClose fd)) := by
  have hfd : (s.pc a.agent).onFd = true := by simp [hpc, Pc.onFd, Api.onFd]
  have hclose : FdOp (Pc.Does a.agent (s.pc a.agent)) s.rt (s.rt.fdCloseBegin fd).2 :=
    .close fd ⟨c, hpc⟩
  simp only [Sys.callApi]
  generalize s.rt.fdCloseBegin fd = r at hclose
  obtain ⟨rc, rt⟩ := r
  cases rc with
  | ok => exact hat.goesFd hfd hclose rfl rfl rfl rfl (by exact fun _ => hfd) s.os
  | _ => exact hat.retFd hfd hclose s.os

theorem Ok.callShutdown (h : s.Ok) {n : Nat} (hat : s.At (.ext n) c) (env : Env)
    (hpc : s.pc (.ext n) = .called c .shutdown)
    (halone : s.rt.running = false → s.Alone (.ext n)) :
    Case s (.cont (.ext n) e) (s.callApi (.ext n) c env .shutdown) := by
  simp only [Sys.callApi]
  cases hi : s.rt.initialized with
  | false => exact hat.retIdle
  | true =>
      cases hrun : s.rt.running with
      | true => exact .halts n e c hpc hrun h.rest.inv.shutdownRunning
      | false => exact .shutsDown n e c hpc hi hrun (halone hrun) h.rest.inv.shutDown

/-- The first section of an API call, without the calls that may initialise the runtime. -/
theorem Ok.callApi (h : s.Ok) (hat : s.At a c) (call : Api) (env : Env)
    (hl : call.unlocked = false → s.Clear e) (hpc : s.pc a.agent = .called c call)
    (hc : s.SectionOk a.agent) :
    Case s (.cont a e) (s.callApi a c env call) ∨
      Case s.boot (.cont a e) (s.callApi a c env call) := by
  unfold SectionOk at hc
  rw [hpc] at hc
  cases call with
  | go fn stackSize wantHandle => exact .inr (h.callGo hat env hpc)
  | yield =>
      cases a with
      | ext n => exact .inl (hat.retIdle)
      | task w t => exact .inl (h.switchYield hat (hl rfl))
  | sleep ms =>
      cases a with
      | ext n => exact .inl (hat.retIdle)
      | task w t => exact .inl (h.sleep hat (hl rfl) ms env.nowNs)
  | join x => exact .inl (h.join hat (hl rfl) hpc hc)
  | cancel x => exact .inl (h.callCancel hat env hpc hc)
  | status x =>
      refine .inl ?_
      simp only [Sys.callApi, taskStatus_eq hc]
      exact hat.retIdle
  | cancelled =>
      cases a with
      | ext n => exact .inl (hat.retIdle)
      | task w t =>
          refine .inl ?_
          simp only [Sys.callApi, h.taskCancelled (h.runs_of_enabled hat.enabled)]
          exact hat.retIdle
  | release x =>
      exact .inl (hat.ret (.release x _ ⟨c, hpc⟩ (h.rest.inv.taskHandleRelease h.rest.noDead hc)))
  | chanCreate elemSize capacity => exact .inr (hat.callChanCreate env hpc)
  | chanSend ch value =>
      cases ch with
      | none => exact .inl (hat.retIdle)
      | some ch =>
          cases value with
          | none => exact .inl (hat.retIdle)
          | some value => exact .inl (h.chanSend hat (hl rfl) hpc hc)
  | chanRecv ch out =>
      cases ch with
      | none => exact .inl (hat.retIdle)
      | some ch =>
          cases out with
          | none => exact .inl (hat.retIdle)
          | some out => exact .inl (h.chanRecv hat (hl rfl) hpc hc)
  | chanTrySend ch value =>
      cases ch with
      | none => exact .inl (hat.retIdle)
      | some ch =>
          cases value with
          | none => exact .inl (hat.retIdle)
          | some value => exact .inl (hat.chanTrySend h hpc hc)
  | chanTryRecv ch out =>
      cases ch with
      | none => exact .inl (hat.retIdle)
      | some ch =>
          cases out with
          | none => exact .inl (hat.retIdle)
          | some out => exact .inl (hat.chanTryRecv h hpc hc)
  | chanClose ch =>
      exact .inl (hat.ret
        (.close ch _ ⟨c, hpc⟩ hc (h.rest.inv.chanClose h.rest.noWaiters ch)))
  | chanDestroy ch =>
      exact .inl (hat.ret
        (.destroy ch _ ⟨c, hpc⟩ hc (h.rest.inv.chanDestroy h.rest.noWaiters ch)))
  | select cases => exact .inl (hat.callSelect env hpc)
  | fdAdopt fd => exact .inl (hat.adoptFcntl (by simp [hpc, Pc.onFd, Api.onFd]) fd _ env)
  | fdRelease fd => exact .inl (hat.releaseSection (by simp [hpc, Pc.onFd, Api.onFd]) hpc)
  | fdWait fd events timeoutMs =>
      refine .inl ?_
      simp only [Sys.callApi]
      split
      · next hev => exact h.waitSection hat (by simp [hpc, Pc.waitsFor, hev]) (hl rfl) _ _ .wait env
      · exact hat.retIdle
  | fdRead fd len timeoutMs | fdWrite fd len timeoutMs =>
      exact .inl (hat.callTransfer (by simp [hpc, Pc.onFd, Api.onFd]) fd len _ env)
  | netAccept fd timeoutMs =>
      exact .inl (hat.adoptFcntl (by simp [hpc, Pc.onFd, Api.onFd]) fd _ env)
  | fdClose fd => exact .inl (hat.callFdClose env hpc)
  | run k sleepForTimers => exact hat.callRun env hpc
  | shutdown =>
      cases a with
      | task w t => exact .inl (hat.retIdle)
      | ext n => exact .inl (h.callShutdown hat env hpc hc)

/-! ## Select -/

theorem Ok.tried_of_enabled (h : s.Ok) (he : s.enabled a = true) : s.rt.Tried (s.pc a.agent) := by
  cases a with
  | task w t => exact h.tried t (h.runs_of_enabled he)
  | ext n => exact h.triedExt n

/-- One more case has been found blocked. -/
theorem Ok.tried_next (h : s.Ok) (he : s.enabled a = true) {cases : List SelectCase}
    {plan : SelectPlan} {i : Nat} (hpc : s.pc a.agent = .selectTry c cases plan i)
    {k : SelectCase} (hk : cases[i]? = some k)
    (hreg : k.isChannel = true → k.ch.getD 0 ∈ s.rt.channels) :
    s.rt.Tried (.selectTry c cases plan (i + 1)) := by
  have hold := h.tried_of_enabled he
  rw [hpc] at hold
  intro x hx hch
  simp only [Pc.tried, List.take_add_one, hk, Option.toList_some, List.mem_append,
    List.mem_singleton] at hx
  rcases hx with hx | rfl
  · exact hold x hx hch
  · exact .inl (hreg hch)

/-- The trial of a channel case: a send or a receive, a blocked one, or a refusal. -/
theorem Ok.selectTryCase (h : s.Ok) {cases : List SelectCase} {plan : SelectPlan} {i : Nat}
    (hpc : s.pc a.agent = .selectTry c cases plan i) {k : SelectCase} (hk : cases[i]? = some k)
    (hch : k.isChannel = true) (hlive : s.rt.Live (.chan (k.ch.getD 0))) :
    (Section (Pc.Does a.agent (s.pc a.agent)) c s.rt
        (some (caseRole k, (s.rt.selectTryCase c k).1)) (s.rt.selectTryCase c k).2 ∧
      (s.rt.selectTryCase c k).1 ≠ .wouldBlock) ∨
    ((s.rt.selectTryCase c k).1 = .wouldBlock ∧ (s.rt.selectTryCase c k).2 = s.rt ∧
      k.ch.getD 0 ∈ s.rt.channels ∧ s.rt.CaseBlocks k) := by
  obtain ⟨op, ch, value, ms⟩ := k
  cases op with
  | recv =>
      cases ch with
      | none => exact .inl ⟨.idle _ s.rt.tape (by simp [caseRole]), by simp [Rt.selectTryCase]⟩
      | some ch =>
          cases value with
          | none => exact .inl ⟨.recvNot ch _ (by simp [Rt.selectTryCase]), by simp [Rt.selectTryCase]⟩
          | some out =>
              rcases h.rest.inv.chanTryRecv h.rest.noWaiters c ch out with hnow | ⟨hrc, hb, heq⟩
              · refine .inl ⟨.recv ch out _ (.inr (.inr ⟨c, cases, plan, i, ms, hpc, hk⟩)) hlive
                  hnow, ?_⟩
                intro hrc
                rw [show (s.rt.chanTryRecv c ch out).1 = .wouldBlock from hrc] at hnow
                cases hnow
              · exact .inr ⟨hrc, heq, h.rest.inv.chan.registered ch hlive hb.1, hb⟩
  | send =>
      cases ch with
      | none => exact .inl ⟨.idle _ s.rt.tape (by simp [caseRole]), by simp [Rt.selectTryCase]⟩
      | some ch =>
          cases value with
          | none => exact .inl ⟨.sendNot ch _ (by simp [Rt.selectTryCase]), by simp [Rt.selectTryCase]⟩
          | some src =>
              rcases h.rest.inv.chanTrySend h.rest.noWaiters c .select ch src with
                hnow | ⟨hrc, hb, heq⟩
              · refine .inl ⟨.send .select ch src _ ⟨c, cases, plan, i, ms, hpc, hk⟩ hlive hnow, ?_⟩
                intro hrc
                rw [show (s.rt.chanTrySend c .select ch src).1 = .wouldBlock from hrc] at hnow
                cases hnow
              · exact .inr ⟨hrc, heq, h.rest.inv.chan.registered ch hlive hb.1, hb⟩
  | default => cases hch
  | timeout => cases hch
  | unknown => cases hch

theorem caseBlocks_of_not_channel {r : Rt} {k : SelectCase} (hk : ¬k.isChannel = true) :
    r.CaseBlocks k := by
  obtain ⟨op, ch, value, ms⟩ := k
  cases op with
  | send => exact absurd rfl hk
  | recv => exact absurd rfl hk
  | default => trivial
  | timeout => trivial
  | unknown => trivial

theorem Ok.selectTrial (h : s.Ok) (hat : s.At a c) {cases : List SelectCase} {plan : SelectPlan}
    {i : Nat} (hpc : s.pc a.agent = .selectTry c cases plan i) {k : SelectCase}
    (hk : cases[i]? = some k) (hlive : s.CaseLive k) :
    Case s (.cont a e) (s.selectTrial a c cases plan i k) := by
  have hfol : s.rt.CaseBlocks k →
      Pc.Follows s.rt (s.pc a.agent) (.selectTry c cases plan (i + 1)) := fun hb => by
    refine ⟨by simp, fun j hj => ?_⟩
    cases hj
    refine ⟨hpc, fun x hx => ?_⟩
    cases hk.symm.trans hx
    exact hb
  unfold Sys.selectTrial
  by_cases hch : k.isChannel = true
  · rw [if_pos hch]
    have htry := h.selectTryCase hpc hk hch (hlive hch)
    generalize s.rt.selectTryCase c k = r at htry
    obtain ⟨rc, rt⟩ := r
    rcases htry with ⟨hs, hne⟩ | ⟨hrc, heq, hreg, hb⟩
    · cases rc with
      | wouldBlock => exact absurd rfl hne
      | _ => exact hat.retSelect (by rw [hpc]; rfl) i hs
    · cases hrc
      cases heq
      exact hat.goes (.idle _ s.rt.tape (by simp)) rfl rfl rfl
        (h.tried_next hat.enabled hpc hk fun _ => hreg) (hfol hb)
  · rw [if_neg hch]
    exact hat.goes (.idle _ s.rt.tape (by simp)) rfl rfl rfl
      (h.tried_next hat.enabled hpc hk fun h => absurd h hch) (hfol (caseBlocks_of_not_channel hch))

theorem Ok.selectAfterTrials (h : s.Ok) (hat : s.At a c) {cases : List SelectCase}
    {plan : SelectPlan} {i : Nat} (hpc : s.pc a.agent = .selectTry c cases plan i)
    (hi : cases[i]? = none) : Case s (.cont a e) (s.selectAfterTrials a c cases plan) := by
  rcases s.selectAfterTrials_cases a c cases plan with ⟨d, heq⟩ | heq
  · rw [heq]
    exact hat.retSelect (by rw [hpc]; rfl) d (.idle _ s.rt.tape (by simp))
  · rw [heq]
    refine hat.goes (.idle _ s.rt.tape (by simp)) rfl rfl rfl ?_
      (by exact ⟨i, hpc, List.getElem?_eq_none_iff.mp hi⟩)
    have hold := h.tried_of_enabled hat.enabled
    rw [hpc] at hold
    intro k hk hch
    refine hold k ?_ hch
    rwa [Pc.tried, List.take_of_length_le (List.getElem?_eq_none_iff.mp hi)]

theorem Ok.selectRegister (h : s.Ok) (hat : s.At a c) (hl : s.Clear e)
    {cases : List SelectCase} {plan : SelectPlan} (hpc : s.pc a.agent = .selectReg c cases plan)
    (hlive : ∀ k ∈ cases, s.CaseLive k) (nowNs : Nat) :
    Case s (.cont a e) (s.conclude a c .neither (.selectPark c cases plan)
      (s.rt.selectRegister a.current cases plan nowNs)) := by
  cases a with
  | ext n => exact hat.retIdle
  | task w t =>
      have hr := h.runs_of_enabled hat.enabled
      have htried := h.tried t hr
      have hreg : s.rt.CasesRegistered cases := fun k hk hch => by
        rw [show s.pc (.task t) = _ from hpc] at htried
        exact (htried k hk hch).resolve_right fun hdead => hdead (hlive k hk hch)
      have hsel := h.rest.inv.selectRegister hr.1 hr.2 (h.rest.noWaiters t hr) hreg plan nowNs
      refine h.conclude hat hl ?_
      change match s.rt.selectRegister (some t) cases plan nowNs with
        | (.ret rc, rt) => Section (Pc.Does (.task t) (s.pc (.task t))) c s.rt (some (.neither, rc)) rt
        | (.park, rt) => ∃ w' t', Actor.task w t = .task w' t' ∧
            Parks t' c (s.pc (.task t)) s.rt (.selectPark c cases plan) rt ∧ (rt.task t').state ≠ .ready
      generalize s.rt.selectRegister (some t) cases plan nowNs = r at hsel
      obtain ⟨rc | _, rt⟩ := r
      · exact .unselect t rc rfl hr hsel.2 ⟨c, cases, plan, hpc⟩
      · refine ⟨w, t, rfl, .select cases plan hpc hreg hsel, ?_⟩
        cases hsel with
        | untimed => simp [Rt.parkSelect]
        | timed => simp [Rt.parkSelectTimed]

/-! ## The later sections of calls -/

/-- The resumed task ends its `mt_fd_wait`. -/
theorem Ok.fdFinish (h : s.Ok) {w : Nat} {t : TaskId} {v : FdWaiterId} {use : WaitUse}
    (hw : s.workers w = .running t) (hpc : s.pc (.task t) = .fdPark c v use) (rc : Rc) :
    Case s (.cont (.task w t) e) (s.waitReturn (.task w t) c rc (s.rt.fdWaitFinish t v).2.2 use) := by
  have hr := (h.runs t).mpr ⟨w, hw⟩
  have hfd : (s.rt.task t).fdWaiter = some v := ((h.fits t hr.1).fdWaiter v).mpr ⟨c, use, hpc⟩
  rw [h.rest.inv.fdWaitFinish hr.1 hr.2 hfd]
  have hret : ∀ rc', Case s (.cont (.task w t) e)
      (s.ret (.task w t) c .neither rc' (s.rt.finishFd t v)) := fun rc' => by
    rw [ret_eq]
    exact .resumesFd w t e c v use _ .user _ hw hpc (by simp) (.out .neither rc')
  cases use with
  | wait => exact hret rc
  | io op =>
      unfold Sys.waitReturn
      simp only
      split
      · have := Case.resumesFd (s := s) w t e c v (.io op) none (.ioCall c op) [] hw hpc (by simp)
          (.on _ rfl rfl rfl (by simp [Tried, Pc.tried]) (by exact fun _ => by simp [hpc, Pc.onFd]))
        simp only [List.append_nil] at this
        exact this
      · exact hret _

theorem Ok.runStep (h : s.Ok) {n : Nat} (env : Env) (hin : (s.pc (.ext n)).inRun = true)
    (hs : s.continueCall (.ext n) env = some s') : Case s (.cont (.ext n) e) s' := by
  cases hpc : s.pc (.ext n) with
  | runAlloc c k =>
      obtain ⟨hk, -⟩ := h.run.allocCount _ _ _ hpc
      simp only [Sys.continueCall, Actor.agent, hpc] at hs
      split at hs
      · cases hs
      split at hs
      · next hcond =>
          obtain ⟨ok, tape, hask⟩ := s.rt.ask_eq
          rw [hask] at hs
          cases ok with
          | true =>
              cases hs
              exact .runPrepares n e c k tape hpc (by simp at hcond; exact hcond.1)
          | false =>
              cases hs
              exact .runFails n e c k tape hpc
      · cases hs
        exact .launches n e c (.inl ⟨k, hpc⟩)
  | runSpawn c k j =>
      simp only [Sys.continueCall, Actor.agent, hpc] at hs
      split at hs
      · cases hs
      split at hs
      · next hlt =>
          split at hs
          · cases hs
            exact .spawns n e c k j hpc hlt
          · cases hs
            exact .aborts n e c k j hpc
      · next hlt =>
          cases hs
          exact .launches n e c (.inr ⟨k, j, hpc, Nat.not_lt.mp hlt⟩)
  | runLoop c =>
      simp only [Sys.continueCall, Actor.agent, hpc] at hs
      split at hs
      · cases hs
      next hl =>
        split at hs
        · next hall =>
            cases hs
            refine .runEnds n e c hpc (by simpa using hl) fun w hw => ?_
            have := List.all_eq_true.mp hall w (List.mem_range.mpr hw)
            simpa using this
        · cases hs
  | runAbort c =>
      simp only [Sys.continueCall, Actor.agent, hpc] at hs
      split at hs
      · cases hs
      next hl =>
        split at hs
        · next hall =>
            cases hs
            refine .abortEnds n e c hpc (by simpa using hl) fun w hw => ?_
            have := List.all_eq_true.mp hall w (List.mem_range.mpr hw)
            simpa using this
        · cases hs
  | _ => simp [hpc, Pc.inRun] at hin

/-- A resumed task whose call was completed while it was parked. -/
theorem Ok.resumeStep (h : s.Ok) (he : s.enabled a = true) (env : Env)
    (hin : (s.pc a.agent).parked = true) (hs : s.continueCall a env = some s') :
    Case s (.cont a e) s' := by
  cases a with
  | ext n => cases hpc : s.pc (.ext n) <;> simp [Sys.continueCall, Actor.agent, hpc, Pc.parked] at hs hin
  | task w t =>
      have hw := enabled_task.mp he
      cases hpc : s.pc (.task t) with
      | chanPark c role =>
          simp only [Sys.continueCall, Actor.agent, hpc] at hs
          cases hs
          exact .returns w t e c _ _ hw (hpc ▸ .chan role) (.same ..)
      | selectPark c cases plan =>
          simp only [Sys.continueCall, Actor.agent, hpc] at hs
          cases hs
          exact .returns w t e c _ _ hw (hpc ▸ .select cases plan) (.store (by rw [hpc]; rfl) c _)
      | joinPark c x =>
          simp only [Sys.continueCall, Actor.agent, hpc] at hs
          cases hs
          exact .returns w t e c _ _ hw (hpc ▸ .join x) (.same ..)
      | switchPark =>
          simp only [Sys.continueCall, Actor.agent, hpc] at hs
          cases hs
          exact .goesOn w t e hw hpc
      | fdPark c v use =>
          simp only [Sys.continueCall, Actor.agent, hpc] at hs
          split at hs
          · cases hs
          · cases hs
            exact h.fdFinish hw hpc _
      | _ => simp [Actor.agent, hpc, Pc.parked] at hin

theorem Ok.continueCall (h : s.Ok) (he : s.enabled a = true) (env : Env) (ht : s.rt.tape = e.tape)
    (hc : s.SectionOk a.agent) (hs : s.continueCall a env = some s') :
    Case s (.cont a e) s' ∨ Case s.boot (.cont a e) s' := by
  by_cases hparked : (s.pc a.agent).parked = true
  · exact .inl (h.resumeStep he env hparked hs)
  have hparked : (s.pc a.agent).parked = false := by simpa using hparked
  by_cases hrun : (s.pc a.agent).inRun = true
  · cases a with
    | task w t =>
        have := h.run.task t
        rw [show (s.pc (.task t)).inRun = true from hrun] at this
        cases this
    | ext n => exact .inl (h.runStep env hrun hs)
  have hrun : (s.pc a.agent).inRun = false := by simpa using hrun
  have hat : ∀ {c}, (s.pc a.agent).call? = some c → s.At a c := fun hcall =>
    ⟨he, hcall, hparked, hrun⟩
  cases hpc : s.pc a.agent with
  | called c call =>
      simp only [Sys.continueCall, hpc] at hs
      split at hs
      · next hl =>
          cases hs
          exact h.callApi (hat (by simp [hpc, Pc.call?])) call env
            (fun hu => ⟨by simpa [hu] using hl, ht⟩)
            hpc hc
      · cases hs
  | selectTry c cases plan i =>
      simp only [Sys.continueCall, hpc] at hs
      split at hs
      · cases hs
      have hat := hat (c := c) (by simp [hpc, Pc.call?])
      simp only [SectionOk, hpc] at hc
      cases hi : cases[i]? with
      | some k =>
          rw [hi] at hs
          cases hs
          exact .inl (h.selectTrial hat hpc hi (hc k hi))
      | none =>
          rw [hi] at hs
          cases hs
          exact .inl (h.selectAfterTrials hat hpc hi)
  | selectReg c cases plan =>
      simp only [Sys.continueCall, hpc] at hs
      split at hs
      · cases hs
      next hl =>
        cases hs
        simp only [SectionOk, hpc] at hc
        exact .inl (h.selectRegister (hat (by simp [hpc, Pc.call?])) ⟨by simpa using hl, ht⟩ hpc hc
          env.nowNs)
  | fdAdopt c fd use =>
      simp only [Sys.continueCall, hpc] at hs
      cases hs
      exact .inl ((hat (by simp [hpc, Pc.call?])).adoptFcntl (by simp [hpc, Pc.onFd]) fd use env)
  | fdAdopting c fd flags use =>
      simp only [Sys.continueCall, hpc] at hs
      split at hs
      · cases hs
      · cases hs
        exact .inl ((hat (by simp [hpc, Pc.call?])).adoptSection (by simp [hpc, Pc.onFd]) env hpc)
  | fdRestoring c fd flags =>
      simp only [Sys.continueCall, hpc] at hs
      cases hs
      exact .inl ((hat (by simp [hpc, Pc.call?])).releaseFcntl (by simp [hpc, Pc.onFd]) fd flags env)
  | ioCall c op =>
      simp only [Sys.continueCall, hpc] at hs
      exact .inl ((hat (by simp [hpc, Pc.call?])).ioStep (by simp [hpc, Pc.onFd]) op env hs)
  | ioWait c op =>
      simp only [Sys.continueCall, hpc] at hs
      split at hs
      · cases hs
      next hl =>
        cases hs
        exact .inl (h.waitSection (hat (by simp [hpc, Pc.call?])) (by simp [hpc, Pc.waitsFor])
          ⟨by simpa using hl, ht⟩ _ _ (.io op) env)
  | acceptDrop c fd =>
      simp only [Sys.continueCall, hpc] at hs
      cases hs
      exact .inl ((hat (by simp [hpc, Pc.call?])).retFd (by simp [hpc, Pc.onFd])
        (.forget fd (.inr ⟨c, hpc⟩)) (s.os.close fd))
  | fdClosing c fd inst =>
      simp only [Sys.continueCall, hpc] at hs
      cases hs
      exact .inl ((hat (by simp [hpc, Pc.call?])).closeStep (by simp [hpc, Pc.onFd]) env hpc)
  | fdClosed c fd rc =>
      simp only [Sys.continueCall, hpc] at hs
      split at hs
      · cases hs
      · cases hs
        exact .inl ((hat (by simp [hpc, Pc.call?])).retFd (by simp [hpc, Pc.onFd])
          (.unmark fd ⟨c, rc, hpc⟩) s.os)
  | fresh => simp [Sys.continueCall, hpc] at hs
  | user => simp [Sys.continueCall, hpc] at hs
  | finished => simp [Sys.continueCall, hpc] at hs
  | _ => simp [hpc, Pc.parked, Pc.inRun] at hparked hrun

/-! ## The worker loop -/

variable {w : Nat}

/-- A worker that stands at a point where it holds the lock. -/
structure Holds (s : Sys) (w : Nat) : Prop where
  locked : (s.workers w).locked = true
  lock : s.lock = some w

theorem Holds.exit (h : s.Holds w) (hst : s.rt.stopping = true) :
    Case s (.worker w e) (s.workerExit w s.rt) := by
  have := Case.exits w e s.rt.runResult h.locked h.lock (.inl ⟨rfl, .inl hst⟩)
  rwa [← hst] at this

theorem Holds.keep {q : WorkerPc} {rt : Rt} (h : s.Holds w) (hq : q.locked = true)
    (hm : Ticks ((s.workers w).cause e.nowNs) s.rt rt) :
    Case s (.worker w e) ({ s with rt := rt }.setWorker w q) := by
  have hloop : Loops w (s.workers w) s.lock q s.lock := by
    rw [h.lock]
    exact .keep h.locked hq
  exact .loops w q s.lock (.inl ⟨e, rfl⟩) hloop hm nofun

theorem Holds.drop {q : WorkerPc} {rt : Rt} (h : s.Holds w) (hq : q.active = true)
    (hq' : q.locked = false) (hr : ∀ t, q ≠ .running t)
    (hm : Ticks ((s.workers w).cause e.nowNs) s.rt rt) :
    Case s (.worker w e) ({ s with rt := rt, lock := none }.setWorker w q) :=
  .loops w q none (.inl ⟨e, rfl⟩) (h.lock ▸ .drop h.locked hq hq' hr) hm nofun

theorem Holds.workerPoll {rt : Rt} (h : s.Holds w) (timed : Bool) (k : PollCont)
    (hm : Ticks ((s.workers w).cause e.nowNs) s.rt rt) :
    Case s (.worker w e) (s.workerPoll w timed k rt) := by
  unfold Sys.workerPoll
  split
  · exact h.drop rfl rfl (by simp) hm
  · exact h.drop rfl rfl (by simp) (hm.tail (.polling true))

theorem Holds.cause (h : s.Holds w) (nowNs : Nat) :
    (s.workers w).cause nowNs = .expiry nowNs := by
  have hl := h.locked
  cases hw : s.workers w with
  | polled k batch => simp [hw, WorkerPc.locked] at hl
  | _ => rfl

theorem Ok.workerTop (h : s.Ok) (hw : s.Holds w) (env : Env) :
    Case s (.worker w env) (s.workerTop w env) := by
  unfold Sys.workerTop
  split
  · next hst => exact hw.exit (by simp at hst; exact hst.1)
  split
  · exact hw.keep rfl .refl
  have hm := h.rest.inv.wakeExpiredTimers env.nowNs
  rw [← hw.cause env.nowNs] at hm
  simp only
  split
  · exact hw.workerPoll false .pop hm
  · exact hw.keep rfl hm

theorem Holds.verdict (h : s.Holds w) : Case s (.worker w e) (s.workerVerdict w .state) :=
  .exits w e .state h.locked h.lock (.inr rfl)

theorem Holds.workerIdle (h : s.Holds w) (env : Env) :
    Case s (.worker w e) (s.workerIdle w env) := by
  unfold Sys.workerIdle
  split
  · next hst => exact h.exit hst
  split
  · next hlive => exact .exits w e s.rt.runResult h.locked h.lock (.inl ⟨rfl, .inr hlive⟩)
  split
  · exact h.workerPoll _ .top .refl
  split
  · split
    · exact h.verdict
    · exact h.drop rfl rfl (by simp) .refl
  · split
    · split
      · exact h.verdict
      · exact h.drop rfl rfl (by simp) .refl
    · exact h.keep rfl .refl

theorem Ok.workerPop (h : s.Ok) (hpop : s.workers w = .pop) (hl : s.lock = some w) (env : Env) :
    Case s (.worker w e) (s.workerPop w env) := by
  unfold Sys.workerPop
  cases hq : s.rt.runq.pop with
  | none =>
      simp only [Rt.runqPop, hq, Option.map_none]
      exact Holds.workerIdle ⟨by simp [hpop, WorkerPc.locked], hl⟩ env
  | some p =>
      obtain ⟨t, q⟩ := p
      have := Case.dispatches w e t q hpop hl hq (h.rest.inv.taskDispatch hq)
      simp only [Rt.runqPop, hq, Option.map_some]
      by_cases hf : s.pc (.task t) = .fresh
      · rw [if_pos hf] at this
        rw [if_pos (by exact hf)]
        exact this
      · rw [if_neg hf] at this
        rw [if_neg (by exact hf)]
        simpa [Sys.setPc] using this

/-- A worker that takes the lock again. -/
theorem takes {q : WorkerPc} {rt : Rt} (ha : (s.workers w).active = true)
    (hnl : (s.workers w).locked = false) (hr : ∀ t, s.workers w ≠ .running t) (hl : s.lock = none)
    (hq : q.locked = true) (hm : Ticks ((s.workers w).cause e.nowNs) s.rt rt) :
    Case s (.worker w e) ({ s with rt := rt, lock := some w }.setWorker w q) :=
  .loops w q (some w) (.inl ⟨e, rfl⟩) (hl ▸ .take ha hnl hr hq) hm nofun

theorem pollCont_eq (s : Sys) (w : Nat) (k : PollCont) :
    ∃ q : WorkerPc, q.locked = true ∧ s.pollCont w k = s.setWorker w q := by
  cases k with
  | top => exact ⟨.top, rfl, rfl⟩
  | pop => exact ⟨.pop, rfl, rfl⟩

theorem Ok.workerStep (h : s.Ok) (env : Env) (hs : s.workerStep w env = some s') :
    Case s (.worker w env) s' := by
  unfold Sys.workerStep at hs
  split at hs
  · next hw =>
      split at hs
      · cases hs
      split at hs
      · cases hs
        exact .startFails w env hw
      · next hl _ =>
          cases hs
          exact .starts w env hw (by simpa using hl)
  · next hw =>
      split at hs
      · next hl =>
          cases hs
          exact h.workerTop ⟨by simp [hw, WorkerPc.locked], hl⟩ env
      · cases hs
  · next hw =>
      split at hs
      · next hl =>
          cases hs
          exact h.workerPop hw hl env
      · cases hs
  · next k batch hw =>
      split at hs
      · cases hs
      next hl =>
        cases hs
        obtain ⟨q, hq, heq⟩ := pollCont_eq { s with
          rt := { s.rt.backendDispatch batch with ioPolling := false }, lock := some w } w k
        rw [heq]
        have hm := FdShifts.ticks (h.rest.inv.backendDispatch batch)
        have hcause : (s.workers w).cause env.nowNs = .ready batch := by rw [hw]; rfl
        exact takes (by simp [hw, WorkerPc.active]) (by simp [hw, WorkerPc.locked]) (by simp [hw])
          (by simpa using hl) hq (hcause ▸ hm.tail (.polling false))
  · next timed k hw =>
      split at hs
      · cases hs
      next hl =>
        cases hs
        obtain ⟨q, hq, heq⟩ := pollCont_eq { s with lock := some w } w k
        rw [heq]
        exact takes (by simp [hw, WorkerPc.active]) (by simp [hw, WorkerPc.locked]) (by simp [hw])
          (by simpa using hl) hq .refl
  · next hw =>
      split at hs
      · cases hs
      next hl =>
        cases hs
        exact takes (by simp [hw, WorkerPc.active]) (by simp [hw, WorkerPc.locked]) (by simp [hw])
          (by simpa using hl) rfl .refl
  · next hw =>
      split at hs
      · cases hs
      next hl =>
        cases hs
        exact takes (by simp [hw, WorkerPc.active]) (by simp [hw, WorkerPc.locked]) (by simp [hw])
          (by simpa using hl) rfl .refl
  · cases hs

/-! ## Every step -/

/-- The state in which the section of a step begins: the allocator's answers are
there, and `mt_init` has run if the section starts with it. -/
def Prepared (s s₀ : Sys) : Prop := ∃ tape, s₀ = s.tick tape ∨ s₀ = (s.tick tape).boot

theorem Prepared.self (s : Sys) : s.Prepared s := ⟨s.rt.tape, .inl rfl⟩

theorem Prepared.ok {s₀ : Sys} (hp : s.Prepared s₀) (h : s.Ok) : s₀.Ok := by
  obtain ⟨tape, rfl | rfl⟩ := hp
  · exact h.tick tape
  · exact (h.tick tape).boot

theorem Ok.finish {t : TaskId} (h : s.Ok) (hw : s.workers w = .running t) (hl : s.lock = none)
    (hpc : s.pc (.task t) = .user) :
    Case s (.finish w t) (s.switch w t (s.rt.taskMarkDead t) .finished) := by
  have hr := (h.runs t).mpr ⟨w, hw⟩
  have hws := h.rest.noWaiters t hr
  exact .finishes w t hw hl hpc (h.rest.inv.taskAfterSwitch_dead hr.1 hr.2 hws)

/-- The inversion of the step function. -/
theorem Ok.step_cases {a : Act} (h : s.Ok) (hc : s.Contract a)
    (hs : machine.step s a = some s') : ∃ s₀, s.Prepared s₀ ∧ Case s₀ a s' := by
  cases a with
  | api a call =>
      simp only [machine, Sys.step] at hs
      split at hs
      · next hen =>
          cases hs
          simp only [Bool.and_eq_true, beq_iff_eq] at hen
          exact ⟨s, .self s, .calls a call hen.1 hen.2⟩
      · cases hs
  | cont a env =>
      simp only [machine, Sys.step] at hs
      split at hs
      · next hen =>
          rcases (h.tick env.tape).continueCall (a := a) (e := env) hen env rfl hc hs with hcase | hcase
          · exact ⟨_, ⟨env.tape, .inl rfl⟩, hcase⟩
          · exact ⟨_, ⟨env.tape, .inr rfl⟩, hcase⟩
      · cases hs
  | finish w t =>
      simp only [machine, Sys.step] at hs
      split at hs
      · next hen =>
          cases hs
          simp only [Bool.and_eq_true, Option.isNone_iff_eq_none, beq_iff_eq] at hen
          exact ⟨s, .self s, h.finish (enabled_task.mp hen.1.1) hen.1.2 hen.2⟩
      · cases hs
  | write a addr v =>
      simp only [machine, Sys.step] at hs
      split at hs
      · next hen =>
          cases hs
          simp only [Bool.and_eq_true, beq_iff_eq] at hen
          exact ⟨s, .self s, .writes a addr v hen.1 hen.2⟩
      · cases hs
  | osOpen a fd flags =>
      simp only [machine, Sys.step] at hs
      split at hs
      · cases hs
        exact ⟨s, .self s, .descriptors (s.os.issue fd flags) s.rt.interest s.rt.filters
          (.inl ⟨a, fd, flags, rfl⟩) (.inl ⟨a, fd, flags, rfl, by simp_all, rfl, rfl, rfl⟩)⟩
      · cases hs
  | osClose a fd =>
      simp only [machine, Sys.step] at hs
      split at hs
      · cases hs
        exact ⟨s, .self s, .descriptors (s.os.close fd) _ _ (.inr ⟨a, fd, rfl⟩)
          (.inr ⟨a, fd, rfl, rfl, rfl, rfl⟩)⟩
      · cases hs
  | worker w env =>
      simp only [machine, Sys.step] at hs
      exact ⟨_, ⟨env.tape, .inl rfl⟩, (h.tick env.tape).workerStep env hs⟩
  | collect w batch =>
      simp only [machine, Sys.step] at hs
      split at hs
      · next k hw =>
          cases hs
          exact ⟨s, .self s, .loops w _ s.lock (.inr ⟨batch, rfl⟩) (hw ▸ .collect) .refl fun _ => rfl⟩
      · cases hs

end Sys

end Microthread
