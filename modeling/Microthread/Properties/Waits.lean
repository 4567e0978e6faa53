import Microthread.Properties.Expiry
import Microthread.Properties.Interest
import Microthread.Properties.Readiness

/-!
# A wait for a descriptor ends once

Readiness, expiry, cancellation, closing and shutdown race for one waiter. The first of
them fixes the result in the task's record, takes the task out of the timers and appends it
to the run queue. The waiter stays linked, reserved, until the task resumes, and whatever
comes in between finds it inactive. A wait is therefore a small machine of its own: it
waits, it has ended with a result, it is over. Every run of the system follows it.
-/

namespace Microthread

open Foundation Rt

/-- The record of a task whose wait for a descriptor ends. -/
def Task.answered (k : Task) (rc : Rc) (ready : Nat) : Task :=
  { k with
    wakeNs := 0, fdInTimer := false, fdResult := rc, fdReadyEvents := ready, state := .ready }

/-- What a wait until `wakeNs` with a waiter of the current generation is ended with. -/
def FdCause.Answers (x : FdWaiter) (wakeNs : Nat) (rc : Rc) (ready : Nat) : FdCause → Prop
  | .ready batch => ∃ e ∈ batch, e.fd = x.fd ∧
      ((rc = .ok ∧ ready ≠ 0 ∧ ready &&& x.events = ready) ∨
        (rc = .invalid ∧ ready = 0 ∧ e.bits &&& pollNval ≠ 0))
  | .expiry nowNs => rc = .timeout ∧ ready = 0 ∧ wakeNs ≤ nowNs
  | .close fd => x.fd = fd ∧ rc = .closed ∧ ready = 0
  | .halt => rc = .cancelled ∧ ready = 0

section Ending

variable {s s' : Rt} {t u : TaskId} {w : FdWaiterId} {k : FdCause}

theorem FdCause.Gives.answers {rc : Rc} {ready : Nat} (hg : k.Gives s (s.fdw w) rc ready)
    (hu : ∀ batch, k = .ready batch → s.UpToDateOn fun _ => True) (hw : w ∈ s.fdWaiters)
    (ha : (s.fdw w).state = .active) :
    k.Answers (s.fdw w) (s.task (s.fdw w).task).wakeNs rc ready := by
  cases k with
  | ready batch =>
      obtain ⟨e, he, hfd, hok | hnval | ⟨-, -, hold⟩⟩ := hg
      · exact ⟨e, he, hfd, .inl hok⟩
      · exact ⟨e, he, hfd, .inr hnval⟩
      · exact absurd (Option.map_eq_some_iff.mp (hu batch rfl w hw ha trivial)) hold
  | expiry nowNs => exact hg
  | close fd => exact hg
  | halt => exact hg

/-- The waiter of a task that is in no wait for a descriptor is another one. -/
theorem Rt.Inv.eq_fdWaiter (h : s.Inv) {v : FdWaiterId} (hv : v ∈ s.fdWaiters)
    (ht : (s.fdw v).task = t) (hw : (s.task t).fdWaiter = some w) : v = w := by
  have hown := (h.fd.owner v hv).2.1
  rw [ht, hw] at hown
  exact (Option.some.inj hown).symm

/-- The worker's loop leaves the waiting task `t` alone, or ends its wait with what it gives. -/
theorem Tick.gives {P : Rc → Nat → Prop} (hm : Tick k s s') (h : s.Inv)
    (hg : ∀ rc ready, w ∈ s.fdWaiters → (s.fdw w).state = .active →
      k.Gives s (s.fdw w) rc ready → P rc ready)
    (ht : t ∈ s.allTasks) (hs : (s.task t).state = .waitingFd)
    (hw : (s.task t).fdWaiter = some w) :
    (s'.task t = s.task t ∧ s'.fdw w = s.fdw w) ∨
      ∃ rc ready, P rc ready ∧ s'.task t = (s.task t).answered rc ready := by
  have hne : ∀ {u : TaskId} {st : TaskState}, (s.task u).state = st → st ≠ .waitingFd → t ≠ u := by
    rintro u st hst hne rfl
    exact hne (hst.symm.trans hs)
  cases hm with
  | fd hm =>
      cases hm with
      | tape => exact .inl ⟨rfl, rfl⟩
      | insert => exact .inl ⟨rfl, rfl⟩
      | wake v items rc ready hv ha hperm hgives =>
          by_cases htv : (s.fdw v).task = t
          · obtain rfl := h.eq_fdWaiter hv htv hw
            refine .inr ⟨rc, ready, hg rc ready hv ha hgives, ?_⟩
            subst htv
            exact Function.update_self ..
          · refine .inl ⟨Function.update_of_ne (Ne.symm htv) _ _, Function.update_of_ne ?_ _ _⟩
            rintro rfl
            exact htv (h.fd.linked t ht w hw).2
  | polling => exact .inl ⟨rfl, rfl⟩
  | timeout u items _ hst => exact .inl ⟨Function.update_of_ne (hne hst (by simp)) _ _, rfl⟩
  | wakeSleep u items _ hst => exact .inl ⟨Function.update_of_ne (hne hst (by simp)) _ _, rfl⟩

theorem Ticks.gives {P : Rc → Nat → Prop} (hm : Ticks k s s') (h : s.Inv)
    (hg : ∀ a rc ready, Ticks k s a → a.task t = s.task t → a.fdw w = s.fdw w →
      w ∈ a.fdWaiters → (a.fdw w).state = .active → k.Gives a (a.fdw w) rc ready → P rc ready)
    (ht : t ∈ s.allTasks) (hs : (s.task t).state = .waitingFd)
    (hw : (s.task t).fdWaiter = some w) :
    (s'.task t = s.task t ∧ s'.fdw w = s.fdw w) ∨
      ∃ rc ready, P rc ready ∧ s'.task t = (s.task t).answered rc ready := by
  induction hm with
  | refl => exact .inl ⟨rfl, rfl⟩
  | @tail a b hms hm ih =>
      have hmoves := Shifts.moves (Ticks.shifts hms)
      have ha := Moves.inv hmoves h
      have ht' := (Moves.allTasks_eq hmoves ▸ ht :)
      rcases ih with ⟨htask, hfdw⟩ | ⟨rc, ready, hk, htask⟩
      · have hstep := hm.gives ha (fun rc ready => hg a rc ready hms htask hfdw) ht'
          (by rw [htask]; exact hs) (by rw [htask]; exact hw)
        rw [htask, hfdw] at hstep
        exact hstep
      · -- the wait has ended already
        refine .inr ⟨rc, ready, hk, ?_⟩
        have hready := (congrArg Task.state htask).trans rfl
        exact (Moves.task_eq (Shifts.moves hm.shifts) ha ht' (.inl hready)).trans htask

/-- With waiters of the current generations the wait ends with an answer to it. -/
theorem Ticks.answers (hm : Ticks k s s') (h : s.Inv)
    (hu : ∀ batch, k = .ready batch → s.UpToDateOn fun _ => True) (ht : t ∈ s.allTasks)
    (hs : (s.task t).state = .waitingFd) (hw : (s.task t).fdWaiter = some w) :
    (s'.task t = s.task t ∧ s'.fdw w = s.fdw w) ∨
      ∃ rc ready, k.Answers (s.fdw w) (s.task t).wakeNs rc ready ∧
        s'.task t = (s.task t).answered rc ready := by
  refine Ticks.gives hm h (fun a rc ready hms htask hfdw hv ha hgives => ?_) ht hs hw
  have hans := hgives.answers (fun batch hk => (hu batch hk).drifts (Ticks.drifts hms)) hv ha
  rw [hfdw, (h.fd.linked t ht w hw).2, htask] at hans
  exact hans

/-- A wait times out only when its time has come. -/
theorem Ticks.expires (hm : Ticks k s s') (h : s.Inv) (ht : t ∈ s.allTasks)
    (hs : (s.task t).state = .waitingFd) (hw : (s.task t).fdWaiter = some w) :
    s'.task t = s.task t ∨ ∃ rc ready,
      (rc = .timeout → ∃ nowNs, k = .expiry nowNs ∧ (s.task t).wakeNs ≤ nowNs) ∧
        s'.task t = (s.task t).answered rc ready := by
  have hends := Ticks.gives hm h (P := fun rc _ =>
    rc = .timeout → ∃ nowNs, k = .expiry nowNs ∧ (s.task t).wakeNs ≤ nowNs)
    (fun a rc ready hms htask hfdw hv ha hgives hrc => ?_) ht hs hw
  · exact hends.imp_left And.left
  · subst hrc
    cases k with
    | ready batch => obtain ⟨_, _, _, ⟨hrc, -⟩ | ⟨hrc, -⟩ | ⟨hrc, -⟩⟩ := hgives <;> cases hrc
    | expiry nowNs =>
        have hle := hgives.2.2
        rw [hfdw, (h.fd.linked t ht w hw).2, htask] at hle
        exact ⟨nowNs, rfl, hle⟩
    | close fd => cases hgives.2.1
    | halt => cases hgives.1

/-- A cancellation request ends the wait of its own task only. -/
theorem Cancels.answers (hc : Cancels u s s') (h : s.Inv) (ht : t ∈ s.allTasks)
    (hs : (s.task t).state = .waitingFd) (hw : (s.task t).fdWaiter = some w) :
    (t ≠ u ∧ s'.task t = s.task t) ∨ (t = u ∧ s'.task t = (s.task t).answered .cancelled 0) := by
  have hslot : (s.task t).slot = some .timers := by
    simp [Task.slot, hs, (h.fd.waiting t ht hs).1]
  have hqueue : ∀ {r : WaitqRef}, u ∈ (s.waitq r).items → t ≠ u := by
    rintro r hu rfl
    simp [(h.mem_waitq hu).2] at hslot
  have hne : ∀ {st : TaskState}, (s.task u).state = st → st ≠ .waitingFd → t ≠ u := by
    rintro st hst hne rfl
    exact hne (hst.symm.trans hs)
  cases hc with
  | nothing hst => exact .inl ⟨hne hst (by simp), rfl⟩
  | sleep items _ hst =>
      have htu := hne hst (by simp)
      exact .inl ⟨htu, Function.update_of_ne htu _ _⟩
  | chan r hu => exact .inl ⟨hqueue hu, Function.update_of_ne (hqueue hu) _ _⟩
  | select items _ hst =>
      have htu := hne hst (by simp)
      exact .inl ⟨htu, Function.update_of_ne htu _ _⟩
  | fd v items hv ha htv =>
      by_cases htu : t = u
      · subst htu
        obtain rfl := h.eq_fdWaiter hv htv hw
        subst htv
        exact .inr ⟨rfl, Function.update_self ..⟩
      · refine .inl ⟨htu, Function.update_of_ne ?_ _ _⟩
        exact fun heq => htu (heq.trans htv)
  | join x hu => exact .inl ⟨hqueue hu, Function.update_of_ne (hqueue hu) _ _⟩
  | destroy hu hst hb =>
      have htu := hne hst (by simp)
      have hkill : (s.killReady u).task t = s.task t := Function.update_of_ne htu _ _
      obtain ⟨hm, -, -, -⟩ := hb
      refine .inl ⟨htu, (reap_task_of_ne _ htu).trans ?_⟩
      exact (HandleShifts.task_eq hm (h.killReady hu hst) (by rw [hkill]; simp [hs])).trans hkill

theorem Rt.CancelCall.answers {x : HandleId} (hc : CancelCall s x s') (h : s.Inv)
    (ht : t ∈ s.allTasks) (hs : (s.task t).state = .waitingFd)
    (hw : (s.task t).fdWaiter = some w) :
    ((s.handle x).task = some t → (s.handle x).completed = true) ∧ s'.task t = s.task t ∨
      ((s.handle x).task = some t ∧ s'.task t = (s.task t).answered .cancelled 0) := by
  cases hc with
  | late hcomp => exact .inl ⟨fun _ => hcomp, rfl⟩
  | wake u a hx hcomp htask hc =>
      rcases hc.answers (Shifts.inv (reported_shifts hcomp) h) ht hs hw with ⟨hne, heq⟩ | ⟨rfl, heq⟩
      · exact .inl ⟨fun ht' => absurd (Option.some.inj (ht'.symm.trans htask)) hne, heq⟩
      · exact .inr ⟨htask, heq⟩

end Ending

/-- A record that goes on waiting for a descriptor has not changed. -/
theorem Task.Step.eq_of_waits {own : Prop} {k k' : Task} (h : k.Step own k')
    (hs : k.state = .waitingFd) (hs' : k'.state = .waitingFd) : k' = k := by
  cases h with
  | same => rfl
  | woken o hw => simp [hw.state_new] at hs'
  | runs hr => simp [hr] at hs
  | calls c _ hr | selects ws count rc index inTimer counted _ hr | waits _ hr | collects _ hr
  | leaves _ hr => simp [hr] at hs

theorem Task.Step.fdWaiter_of_waits {own : Prop} {k k' : Task} (h : k.Step own k')
    (hs : k.state = .waitingFd) : k'.fdWaiter = k.fdWaiter := by
  cases h with
  | same => rfl
  | woken o hw => exact hw.fdWaiter
  | runs hr => rfl
  | calls c _ hr | selects ws count rc index inTimer counted _ hr | waits _ hr | collects _ hr
  | leaves _ hr => simp [hr] at hs

namespace Sys

variable {s s' : Sys} {t : TaskId} {w : FdWaiterId}

/-- The events that end a wait of `t` for `events` at `fd`, and what they end it with. -/
inductive Ends (s : Sys) (t : TaskId) (fd events : Nat) : Act → Rc → Nat → Prop where
  | ready (v env k batch e ready) : s.workers v = .polled k batch → e ∈ batch → e.fd = fd →
      ready ≠ 0 → ready &&& events = ready → Ends s t fd events (.worker v env) .ok ready
  | invalid (v env k batch e) : s.workers v = .polled k batch → e ∈ batch → e.fd = fd →
      e.bits &&& pollNval ≠ 0 → Ends s t fd events (.worker v env) .invalid 0
  | expiry (v env) : (∀ k batch, s.workers v ≠ .polled k batch) →
      (s.rt.task t).wakeNs ≤ env.nowNs → Ends s t fd events (.worker v env) .timeout 0
  | cancel (a env c x) : s.pc a.agent = .called c (.cancel x) → (s.rt.handle x).task = some t →
      Ends s t fd events (.cont a env) .cancelled 0
  | close (a env c) : s.pc a.agent = .called c (.fdClose fd) →
      Ends s t fd events (.cont a env) .closed 0
  | halt (n env c) : s.pc (.ext n) = .called c .shutdown → s.rt.running = true →
      Ends s t fd events (.cont (.ext n) env) .cancelled 0

theorem Ends.of_cause {v : Nat} {env : Env} {x : FdWaiter} {rc : Rc} {ready : Nat}
    (h : ((s.workers v).cause env.nowNs).Answers x (s.rt.task t).wakeNs rc ready) :
    s.Ends t x.fd x.events (.worker v env) rc ready := by
  unfold WorkerPc.cause at h
  split at h
  · next k batch hv =>
      obtain ⟨e, he, hfd, ⟨rfl, h1, h2⟩ | ⟨rfl, rfl, h1⟩⟩ := h
      · exact .ready v env k batch e ready hv he hfd h1 h2
      · exact .invalid v env k batch e hv he hfd h1
  · next hv =>
      obtain ⟨rfl, rfl, hle⟩ := h
      exact .expiry v env hv hle

/-- A section of a descriptor operation leaves a waiting task alone, unless it closes the
descriptor. -/
theorem answers_of_op {a : Actor} (env : Env) {r : Rt}
    (ho : FdOp (Pc.Does a.agent (s.pc a.agent)) s.rt r) (h : s.rt.Inv)
    (ht : t ∈ s.rt.allTasks) (hs : (s.rt.task t).state = .waitingFd)
    (hw : (s.rt.task t).fdWaiter = some w) : r.task t = s.rt.task t ∨
      (s.Ends t (s.rt.fdw w).fd (s.rt.fdw w).events (.cont a env) .closed 0 ∧
        r.task t = (s.rt.task t).answered .closed 0) := by
  have quiet : ∀ {r : Rt}, Regen s.rt r → r.task t = s.rt.task t := by
    rintro r ⟨gens, tape, rfl⟩
    rfl
  cases ho with
  | tape => exact .inl rfl
  | adopt fd flags => exact .inl (quiet (s.rt.fdAdopt_regen fd flags))
  | release fd => exact .inl (quiet (s.rt.fdRelease_regen fd))
  | close fd hd =>
      obtain ⟨c, hpc⟩ := hd
      obtain ⟨a', hr, hm⟩ := h.fdCloseBegin fd
      have hinv := hr.quiet.inv h
      obtain ⟨gens, tape, rfl⟩ := hr
      rcases Ticks.answers (FdShifts.ticks hm) hinv (fun _ hk => nomatch hk) ht hs hw with
        ⟨heq, -⟩ | ⟨rc, ready, ⟨hfd, rfl, rfl⟩, heq⟩
      · exact .inl heq
      · exact .inr ⟨.close a env c (hfd ▸ hpc), heq⟩
  | unmark fd => exact .inl (quiet (s.rt.fdCloseEnd_regen fd))
  | forget fd => exact .inl rfl

/-- A step leaves a task that waits for a descriptor alone, or ends its wait: with what a pass
of a worker gives, or as another event ends it. -/
theorem Case.gives {act : Act} {P : Rc → Nat → Prop} (hc : Case s act s') (h : s.Ok) (h' : s'.Ok)
    (ht : t ∈ s.rt.allTasks) (ht' : t ∈ s'.rt.allTasks)
    (hs : (s.rt.task t).state = .waitingFd) (hw : (s.rt.task t).fdWaiter = some w)
    (hticks : ∀ v env r, act = .worker v env → Ticks ((s.workers v).cause env.nowNs) s.rt r →
      r.task t = s.rt.task t ∨ ∃ rc ready, P rc ready ∧
        r.task t = (s.rt.task t).answered rc ready)
    (hends : ∀ rc ready, (∀ v env, act ≠ .worker v env) →
      s.Ends t (s.rt.fdw w).fd (s.rt.fdw w).events act rc ready → P rc ready) :
    s'.rt.task t = s.rt.task t ∨
      ∃ rc ready, P rc ready ∧ s'.rt.task t = (s.rt.task t).answered rc ready := by
  have hi := h.rest.inv
  obtain ⟨hlinked, howner⟩ := hi.fd.linked t ht w hw
  have hactive : (s.rt.fdw w).state = .active := by
    rw [(hi.fd.owner w hlinked).2.2.2, howner]
    exact hs
  have hstep := (hc.recorded h ht').resolve_right fun hnew => by
    simp [(hi.heap.task t ht).1] at hnew
  have kept : (w ∈ s'.rt.fdWaiters ∧ s'.rt.fdw w = s.rt.fdw w) → s'.rt.task t = s.rt.task t := by
    rintro ⟨hmem, hrec⟩
    refine hstep.2.eq_of_waits hs ?_
    have howner' := (h'.rest.inv.fd.owner w hmem).2.2.2
    rw [hrec, howner] at howner'
    exact howner'.mp hactive
  have hlinked' : w ∈ s'.rt.fdWaiters := by
    refine (h'.rest.inv.fd.linked t ht' w ?_).1
    rw [hstep.2.fdWaiter_of_waits hs, hw]
  have hfresh : w ≠ s.rt.nextAddr := fun heq => hi.fd_fresh (heq ▸ hlinked)
  have hwatch := hc.watch h
  generalize s'.rt = r at hwatch kept hlinked'
  cases hwatch with
  | drifts hd hr =>
      cases hr with
      | none hkept => exact .inl (kept (hkept w hlinked hactive))
      | cancel a env c x hact hpc hcall htask =>
          subst hact
          rw [htask]
          rcases hcall.answers hi ht hs hw with ⟨-, heq⟩ | ⟨hx, heq⟩
          · exact .inl heq
          · exact .inr ⟨_, _, hends _ _ (by simp) (.cancel a env c x hpc hx), heq⟩
      | halt n env c hact hpc hrun hm htask =>
          subst hact
          rw [htask]
          have hinv : s.rt.halt.Inv := hi.congr (by constructor <;> rfl) rfl rfl rfl rfl
          rcases Ticks.answers (FdShifts.ticks hm) hinv (fun _ hk => nomatch hk) ht hs hw with
            ⟨heq, -⟩ | ⟨rc, ready, ⟨rfl, rfl⟩, heq⟩
          · exact .inl heq
          · exact .inr ⟨_, _, hends _ _ (by simp) (.halt n env c hpc hrun), heq⟩
      | ticks v env hact hm => exact hticks v env _ hact hm
  | op a env hact ho _ htask =>
      subst hact
      rw [htask]
      rcases answers_of_op env ho hi ht hs hw with heq | ⟨hclose, heq⟩
      · exact .inl heq
      · exact .inr ⟨_, _, hends _ _ (by simp) hclose, heq⟩
  | refuse v u env fd events inst rc _ _ _ hwait hsame =>
      refine .inl (kept ⟨hlinked', ?_⟩)
      cases hwait with
      | answered => exact hsame.record w hlinked
      | refused => exact (hsame.record w hlinked).trans (Function.update_of_ne hfresh _ _)
  | park v u env fd events inst _ _ _ _ hwait hsame =>
      refine .inl (kept ⟨hlinked', ?_⟩)
      cases hwait with
      | parked =>
          exact (hsame.record w (List.mem_cons_of_mem _ hlinked)).trans
            (Function.update_of_ne hfresh _ _)
  | osClose a fd _ hsame => exact .inl (kept ⟨hlinked', hsame.record w hlinked⟩)
  | reset hl =>
      rw [hl] at hlinked'
      cases hlinked'

theorem Case.answers {act : Act} (hc : Case s act s') (h : s.Ok) (h' : s'.Ok)
    (hu : s.rt.UpToDateOn fun _ => True) (ht : t ∈ s.rt.allTasks) (ht' : t ∈ s'.rt.allTasks)
    (hs : (s.rt.task t).state = .waitingFd) (hw : (s.rt.task t).fdWaiter = some w) :
    s'.rt.task t = s.rt.task t ∨
      ∃ rc ready, s.Ends t (s.rt.fdw w).fd (s.rt.fdw w).events act rc ready ∧
        s'.rt.task t = (s.rt.task t).answered rc ready := by
  refine hc.gives h h' ht ht' hs hw (fun v env r hact hm => ?_) fun rc ready _ hends => hends
  subst hact
  rcases Ticks.answers hm h.rest.inv (fun _ _ => hu) ht hs hw with ⟨heq, -⟩ | ⟨rc, ready, hk, heq⟩
  · exact .inl heq
  · exact .inr ⟨rc, ready, .of_cause hk, heq⟩

/-- Only a worker whose clock has reached the end of a wait times it out. -/
theorem Case.expires {act : Act} (hc : Case s act s') (h : s.Ok) (h' : s'.Ok)
    (ht : t ∈ s.rt.allTasks) (ht' : t ∈ s'.rt.allTasks)
    (hs : (s.rt.task t).state = .waitingFd) (hw : (s.rt.task t).fdWaiter = some w) :
    s'.rt.task t = s.rt.task t ∨ ∃ rc ready,
      (rc = .timeout → ∃ v env, act = .worker v env ∧ (s.rt.task t).wakeNs ≤ env.nowNs) ∧
        s'.rt.task t = (s.rt.task t).answered rc ready := by
  refine hc.gives h h' ht ht' hs hw (fun v env r hact hm => ?_) fun rc ready hnot hends hrc => ?_
  · rcases Ticks.expires hm h.rest.inv ht hs hw with heq | ⟨rc, ready, hk, heq⟩
    · exact .inl heq
    · refine .inr ⟨rc, ready, fun hrc => ?_, heq⟩
      obtain ⟨nowNs, hcause, hle⟩ := hk hrc
      unfold WorkerPc.cause at hcause
      split at hcause
      · cases hcause
      · cases hcause
        exact ⟨v, env, hact, hle⟩
  · subst hrc
    cases hends with
    | expiry v env => exact absurd rfl (hnot v env)

end Sys

/-! ## The waiter keeps its request -/

/-- The descriptor and the events that a waiter waits for. -/
def FdWaiter.request (x : FdWaiter) : Nat × Nat := (x.fd, x.events)

section Request

variable {s s' : Rt} {w : FdWaiterId}

theorem Rt.FdSame.request (h : FdSame s s') (hw : w ∈ s'.fdWaiters) :
    w ∈ s.fdWaiters ∧ (s'.fdw w).request = (s.fdw w).request := by
  have hmem : w ∈ s.fdWaiters := h.list ▸ hw
  exact ⟨hmem, by rw [h.record w hmem]⟩

theorem Rt.Drift.request (h : Drift s s') (hw : w ∈ s'.fdWaiters) :
    w ∈ s.fdWaiters ∧ (s'.fdw w).request = (s.fdw w).request := by
  cases h with
  | same hs => exact hs.request hw
  | insert => exact ⟨hw, rfl⟩
  | wake v =>
      refine ⟨hw, ?_⟩
      by_cases hwv : w = v
      · subst hwv
        simp [reserve, FdWaiter.request]
      · simp [reserve, Function.update_of_ne hwv]
  | unlink v => exact ⟨List.mem_of_mem_erase hw, rfl⟩

theorem Rt.Drifts.request (h : Drifts s s') (hw : w ∈ s'.fdWaiters) :
    w ∈ s.fdWaiters ∧ (s'.fdw w).request = (s.fdw w).request := by
  induction h with
  | refl => exact ⟨hw, rfl⟩
  | tail _ hd ih =>
      obtain ⟨hmem, heq⟩ := hd.request hw
      obtain ⟨hmem', heq'⟩ := ih hmem
      exact ⟨hmem', heq.trans heq'⟩

theorem Rt.FdOp.request {does : Op → Prop} (ho : FdOp does s s') (h : s.Inv)
    (hw : w ∈ s'.fdWaiters) : (s'.fdw w).request = (s.fdw w).request := by
  have quiet : ∀ {r : Rt}, Regen s r → (r.fdw w).request = (s.fdw w).request := by
    rintro r ⟨gens, tape, rfl⟩
    rfl
  cases ho with
  | tape => rfl
  | adopt fd flags => exact quiet (s.fdAdopt_regen fd flags)
  | release fd => exact quiet (s.fdRelease_regen fd)
  | close fd =>
      obtain ⟨a, hr, hm⟩ := h.fdCloseBegin fd
      exact (Drifts.request (FdShifts.drifts hm) hw).2.trans (quiet hr)
  | unmark fd => exact quiet (s.fdCloseEnd_regen fd)
  | forget fd => rfl

end Request

namespace Sys

variable {s s' : Sys} {w : FdWaiterId}

/-- The request of a waiter does not change while the waiter is linked. -/
theorem Watch.request {act : Act} {r : Rt} (hw : s.Watch act r) (h : s.rt.Inv)
    (hs : w ∈ s.rt.fdWaiters) (hr : w ∈ r.fdWaiters) :
    (r.fdw w).request = (s.rt.fdw w).request := by
  have hfresh : w ≠ s.rt.nextAddr := fun heq => h.fd_fresh (heq ▸ hs)
  cases hw with
  | drifts hd => exact (Drifts.request hd hr).2
  | op a env _ ho hsame =>
      obtain ⟨hmem, heq⟩ := hsame.request hr
      exact heq.trans (ho.request h hmem)
  | refuse v t env fd events inst rc _ _ _ hwait hsame =>
      obtain ⟨hmem, heq⟩ := hsame.request hr
      cases hwait with
      | answered => exact heq
      | refused => exact heq.trans (congrArg _ (Function.update_of_ne hfresh _ _))
  | park v t env fd events inst _ _ _ _ hwait hsame =>
      obtain ⟨hmem, heq⟩ := hsame.request hr
      cases hwait with
      | parked => exact heq.trans (congrArg _ (Function.update_of_ne hfresh _ _))
  | osClose a fd _ hsame => exact (hsame.request hr).2
  | reset hl =>
      rw [hl] at hr
      cases hr

end Sys

/-! ## What an event does to the queues -/

section Queues

variable {s s' a : Rt} {t u : TaskId} {k : FdCause} {us vs : List TaskId}

/-- The tasks `us`, which waited, are appended to the run queue; only they leave the
timers. -/
structure Rt.Wakes (s s' : Rt) (us : List TaskId) : Prop where
  runq : s'.runq.items = s.runq.items ++ us
  waited : ∀ u ∈ us, u ∈ s.allTasks ∧ ¬(s.task u).awake
  timers : ∃ vs, vs.Sublist us ∧ s.timers.items.Perm (vs ++ s'.timers.items)
  idle : us = [] → s'.timers = s.timers

theorem Rt.Wakes.of_eq (hr : s'.runq = s.runq) (ht : s'.timers = s.timers) : s.Wakes s' [] where
  runq := by simp [hr]
  waited := by simp
  timers := ⟨[], .slnil, by simp [ht]⟩
  idle := fun _ => ht

theorem Rt.Wakes.one {items : List TaskId} (hr : s'.runq = s.runq.push t)
    (ht : s'.timers.items = items) (hperm : s.timers.items.Perm (t :: items))
    (hmem : t ∈ s.allTasks) (hs : ¬(s.task t).awake) : s.Wakes s' [t] where
  runq := by simp [hr, Queue.push]
  waited := by simpa using ⟨hmem, hs⟩
  timers := ⟨[t], .refl _, by simpa [ht] using hperm⟩
  idle := by simp

theorem Rt.Wakes.trans (h : s.Wakes a us) (h' : a.Wakes s' vs) (hall : a.allTasks = s.allTasks)
    (hkeep : ∀ u ∈ s.allTasks, (s.task u).awake → a.task u = s.task u) : s.Wakes s' (us ++ vs) where
  runq := by rw [h'.runq, h.runq, List.append_assoc]
  waited u hu := by
    rcases List.mem_append.mp hu with hu | hu
    · exact h.waited u hu
    · obtain ⟨hmem, hnot⟩ := h'.waited u hu
      have hmem' : u ∈ s.allTasks := hall ▸ hmem
      refine ⟨hmem', fun ha => hnot ?_⟩
      rw [hkeep u hmem' ha]
      exact ha
  timers := by
    obtain ⟨xs, hxs, hx⟩ := h.timers
    obtain ⟨ys, hys, hy⟩ := h'.timers
    refine ⟨xs ++ ys, hxs.append hys, hx.trans ?_⟩
    rw [List.append_assoc]
    exact hy.append_left xs
  idle hnil := by
    obtain ⟨rfl, rfl⟩ := List.append_eq_nil_iff.mp hnil
    exact (h'.idle rfl).trans (h.idle rfl)

theorem Rt.Wakes.congr (h : s.Wakes a us) (hr : s'.runq = a.runq) (ht : s'.timers = a.timers) :
    s.Wakes s' us where
  runq := by rw [hr, h.runq]
  waited := h.waited
  timers := by rw [ht]; exact h.timers
  idle hnil := ht.trans (h.idle hnil)

theorem Tick.wakes (hm : Tick k s s') (h : s.Inv) : ∃ us, s.Wakes s' us := by
  cases hm with
  | fd hm =>
      cases hm with
      | tape => exact ⟨[], .of_eq rfl rfl⟩
      | insert => exact ⟨[], .of_eq rfl rfl⟩
      | wake w items rc ready hw ha hperm =>
          obtain ⟨hmem, -, -, hs⟩ := h.fd.owner w hw
          exact ⟨_, .one rfl rfl hperm.perm hmem (by simp [Task.awake, hs.mp ha])⟩
  | polling => exact ⟨[], .of_eq rfl rfl⟩
  | timeout t items ht hs hin hperm =>
      exact ⟨_, .one rfl rfl hperm.perm ht (by simp [Task.awake, hs])⟩
  | wakeSleep t items ht hs hperm =>
      exact ⟨_, .one rfl rfl hperm.perm ht (by simp [Task.awake, hs])⟩

theorem Ticks.wakes (hm : Ticks k s s') (h : s.Inv) : ∃ us, s.Wakes s' us := by
  induction hm with
  | refl => exact ⟨[], .of_eq rfl rfl⟩
  | tail hms hm ih =>
      obtain ⟨us, hus⟩ := ih
      have hmoves := Shifts.moves (Ticks.shifts hms)
      obtain ⟨vs, hvs⟩ := hm.wakes (Moves.inv hmoves h)
      refine ⟨us ++ vs, hus.trans hvs (Moves.allTasks_eq hmoves) fun u hu ha => ?_⟩
      exact (Moves.woken hmoves h hu).eq_of_awake ha

theorem Rt.Inv.fdCloseBegin_wakes (h : s.Inv) (fd : Nat) :
    ∃ us, s.Wakes (s.fdCloseBegin fd).2 us := by
  obtain ⟨a, hr, hm⟩ := h.fdCloseBegin fd
  have hinv := hr.quiet.inv h
  obtain ⟨gens, tape, rfl⟩ := hr
  obtain ⟨us, hus⟩ := Ticks.wakes (FdShifts.ticks hm) hinv
  exact ⟨us, hus.runq, hus.waited, hus.timers, hus.idle⟩

theorem Rt.Inv.shutdownRunning_wakes (h : s.Inv) : ∃ us, s.Wakes s.shutdownRunning us := by
  have hinv : s.halt.Inv := h.congr (by constructor <;> rfl) rfl rfl rfl rfl
  obtain ⟨us, hus⟩ := Ticks.wakes (FdShifts.ticks h.shutdownRunning) hinv
  exact ⟨us, hus.runq, hus.waited, hus.timers, hus.idle⟩

theorem Rt.Inv.shutdownRunning_idle (h : s.Inv) {w : FdWaiterId} (hw : w ∈ s.fdWaiters) :
    (s.shutdownRunning.fdw w).state ≠ .active := by
  have hinv : s.halt.Inv := h.congr (by constructor <;> rfl) rfl rfl rfl rfl
  intro ha
  have hidle := (hinv.fdWakeSelected_idle (fun _ => true) .cancelled (List.Subset.refl _)).2 w ha
  exact absurd (hidle.2 hw) (by simp)

end Queues

namespace Sys

variable {s s' : Sys} {t : TaskId}

/-- Readiness, expiry, closing or the shutdown of a runtime that runs. -/
inductive FdEvent (s : Sys) : Act → Prop where
  | worker (v env) : s.workers v ≠ .pop → FdEvent s (.worker v env)
  | close (a env c fd) : s.pc a.agent = .called c (.fdClose fd) → FdEvent s (.cont a env)
  | halt (n env c) : s.pc (.ext n) = .called c .shutdown → s.rt.running = true →
      FdEvent s (.cont (.ext n) env)

theorem callApi_shutdown (h : s.Ok) (hr : s.rt.running = true) {n : Nat} {c : CallId} {env : Env} :
    s.callApi (.ext n) c env .shutdown = s.ret (.ext n) c .neither .ok s.rt.shutdownRunning := by
  have hinit : s.rt.initialized = true := by
    cases hinit : s.rt.initialized with
    | true => rfl
    | false => simp [(h.off hinit).2] at hr
  simp [Sys.callApi, hinit, hr]

theorem Ok.event_wakes (h : s.Ok) {act : Act} (hs : s.step act = some s') (he : s.FdEvent act) :
    ∃ us, s.rt.Wakes s'.rt us := by
  have hi := h.rest.inv
  cases he with
  | worker v env hpop =>
      obtain ⟨s₀, hp, hc⟩ := h.step_cases (a := .worker v env) trivial hs
      have hoff : s.workers v ≠ .off := fun hoff => by
        change (s.tick env.tape).workerStep v env = some s' at hs
        rw [Sys.workerStep, show (s.tick env.tape).workers v = .off from hoff] at hs
        cases hs
      obtain ⟨tape, rfl⟩ := hp.tick h hoff
      cases hc with
      | starts | startFails | exits => exact ⟨[], .of_eq rfl rfl⟩
      | descriptors os interest filters hact => simp at hact
      | loops w q lock hact hl hm =>
          obtain ⟨us, hus⟩ := Ticks.wakes hm (h.tick tape).rest.inv
          exact ⟨us, hus.runq, hus.waited, hus.timers, hus.idle⟩
      | dispatches w env t q hw => exact absurd hw hpop
  | close a env c fd hpc =>
      obtain ⟨us, hus⟩ := (h.tick env.tape).rest.inv.fdCloseBegin_wakes fd
      rw [callApi_of_step hpc hs]
      simp only [Sys.callApi]
      generalize (s.tick env.tape).rt.fdCloseBegin fd = r at hus
      obtain ⟨rc, rt⟩ := r
      refine ⟨us, Rt.Wakes.congr ⟨hus.runq, hus.waited, hus.timers, hus.idle⟩ ?_ ?_⟩ <;>
        cases rc <;> rfl
  | halt n env c hpc hr =>
      obtain ⟨us, hus⟩ := (h.tick env.tape).rest.inv.shutdownRunning_wakes
      rw [callApi_of_step (a := .ext n) hpc hs, callApi_shutdown (h.tick env.tape) hr]
      exact ⟨us, hus.runq, hus.waited, hus.timers, hus.idle⟩

end Sys

/-! ## The course of a wait -/

/-- An `mt_fd_wait` that has parked: the task, its call, its waiter and its request. -/
structure FdCall where
  task : TaskId
  call : CallId
  waiter : FdWaiterId
  use : WaitUse
  fd : Nat
  events : Nat

/-- The stages of a wait. -/
inductive FdPhase where
  | waiting
  | ended (rc : Rc) (ready : Nat)
  | finished

/-- The task is parked on a new waiter with its request. -/
theorem Rt.FdWaits.parked_eq {s r : Rt} {t : TaskId} {fd events : Nat} {inst : Option Nat}
    (hw : FdWaits s t fd events inst .park r) : (r.task t).state = .waitingFd ∧
      s.nextAddr ∈ r.fdWaiters ∧ (r.fdw s.nextAddr).task = t ∧
      (r.fdw s.nextAddr).request = (fd, events) ∧ r.allTasks = s.allTasks := by
  cases hw with
  | parked => simp [Rt.parkFd, waiterFor, FdWaiter.request]

theorem Parks.fd_waits {t : TaskId} {c c' : CallId} {w : FdWaiterId} {use : WaitUse} {q p : Pc}
    {s s' : Rt} (hp : Parks t c q s p s') (hpc : p = .fdPark c' w use) :
    ∃ fd events inst, q.waitsFor = some (fd, events) ∧ w = s.nextAddr ∧
      FdWaits s t fd events inst .park s' := by
  cases hp with
  | fd timers wakeNs x use _ hq hfd hperm hwait =>
      obtain ⟨fd, events, inst, hreq, hwait⟩ := hwait
      cases hpc
      exact ⟨fd, events, inst, hreq, rfl, hwait⟩
  | _ => cases hpc

namespace Sys

variable {s s' : Sys} {k : FdCall} {rc : Rc} {ready : Nat}

/-- The call is parked and its waiter is linked. -/
structure InWait (s : Sys) (k : FdCall) : Prop where
  mem : k.task ∈ s.rt.allTasks
  pc : s.pc (.task k.task) = .fdPark k.call k.waiter k.use
  linked : k.waiter ∈ s.rt.fdWaiters
  owner : (s.rt.fdw k.waiter).task = k.task
  request : (s.rt.fdw k.waiter).request = (k.fd, k.events)

/-- The state fits the stage of the wait. While it waits, the task is in the timers and not
in the run queue, and its waiter is active. When the wait has ended, the result is in the
task's record, the waiter is reserved, and the task is out of the timers and in the run
queue, once, unless a worker has it already. -/
def FdAt (s : Sys) (k : FdCall) : FdPhase → Prop
  | .waiting => s.InWait k ∧ (s.rt.task k.task).state = .waitingFd ∧
      (s.rt.fdw k.waiter).state = .active ∧ s.rt.timers.items.count k.task = 1 ∧
      k.task ∉ s.rt.runq.items
  | .ended rc ready => s.InWait k ∧ (s.rt.task k.task).fdResult = rc ∧
      (s.rt.task k.task).fdReadyEvents = ready ∧ (s.rt.fdw k.waiter).state = .readyReserved ∧
      k.task ∉ s.rt.timers.items ∧
      (((s.rt.task k.task).state = .ready ∧ s.rt.runq.items.count k.task = 1) ∨
        ((∃ v, s.workers v = .running k.task) ∧ k.task ∉ s.rt.runq.items))
  | .finished => True

theorem InWait.fdWaiter (hk : s.InWait k) (h : s.Ok) :
    (s.rt.task k.task).fdWaiter = some k.waiter :=
  ((h.fits k.task hk.mem).fdWaiter k.waiter).mpr ⟨k.call, k.use, hk.pc⟩

theorem InWait.waiting (hk : s.InWait k) (h : s.Ok) (hs : (s.rt.task k.task).state = .waitingFd) :
    s.FdAt k .waiting := by
  have hi := h.rest.inv
  have hslot : (s.rt.task k.task).slot = some .timers := by
    simp [Task.slot, hs, (hi.fd.waiting k.task hk.mem hs).1]
  refine ⟨hk, hs, ?_, hi.task.placed.count_eq_one hk.mem hslot, fun hmem => ?_⟩
  · rw [(hi.fd.owner k.waiter hk.linked).2.2.2, hk.owner]
    exact hs
  · simp [(hi.mem_runq hmem).2] at hs

theorem InWait.ended (hk : s.InWait k) (h : s.Ok) (ha : (s.rt.task k.task).awake) :
    s.FdAt k (.ended (s.rt.task k.task).fdResult (s.rt.task k.task).fdReadyEvents) := by
  have hi := h.rest.inv
  have howner := hi.fd.owner k.waiter hk.linked
  rw [hk.owner] at howner
  have hnot : (s.rt.fdw k.waiter).state ≠ .active := fun hactive => by
    rcases ha with ha | ha <;> simp [howner.2.2.2.mp hactive] at ha
  have hslot : (s.rt.task k.task).slot ≠ some .timers := by
    rcases ha with ha | ha <;> simp [Task.slot, ha]
  refine ⟨hk, rfl, rfl, ?_, fun hmem => hslot ((hi.task.placed.mem .timers k.task).mp hmem).2, ?_⟩
  · cases hst : (s.rt.fdw k.waiter).state with
    | active => exact absurd hst hnot
    | removed => exact absurd hst howner.2.2.1
    | readyReserved => rfl
  · rcases ha with ha | ha
    · exact .inl ⟨ha, hi.task.placed.count_eq_one (k := .runq) hk.mem (by simp [Task.slot, ha])⟩
    · refine .inr ⟨(h.runs k.task).mp ⟨hk.mem, ha⟩, fun hmem => ?_⟩
      simp [(hi.mem_runq hmem).2] at ha

/-- The place and the request of the call outlast every step but its own. -/
theorem InWait.step {act : Act} (hk : s.InWait k) (h : s.Ok) (h' : s'.Ok) (hc : Case s act s')
    (hmem : k.task ∈ s'.rt.allTasks) (hpc : s'.pc (.task k.task) = s.pc (.task k.task)) :
    s'.InWait k := by
  have hpc' : s'.pc (.task k.task) = .fdPark k.call k.waiter k.use := hpc.trans hk.pc
  have hfd := ((h'.fits k.task hmem).fdWaiter k.waiter).mpr ⟨k.call, k.use, hpc'⟩
  obtain ⟨hlinked, howner⟩ := h'.rest.inv.fd.linked k.task hmem k.waiter hfd
  refine ⟨hmem, hpc', hlinked, howner, ?_⟩
  rw [(hc.watch h).request h.rest.inv hk.linked hlinked, hk.request]

theorem InWait.not_fresh (hk : s.InWait k) : s.pc (.task k.task) ≠ .fresh := by
  simp [hk.pc]

theorem InWait.not_finish (hk : s.InWait k) {act : Act} (hc : Case s act s') (v : Nat) :
    act ≠ .finish v k.task := by
  rintro rfl
  cases hc with
  | finishes w u hw hl hpc => simp [hk.pc] at hpc
  | descriptors os interest filters hact => simp at hact
  | loops w q lock hact => simp at hact

theorem Case.running_of_cont {v : Nat} {t : TaskId} {env : Env}
    (hc : Case s (.cont (.task v t) env) s') : s.workers v = .running t := by
  cases hc with
  | acts a env c o p es os sel hen => exact enabled_task.mp hen
  | resumesFd w u env c x use o p es hw | returns w u env c rc sel hw | goesOn w u env hw
  | parks w u env c p hw => exact hw
  | descriptors os interest filters hact => simp at hact
  | loops w q lock hact => simp at hact

/-- A wait goes on, or one of the events ends it, or the runtime is shut down. -/
theorem waiting_step {act : Act} (hk : s.FdAt k .waiting) (h : s.Ok) (h' : s'.Ok)
    (hu : s.rt.UpToDateOn fun _ => True) (hc : Case s act s') :
    s'.FdAt k .waiting ∨
      (∃ rc ready, s.Ends k.task k.fd k.events act rc ready ∧ s'.FdAt k (.ended rc ready)) ∨
      s.Kills k.task act := by
  obtain ⟨hin, hs, -⟩ := hk
  rcases hc.stays h hin.mem with ⟨v, hf⟩ | hkill | hmem
  · exact absurd hf (hin.not_finish hc v)
  · exact .inr (.inr hkill)
  have hpc : s'.pc (.task k.task) = s.pc (.task k.task) := by
    rcases hc.pc_kept hin.not_fresh with ha | hpc
    · rcases hc.own_parked (by rw [hin.pc]; rfl) ha with ⟨v, env, rfl⟩ | ⟨hpc, -⟩
      · simp [((h.runs k.task).mpr ⟨v, hc.running_of_cont⟩).2] at hs
      · exact congrFun hpc _
    · exact hpc
  have hin' := hin.step h h' hc hmem hpc
  rcases hc.answers h h' hu hin.mem hmem hs (hin.fdWaiter h) with heq | ⟨rc, ready, hends, heq⟩
  · exact .inl (hin'.waiting h' (by rw [heq]; exact hs))
  · have hreq := hin.request
    simp only [FdWaiter.request, Prod.mk.injEq] at hreq
    rw [hreq.1, hreq.2] at hends
    have hended := hin'.ended h' (.inl (by rw [heq]; rfl))
    rw [heq] at hended
    exact .inr (.inl ⟨rc, ready, hends, hended⟩)

/-- What a wait has ended with stays until the task resumes. -/
theorem ended_step {act : Act} (hk : s.FdAt k (.ended rc ready)) (h : s.Ok) (h' : s'.Ok)
    (hc : Case s act s') : s'.FdAt k (.ended rc ready) ∨
      (∃ v env, act = .cont (.task v k.task) env) ∨ s.Kills k.task act := by
  obtain ⟨hin, rfl, rfl, -, -, hplace⟩ := hk
  have haw : (s.rt.task k.task).awake := by
    rcases hplace with ⟨hready, -⟩ | ⟨hrun, -⟩
    · exact .inl hready
    · exact .inr ((h.runs k.task).mpr hrun).2
  rcases hc.stays h hin.mem with ⟨v, hf⟩ | hkill | hmem
  · exact absurd hf (hin.not_finish hc v)
  · exact .inr (.inr hkill)
  by_cases ha : act.agent? = some (.task k.task)
  · rcases hc.own_parked (by rw [hin.pc]; rfl) ha with hcont | ⟨hpc, htask, -⟩
    · exact .inr (.inl hcont)
    · have hin' := hin.step h h' hc hmem (congrFun hpc _)
      rw [← htask] at haw ⊢
      exact .inl (hin'.ended h' haw)
  · have hin' := hin.step h h' hc hmem ((hc.pc_kept hin.not_fresh).resolve_left ha)
    have hstep := ((hc.recorded h hmem).resolve_right fun hnew => by
      simp [(h.rest.inv.heap.task k.task hin.mem).1] at hnew).2
    have hsame := hstep.sameResults ha haw
    rw [← hsame.fdResult, ← hsame.fdReadyEvents]
    exact .inl (hin'.ended h' (hstep.awake ha haw))

/-! ## Events that always end the wait -/

/-- A worker handles a report that reaches the waiter, or looks at the timers when the time of
the wait has come; the task is cancelled, its descriptor closed or the runtime told to stop. -/
inductive Strikes (s : Sys) (k : FdCall) : Act → Prop where
  | ready (v env c batch) : s.workers v = .polled c batch → s.rt.Reached k.waiter batch →
      Strikes s k (.worker v env)
  | expiry (v env) : s.workers v = .top → s.rt.stopping = false →
      (s.rt.task k.task).wakeNs ≤ env.nowNs → Strikes s k (.worker v env)
  | cancel (a env c x) : s.pc a.agent = .called c (.cancel x) →
      (s.rt.handle x).task = some k.task → Strikes s k (.cont a env)
  | close (a env c) : s.pc a.agent = .called c (.fdClose k.fd) →
      ((s.tick env.tape).rt.fdCloseBegin k.fd).1 = .ok → Strikes s k (.cont a env)
  | halt (n env c) : s.pc (.ext n) = .called c .shutdown → s.rt.running = true →
      Strikes s k (.cont (.ext n) env)

theorem not_waiting_of_inactive {r : Rt} (h' : s'.Ok) (hk : s'.InWait k) (hfdw : s'.rt.fdw = r.fdw)
    (hidle : (r.fdw k.waiter).state = .active → False) :
    (s'.rt.task k.task).state ≠ .waitingFd := by
  intro hs
  have howner := (h'.rest.inv.fd.owner k.waiter hk.linked).2.2.2
  rw [hk.owner, hfdw] at howner
  exact hidle (howner.mpr hs)

/-- The worker that holds a report dispatches it. -/
theorem polled_dispatches {v : Nat} {env : Env} {c : PollCont} {batch : List ReadyEvent}
    (hv : s.workers v = .polled c batch) (hs : s.step (.worker v env) = some s') :
    s'.rt.fdw = ((s.tick env.tape).rt.backendDispatch batch).fdw := by
  change (s.tick env.tape).workerStep v env = some s' at hs
  have hv' : (s.tick env.tape).workers v = .polled c batch := hv
  simp only [workerStep, hv'] at hs
  split at hs
  · cases hs
  · cases hs
    cases c <;> rfl

theorem Strikes.ends {act : Act} (hst : s.Strikes k act) (hk : s.FdAt k .waiting)
    (hr : machine.Reach (Under Fed) s) (hok : s.Contract act) (hs : s.step act = some s')
    (h' : s'.Ok) (hk' : s'.InWait k) : (s'.rt.task k.task).state ≠ .waitingFd := by
  have hin := hk.1
  have h := ok_of_under hr
  cases hst with
  | ready v env c batch hv hreach =>
      have hpoised : (s.tick env.tape).rt.Poised :=
        ⟨(h.tick env.tape).rest.inv, (orderly_of_reach hr).congr rfl (fun _ _ => rfl) rfl⟩
      exact not_waiting_of_inactive h' hk' (polled_dispatches hv hs)
        (hpoised.reached hreach hin.linked)
  | expiry v env hv hstop hdue =>
      have hmem : k.task ∈ s.rt.timers.items := by
        rw [← List.count_pos_iff, hk.2.2.2.1]
        exact Nat.one_pos
      rw [due_expires (hr.mono fun _ _ hc => hc.1) hv hstop hs hmem hdue]
      simp [expiredTask, hk.2.1]
  | cancel a env c x hpc hx =>
      simp only [Contract, SectionOk, hpc] at hok
      have hok₀ := h.tick env.tape
      obtain ⟨-, hcall⟩ := hok₀.rest.inv.taskCancel hok₀.rest.noDead hok
      rw [callApi_of_step hpc hs]
      simp only [Sys.callApi]
      change (((s.tick env.tape).rt.taskCancel x).2.task k.task).state ≠ .waitingFd
      rcases hcall.answers hok₀.rest.inv hin.mem hk.2.1 (hin.fdWaiter h) with ⟨hcomp, -⟩ | ⟨-, heq⟩
      · have hnot := hok₀.rest.inv.not_completed hok hx
        simp [hcomp hx] at hnot
      · rw [heq]
        simp [Task.answered]
  | close a env c hpc hrc =>
      rcases (h.tick env.tape).rest.inv.fdCloseBegin_cases k.fd with ⟨hne, -⟩ | ⟨_, -, -, hidle⟩
      · exact absurd hrc hne
      have hreq := hk'.request
      have hlinked := hk'.linked
      have heq := callApi_of_step hpc hs
      simp only [Sys.callApi] at heq
      generalize (s.tick env.tape).rt.fdCloseBegin k.fd = r at hrc hidle heq
      obtain ⟨rc, rt⟩ := r
      subst hrc
      have hrt : s'.rt = rt := by rw [heq]; rfl
      refine not_waiting_of_inactive h' hk' (congrArg Rt.fdw hrt) fun ha => ?_
      rw [hrt] at hreq hlinked
      exact hidle k.waiter hlinked ha (congrArg Prod.fst hreq)
  | halt n env c hpc hr =>
      have hidle := (h.tick env.tape).rest.inv.shutdownRunning_idle (w := k.waiter) hin.linked
      have heq := callApi_of_step (a := .ext n) hpc hs
      rw [callApi_shutdown (h.tick env.tape) hr] at heq
      exact not_waiting_of_inactive (r := (s.tick env.tape).rt.shutdownRunning) h' hk'
        (by rw [heq]; rfl) hidle

/-! ## The call returns -/

/-- The resumed task returns from its wait: the result, the value left in `*ready_events`,
and a state without a waiter or a timer of the task. -/
def Returned (s : Sys) (k : FdCall) (rc : Rc) (ready : Nat) (act : Act) (s' : Sys) : Prop :=
  ∃ v env rt, act = .cont (.task v k.task) env ∧
    (s.tick env.tape).rt.fdWaitFinish k.task k.waiter = (rc, if rc = .ok then ready else 0, rt) ∧
    s' = (s.tick env.tape).waitReturn (.task v k.task) k.call rc rt k.use ∧
    k.waiter ∉ s'.rt.fdWaiters ∧ (∀ w ∈ s'.rt.fdWaiters, (s'.rt.fdw w).task ≠ k.task) ∧
    k.task ∉ s'.rt.timers.items

theorem returned_of_cont {v : Nat} {env : Env} (hk : s.FdAt k (.ended rc ready)) (h : s.Ok)
    (hs : s.step (.cont (.task v k.task) env) = some s') (h' : s'.Ok) :
    s.Returned k rc ready (.cont (.task v k.task) env) s' := by
  obtain ⟨hin, rfl, rfl, -, htimers, -⟩ := hk
  have hpc : (s.tick env.tape).pc (.task k.task) = .fdPark k.call k.waiter k.use := hin.pc
  simp only [Sys.step] at hs
  split at hs
  · next hen =>
      change (s.tick env.tape).continueCall (.task v k.task) env = some s' at hs
      simp only [Sys.continueCall, Actor.agent, hpc] at hs
      split at hs
      · cases hs
      have hrun : s.rt.Runs k.task := (h.runs k.task).mpr ⟨v, enabled_task.mp hen⟩
      have hfin := (h.tick env.tape).rest.inv.fdWaitFinish hrun.1 hrun.2 (hin.fdWaiter h)
      have hfinish : (s.tick env.tape).rt.fdWaitFinish k.task k.waiter =
          ((s.rt.task k.task).fdResult, if (s.rt.task k.task).fdResult = .ok then
            (s.rt.task k.task).fdReadyEvents else 0, (s.tick env.tape).rt.finishFd k.task k.waiter) := by
        rw [← hfin]
        rfl
      rw [hfinish] at hs
      have heq := (Option.some.inj hs).symm
      obtain ⟨es, hrt⟩ := (s.tick env.tape).waitReturn_rt (.task v k.task) k.call
        (s.rt.task k.task).fdResult ((s.tick env.tape).rt.finishFd k.task k.waiter) k.use
      rw [← heq] at hrt
      refine ⟨v, env, _, rfl, hfinish, heq, ?_, fun w hw htask => ?_, ?_⟩
      · rw [hrt]
        exact h.rest.inv.fd.nodup.not_mem_erase
      · have hown := (h'.rest.inv.fd.owner w hw).2.1
        rw [htask, hrt] at hown
        simp [Rt.finishFd] at hown
      · rw [hrt]
        exact htimers
  · cases hs

/-! ## Every run follows the course of a wait -/

/-- The course of a wait that parked in `s₀`, along a run that has come to the given state. The
first event ends the wait. What comes later leaves the result alone and, if it is an event,
touches the queues only to wake other tasks; a task that is cancelled once it is ready again
and a runtime that is shut down while it does not run are destroyed with their waits. -/
inductive Course (s₀ : Sys) (k : FdCall) : List (Sys × Act) → Sys → FdPhase → Prop where
  | parked : Course s₀ k [] s₀ .waiting
  | waits {l s act s'} : Course s₀ k l s .waiting → s.step act = some s' → ¬s.Strikes k act →
      Course s₀ k (l ++ [(s, act)]) s' .waiting
  | ends {l s act s' rc ready} : Course s₀ k l s .waiting → s.step act = some s' →
      s.Ends k.task k.fd k.events act rc ready → Course s₀ k (l ++ [(s, act)]) s' (.ended rc ready)
  | keeps {l s act s' rc ready} : Course s₀ k l s (.ended rc ready) → s.step act = some s' →
      (s.FdEvent act → ∃ us, s.rt.Wakes s'.rt us ∧ k.task ∉ us) →
      Course s₀ k (l ++ [(s, act)]) s' (.ended rc ready)
  | returns {l s act s' rc ready} : Course s₀ k l s (.ended rc ready) → s.step act = some s' →
      s.Returned k rc ready act s' → Course s₀ k (l ++ [(s, act)]) s' .finished
  | killed {l s act s' p} : Course s₀ k l s p → s.step act = some s' → s.Kills k.task act →
      Course s₀ k (l ++ [(s, act)]) s' .finished
  | after {l s act s'} : Course s₀ k l s .finished → s.step act = some s' →
      Course s₀ k (l ++ [(s, act)]) s' .finished

theorem Ends.of_tick {t : TaskId} {fd events : Nat} {act : Act} {tape : List Bool}
    (he : (s.tick tape).Ends t fd events act rc ready) : s.Ends t fd events act rc ready := by
  cases he with
  | ready v env k batch e _ h1 h2 h3 h4 h5 => exact .ready v env k batch e ready h1 h2 h3 h4 h5
  | invalid v env k batch e h1 h2 h3 h4 => exact .invalid v env k batch e h1 h2 h3 h4
  | expiry v env h1 h2 => exact .expiry v env h1 h2
  | cancel a env c x h1 h2 => exact .cancel a env c x h1 h2
  | close a env c h1 => exact .close a env c h1
  | halt n env c h1 h2 => exact .halt n env c h1 h2

theorem Kills.of_tick {t : TaskId} {act : Act} {tape : List Bool}
    (hk : (s.tick tape).Kills t act) : s.Kills t act := by
  cases hk with
  | cancel a env c x h1 h2 h3 => exact .cancel a env c x h1 h2 h3
  | shutdown n env c h1 h2 h3 => exact .shutdown n env c h1 h2 h3

theorem InWait.tick {tape : List Bool} (hk : s.InWait k) : (s.tick tape).InWait k :=
  ⟨hk.mem, hk.pc, hk.linked, hk.owner, hk.request⟩

theorem Course.step {s₀ : Sys} {l : List (Sys × Act)} {p : FdPhase} {act : Act}
    (hk : s₀.Course k l s p) (hat : s.FdAt k p) (hr : machine.Reach (Under Fed) s)
    (hok : s.Contract act) (hs : s.step act = some s') :
    ∃ p', s₀.Course k (l ++ [(s, act)]) s' p' ∧ s'.FdAt k p' := by
  have h := ok_of_under hr
  have hu := (orderly_of_reach hr).upToDate
  obtain ⟨s₁, hprep, hc⟩ := h.step_cases hok hs
  have h' : s'.Ok := hc.ok (hprep.ok h)
  cases p with
  | finished => exact ⟨.finished, .after hk hs, trivial⟩
  | waiting =>
      obtain ⟨tape, rfl⟩ := hprep.tick_of_mem h hat.1.mem
      have hat₁ : (s.tick tape).FdAt k .waiting := ⟨hat.1.tick, hat.2⟩
      rcases waiting_step hat₁ (h.tick tape) h' hu hc with hat' | ⟨rc, ready, he, hat'⟩ | hkill
      · exact ⟨_, .waits hk hs fun hst => hst.ends hat hr hok hs h' hat'.1 hat'.2.1, hat'⟩
      · exact ⟨_, .ends hk hs he.of_tick, hat'⟩
      · exact ⟨.finished, .killed hk hs hkill.of_tick, trivial⟩
  | ended rc ready =>
      obtain ⟨tape, rfl⟩ := hprep.tick_of_mem h hat.1.mem
      have hat₁ : (s.tick tape).FdAt k (.ended rc ready) := ⟨hat.1.tick, hat.2⟩
      rcases ended_step hat₁ (h.tick tape) h' hc with hat' | ⟨v, env, rfl⟩ | hkill
      · refine ⟨_, .keeps hk hs fun he => ?_, hat'⟩
        obtain ⟨us, hus⟩ := h.event_wakes hs he
        refine ⟨us, hus, fun hmem => (hus.waited k.task hmem).2 ?_⟩
        rcases hat.2.2.2.2.2 with ⟨hready, -⟩ | ⟨hrun, -⟩
        · exact .inl hready
        · exact .inr ((h.runs k.task).mpr hrun).2
      · exact ⟨.finished, .returns hk hs (returned_of_cont hat h hs h'), trivial⟩
      · exact ⟨.finished, .killed hk hs hkill.of_tick, trivial⟩

/-- A task that parks on a descriptor waits there. -/
theorem Case.parks_waiting {v : Nat} {t : TaskId} {env : Env}
    (hc : Case s (.cont (.task v t) env) s') (h : s.Ok)
    (hreq : (s.pc (.task t)).waitsFor = some (k.fd, k.events)) (ht : k.task = t)
    (hpark : s'.pc (.task t) = .fdPark k.call k.waiter k.use) : s'.FdAt k .waiting := by
  have h' := hc.ok h
  cases hc with
  | acts a env c o p es os sel hen _ _ _ _ _ hon =>
      have hp : p = .fdPark k.call k.waiter k.use := (Function.update_self ..).symm.trans hpark
      subst hp
      cases hon with
      | on _ _ hnp => cases hnp
  | resumesFd w u env c x use o p es hw hpc => simp [hpc, Pc.waitsFor] at hreq
  | returns | goesOn => simp [Sys.setPc] at hpark
  | @parks w u env c p rt b hw hl hcall hnp hp hm =>
      have hp' : p = .fdPark k.call k.waiter k.use := (Function.update_self ..).symm.trans hpark
      have hr := (h.runs t).mpr ⟨v, hw⟩
      obtain ⟨fd, events, inst, hreq', hwaiter, hwait⟩ := hp.fd_waits hp'
      obtain ⟨rfl, rfl⟩ := Prod.mk.inj (Option.some.inj (hreq.symm.trans hreq'))
      obtain ⟨hs, hlinked, howner, hrequest, hall⟩ := hwait.parked_eq
      have hleave : FdSame rt rt.leave := .of_eq rfl rfl rfl rfl rfl
      have hsame := hleave.trans hm.fdSame
      have htask : b.task = rt.task := hm.task_eq
      subst ht
      rw [← hwaiter] at hlinked howner hrequest
      rw [← hsame.record _ hlinked] at howner hrequest
      rw [← hsame.list] at hlinked
      refine InWait.waiting ⟨?_, hpark, hlinked, howner, hrequest⟩ h' ?_
      · change k.task ∈ b.allTasks
        rw [hm.allTasks_eq]
        exact hall ▸ hr.1
      · change (b.task k.task).state = .waitingFd
        rw [htask]
        exact hs
  | descriptors os interest filters hact => simp at hact
  | loops w q lock hact => simp at hact

end Sys

end Microthread
