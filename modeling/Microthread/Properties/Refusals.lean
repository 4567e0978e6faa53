import Microthread.System.Requests
import Microthread.Properties.Waits

/-!
# Who stands in the way at a descriptor

A waiter stays linked until the task that waits has gone on, and as long as it is linked it keeps
others from waiting for the same event at its number and from releasing the descriptor. The
number is all that is compared, so closing the descriptor does not help, and neither does a new
one under the same number.
-/

namespace Microthread

open Foundation Rt

namespace Sys

variable {s s' : Sys} {act : Act} {t : TaskId} {c : CallId} {w : FdWaiterId} {use : WaitUse}

/-- A task that is parked on a descriptor was so before, or it has just asked for it. -/
theorem Case.parks_fd (hc : Case s act s') (hpark : s'.pc (.task t) = .fdPark c w use) :
    s.pc (.task t) = .fdPark c w use ∨ ∃ v env fd events,
      act = .cont (.task v t) env ∧ (s.pc (.task t)).waitsFor = some (fd, events) := by
  have other : ∀ {k : Agent} {p : Pc}, s'.pc = Function.update s.pc k p → p.parked = false →
      s.pc (.task t) = .fdPark c w use := by
    intro k p hpc hp
    rw [hpc] at hpark
    by_cases hk : .task t = k
    · subst hk
      rw [Function.update_self] at hpark
      rw [hpark] at hp
      cases hp
    · rwa [Function.update_of_ne hk] at hpark
  have onward : ∀ {q p : Pc} {r : Rt} {o : Option (Role × Rc)} {es : List Event} {d : CallId},
      Onward d q r o p es → p.parked = false := by
    intro q p r o es d hon
    cases hon with
    | on _ _ hnp => exact hnp
    | out => rfl
  cases hc with
  | calls a call => exact .inl (other rfl rfl)
  | acts a env c o p es os sel hen _ _ _ _ _ hon => exact .inl (other rfl (onward hon))
  | resumesFd v u env c x use o p es hv _ _ hon => exact .inl (other rfl (onward hon))
  | parks v u env c p hv hl hcall hnp hp =>
      by_cases hu : t = u
      · subst hu
        have hpark : Function.update s.pc (.task t) p (.task t) = _ := hpark
        rw [Function.update_self] at hpark
        obtain ⟨fd, events, -, hwaits, -⟩ := hp.fd_waits hpark
        exact .inr ⟨v, env, fd, events, rfl, hwaits⟩
      · have hpark : Function.update s.pc (.task u) p (.task t) = _ := hpark
        rw [Function.update_of_ne (by simpa using hu)] at hpark
        exact .inl hpark
  | dispatches v env u =>
      by_cases hu : t = u
      · subst hu
        have hpark : Function.update s.pc (.task t) _ (.task t) = _ := hpark
        rw [Function.update_self] at hpark
        split at hpark
        · cases hpark
        · exact .inl hpark
      · have hpark : Function.update s.pc (.task u) _ (.task t) = _ := hpark
        rw [Function.update_of_ne (by simpa using hu)] at hpark
        exact .inl hpark
  | returns | goesOn | finishes | runBegins | runPrepares | runFails | spawns | launches | aborts
  | runEnds | abortEnds | halts | shutsDown => exact .inl (other rfl rfl)
  | _ => exact .inl hpark

/-- The waiter of a parked call waits for what the call was made for. -/
def Requested (s : Sys) : Prop := ∀ t ∈ s.rt.allTasks, ∀ c w use call,
  s.pc (.task t) = .fdPark c w use → s.calls c = some (.task t, call) →
    call.waitsFor = some (s.rt.fdw w).request

theorem requested_of_reach (h : machine.Reach Contract s) : s.Requested := by
  refine h.invariant (fun s hs => ?_) fun s act s' hr ih hact hs t ht c w use call hpark hcall => ?_
  · obtain ⟨kind, rfl⟩ := hs
    intro t ht
    cases ht
  · have hok := ok_of_reach (fun _ _ hc => hc) hr
    obtain ⟨s₀, hp, hcase⟩ := hok.step_cases hact hs
    have hok₀ := hp.ok hok
    have hok' := hcase.ok hok₀
    have hrecalled := recalled_of_reach hr
    have hpc : s₀.pc = s.pc := by
      obtain ⟨tape, rfl | rfl⟩ := hp <;> rfl
    have hcalls : ∀ d, d < s.nextCall → s'.calls d = s.calls d := by
      intro d hd
      have heq : s₀.calls = s.calls ∧ s₀.nextCall = s.nextCall := by
        obtain ⟨tape, rfl | rfl⟩ := hp <;> exact ⟨rfl, rfl⟩
      rcases hcase.calls_eq with ⟨a, call', -, rfl⟩ | hsame
      · change Function.update s₀.calls s₀.nextCall _ d = _
        rw [heq.2, Function.update_of_ne hd.ne, heq.1]
      · rw [hsame, heq.1]
    have hfd := ((hok'.fits t ht).fdWaiter w).mpr ⟨c, use, hpark⟩
    rcases hcase.parks_fd hpark with hold | ⟨v, env, fd, events, rfl, hwaits⟩
    · have ht₀ : t ∈ s₀.rt.allTasks := by
        rcases hcase.recorded hok₀ ht with ⟨hmem, -⟩ | ⟨-, id, x, hnew⟩
        · exact hmem
        · rw [hnew] at hfd
          cases hfd
      obtain ⟨tape, rfl⟩ : ∃ tape, s₀ = s.tick tape := by
        rcases hp.cases hok with htick | ⟨-, -, rt, hb, rfl⟩
        · exact htick
        · rw [hb.off.allTasks] at ht₀
          cases ht₀
      have hlt := (booked_of_reach hr).opened (.task t) c (by rw [show s.pc _ = _ from hold]; rfl)
      rw [hcalls c hlt] at hcall
      have hreq := ih t ht₀ c w use call hold hcall
      have hfd₀ := ((hok₀.fits t ht₀).fdWaiter w).mpr ⟨c, use, hold⟩
      have hlinked := (hok₀.rest.inv.fd.linked t ht₀ w hfd₀).1
      have hlinked' := (hok'.rest.inv.fd.linked t ht w hfd).1
      rw [hreq]
      exact congrArg some ((hcase.watch hok₀).request hok₀.rest.inv hlinked hlinked').symm
    · let k : FdCall := ⟨t, c, w, use, fd, events⟩
      have hat : s'.FdAt k .waiting := hcase.parks_waiting (k := k) hok₀ hwaits rfl hpark
      rw [hpc] at hwaits
      rcases hcase.call_of (g := .task t) (c := c) (by rw [hpark]; rfl) with hold | ⟨a, call', ha, -, rfl⟩
      · rw [hpc] at hold
        obtain ⟨call₀, hcall₀, hasked⟩ := hrecalled _ _ hold
        have hlt := (booked_of_reach hr).opened _ _ hold
        rw [hcalls c hlt, hcall₀] at hcall
        cases hcall
        rw [hasked _ (Pc.asked_of_waitsFor hwaits)]
        exact congrArg some hat.1.request.symm
      · have hself : (s₀.enter a call').pc a.agent = .called s₀.nextCall call' :=
          Function.update_self ..
        rw [← ha, hpark] at hself
        cases hself

/-! ## Reservations -/

/-- A call of the task that waits for `events` at `fd` has parked and not returned. -/
def ReservedBy (s : Sys) (t : TaskId) (fd events : Nat) : Prop :=
  t ∈ s.rt.allTasks ∧ ∃ c w use call, s.pc (.task t) = .fdPark c w use ∧
    s.calls c = some (.task t, call) ∧ call.waitsFor = some (fd, events)

/-- Such a call waits for one of the events. -/
def Reserved (s : Sys) (fd events : Nat) : Prop :=
  ∃ t ev, s.ReservedBy t fd ev ∧ ev &&& events ≠ 0

theorem conflicts_iff_reserved (h : machine.Reach Contract s) {fd events : Nat} :
    s.rt.fdWaiterConflicts fd events = true ↔ s.Reserved fd events := by
  have hok := ok_of_reach (fun _ _ hc => hc) h
  have hfd := hok.rest.inv.fd
  simp only [Rt.fdWaiterConflicts, List.any_eq_true, Bool.and_eq_true, beq_iff_eq, bne_iff_ne]
  constructor
  · rintro ⟨w, hw, ⟨-, hwfd⟩, hev⟩
    obtain ⟨ht, hown, -⟩ := hfd.owner w hw
    obtain ⟨c, use, hpc⟩ := ((hok.fits _ ht).fdWaiter w).mp hown
    obtain ⟨call, hcall, -⟩ := recalled_of_reach h _ c (by rw [hpc]; rfl)
    have hreq := requested_of_reach h _ ht c w use call hpc hcall
    refine ⟨_, (s.rt.fdw w).events, ⟨ht, c, w, use, call, hpc, hcall, ?_⟩, hev⟩
    rw [hreq, FdWaiter.request, hwfd]
  · rintro ⟨t, ev, ⟨ht, c, w, use, call, hpc, hcall, hwaits⟩, hev⟩
    have hown := ((hok.fits t ht).fdWaiter w).mpr ⟨c, use, hpc⟩
    obtain ⟨hlinked, -⟩ := hfd.linked t ht w hown
    have hreq := requested_of_reach h t ht c w use call hpc hcall
    obtain ⟨rfl, rfl⟩ := Prod.mk.inj (Option.some.inj (hwaits.symm.trans hreq))
    refine ⟨w, hlinked, ⟨?_, rfl⟩, hev⟩
    have hstate := (hfd.owner w hlinked).2.2.1
    unfold Rt.fdWaiterReservesConflict
    cases hst : (s.rt.fdw w).state with
    | removed => exact absurd hst hstate
    | active | readyReserved => rfl

/-- A reservation lasts until the task goes on. -/
theorem ReservedBy.step {fd events : Nat} (hk : s.ReservedBy t fd events)
    (h : machine.Reach Contract s) (hact : s.Contract act) (hs : machine.step s act = some s')
    (hown : ∀ v env, act ≠ .cont (.task v t) env) (hkill : ¬s.Kills t act) :
    s'.ReservedBy t fd events := by
  obtain ⟨ht, c, w, use, call, hpc, hcall, hwaits⟩ := hk
  have hok := ok_of_reach (fun _ _ hc => hc) h
  obtain ⟨s₀, hp, hcase⟩ := hok.step_cases hact hs
  obtain ⟨tape, rfl⟩ := hp.tick_of_mem hok ht
  have hcases : (∃ a env, act = .cont a env ∧ a.agent = .task t) → False := by
    rintro ⟨a, env, rfl, ha⟩
    cases a with
    | task v u =>
        cases ha
        exact hown v env rfl
    | ext n => cases ha
  have hfresh : s.pc (.task t) ≠ .fresh := by
    rw [hpc]
    simp
  have hpc' : s'.pc (.task t) = s.pc (.task t) := by
    rcases hcase.pc_kept (g := .task t) hfresh with ha | heq
    · rcases user_of_step hs ha with hcont | huser
      · exact (hcases hcont).elim
      · rw [hpc] at huser
        cases huser
    · exact heq
  have ht' : t ∈ s'.rt.allTasks := by
    rcases hcase.stays (hok.tick tape) ht with ⟨v, rfl⟩ | hk | hmem
    · rcases user_of_step (g := .task t) hs rfl with hcont | huser
      · exact (hcases hcont).elim
      · rw [hpc] at huser
        cases huser
    · exact absurd hk.of_tick hkill
    · exact hmem
  refine ⟨ht', c, w, use, call, hpc'.trans hpc, ?_, hwaits⟩
  have hlt := (booked_of_reach h).opened (.task t) c (by rw [hpc]; rfl)
  rcases hcase.calls_eq with ⟨a, call', -, rfl⟩ | heq
  · exact (Function.update_of_ne hlt.ne _ _).trans hcall
  · rw [heq]
    exact hcall

end Sys

/-! ## Refusals -/

section Codes

variable (s : Rt) {t : TaskId} {fd events : Nat} {w : FdWaiterId}

theorem registerError_ne_state : s.registerError.1 ≠ .state := by
  unfold Rt.registerError
  split <;> simp

theorem ioBackendAdd_ne_state : (s.ioBackendAdd w).1 ≠ .state := by
  unfold Rt.ioBackendAdd
  split
  · unfold Rt.epollBackendAdd
    dsimp only
    split
    · simp
    · exact registerError_ne_state _
  · unfold Rt.kqueueBackendAdd
    split
    · simp
    · exact registerError_ne_state _
  · simp

theorem fdWaiterAdd_ne_state : (s.fdWaiterAdd w).1 ≠ .state := by
  have hadd := ioBackendAdd_ne_state s (w := w)
  unfold Rt.fdWaiterAdd
  split
  · simp
  · next rc r _ heq =>
      rw [heq] at hadd
      exact hadd

theorem fdWaitRegister_ne_state (timeoutMs nowNs : Nat) :
    (s.fdWaitRegister t w timeoutMs nowNs).1 ≠ .ret .state := by
  have hadd := fdWaiterAdd_ne_state s (w := w)
  unfold Rt.fdWaitRegister
  split
  · split <;> simp
  · next rc r _ heq =>
      rw [heq] at hadd
      simpa using hadd

/-- Nothing but a conflict makes `mt_fd_wait` answer `MT_ERR_STATE` to a task. -/
theorem fdWait_ne_state (hopen : s.fdIsClosing fd = false)
    (hfree : s.fdWaiterConflicts fd events = false) (timeoutMs nowNs : Nat) (poll : PollResult)
    (inst : Option Nat) : (s.fdWait t fd events timeoutMs nowNs poll inst).1 ≠ .ret .state := by
  unfold Rt.fdWait
  rw [if_neg (by simp [hopen]), if_neg (by simp [hfree])]
  cases poll with
  | failed ebadf => cases ebadf <;> simp
  | revents bits =>
      dsimp only
      split
      · split <;> simp
      · split
        · simp
        · change (s.fdWaitPark t fd events timeoutMs nowNs inst).1 ≠ _
          unfold Rt.fdWaitPark
          split
          · simp
          · exact fdWaitRegister_ne_state _ _ _

end Codes

namespace Sys

variable {s s' : Sys} {a : Actor} {c : CallId} {env : Env} {t : TaskId} {fd events v : Nat}

theorem taskAfterSwitch_log {rt : Rt} (hst : (rt.task t).state = .waitingFd) :
    (rt.taskAfterSwitch t).log = rt.log := by
  have heq : rt.taskAfterSwitch t = ({ rt with runningTasks := rt.runningTasks - 1 }.guarded
      rt.runningTasks).handleSetStatus t .waitingFd := by
    simp [Rt.taskAfterSwitch, Rt.guarded, hst]
  rw [heq]
  unfold Rt.handleSetStatus
  split
  · rfl
  · dsimp only
    split
    · rfl
    · rfl

theorem waitReturn_log (s : Sys) (a : Actor) (c : CallId) (rc : Rc) (rt : Rt) :
    (s.waitReturn a c rc rt .wait).rt.log = rt.log ++ [.done c .neither rc, .ret c rc] := by
  simp [waitReturn, ret, setPc, Rt.record]

/-- The first section of an `mt_fd_wait` reports `MT_ERR_STATE` or something else. -/
theorem waitSection_state (h : s.Ok) (hfd : (s.rt.task t).fdWaiter = none)
    (hopen : s.rt.fdIsClosing fd = false) {timeoutMs nowNs : Nat} :
    (s.waitSection (.task v t) c fd events timeoutMs nowNs .wait env).rt.log =
        s.rt.log ++ [.done c .neither .state, .ret c .state] ↔
      s.rt.fdWaiterConflicts fd events = true := by
  have hwait := h.rest.inv.fdWait (t := t) hfd fd events timeoutMs nowNs (s.pollAnswer fd env)
    (s.os.inst fd)
  cases hconf : s.rt.fdWaiterConflicts fd events with
  | true =>
      have heq : s.rt.fdWait t fd events timeoutMs nowNs (s.pollAnswer fd env) (s.os.inst fd) =
          (.ret .state, 0, s.rt) := by
        unfold Rt.fdWait
        rw [if_neg (by simp [hopen]), if_pos hconf]
      simp only [waitSection, heq]
      simp [waitReturn, ret, setPc, Rt.record]
  | false =>
      have hne := fdWait_ne_state (t := t) s.rt hopen hconf timeoutMs nowNs (s.pollAnswer fd env)
        (s.os.inst fd)
      refine iff_of_false (fun hlog => ?_) (by simp)
      simp only [waitSection] at hlog
      generalize s.rt.fdWait t fd events timeoutMs nowNs (s.pollAnswer fd env) (s.os.inst fd) = r
        at hwait hlog hne
      obtain ⟨o, ready, rt⟩ := r
      simp only at hwait hlog hne
      have returns : ∀ {rc : Rc} {rt : Rt}, Outcome.ret rc ≠ .ret .state → rt.log = s.rt.log →
          (s.waitReturn (.task v t) c rc rt .wait).rt.log ≠
            s.rt.log ++ [.done c .neither .state, .ret c .state] := by
        intro rc rt hne hlog heq
        rw [waitReturn_log, hlog] at heq
        simp only [List.append_cancel_left_eq, List.cons.injEq, Event.done.injEq] at heq
        exact hne (by rw [heq.1.2.2])
      cases hwait with
      | answered rc tape => exact returns hne rfl hlog
      | refused rc gen gens interest filters tape => exact returns hne rfl hlog
      | parked gen gens tape timers wakeNs =>
          change Rt.log (Rt.taskAfterSwitch _ t) = _ at hlog
          rw [taskAfterSwitch_log (by simp [Rt.parkFd])] at hlog
          simp [Rt.parkFd] at hlog

/-- The section of an `mt_fd_release` reports `MT_ERR_STATE` or something else. -/
theorem releaseSection_state (hopen : s.rt.fdIsClosing fd = false) :
    (s.releaseSection a c fd).rt.log = s.rt.log ++ [.done c .neither .state, .ret c .state] ↔
      s.rt.fdWaiterConflicts fd 3 = true := by
  cases hconf : s.rt.fdWaiterConflicts fd 3 with
  | true =>
      have heq : s.rt.fdRelease fd = (.state, -1, s.rt) := by
        unfold Rt.fdRelease
        exact if_pos (by simp [fdRead, fdWrite, hconf])
      simp only [releaseSection, heq]
      simp [ret, setPc, Rt.record]
  | false =>
      refine iff_of_false (fun hlog => ?_) (by simp)
      have hok : (s.rt.fdRelease fd).1 = .ok ∧ (s.rt.fdRelease fd).2.2.log = s.rt.log := by
        unfold Rt.fdRelease
        rw [if_neg (by simp [fdRead, fdWrite, hopen, hconf])]
        refine ⟨rfl, ?_⟩
        simp only [Rt.fdGenerationRemove]
        split <;> rfl
      unfold releaseSection at hlog
      split at hlog
      · next rt heq =>
          rw [heq] at hok
          have hlog : rt.log = _ := hlog
          rw [show rt.log = s.rt.log from hok.2] at hlog
          simp at hlog
      · next rt heq =>
          rw [heq] at hok
          simp only [ret, setPc, Rt.record, List.append_assoc, List.cons_append, List.nil_append] at hlog
          rw [show rt.log = s.rt.log from hok.2] at hlog
          simp at hlog
      · next rc n rt hpos hneg heq =>
          rw [heq] at hok
          obtain rfl : rc = .ok := hok.1
          cases n with
          | ofNat m => exact hpos m rfl rfl
          | negSucc m => exact hneg m rfl rfl

end Sys

/-- Only calls in progress keep a descriptor from being waited for or released. In every
reachable state, if the descriptor is not being closed, an `mt_fd_wait` of a task answers
`MT_ERR_STATE` if and only if a call of a task that waits for one of its events at this number
has parked and not returned; an `mt_fd_release` if and only if any such call waits at the number.
A call stands in the way from its parking until its task goes on or is freed, whatever happens to
the descriptor and its number meanwhile: that its wait has ended, that `mt_fd_close` has closed
the descriptor and that the number has been issued again changes nothing. -/
theorem refused_until_resumed {s : Sys} (h : machine.Reach Sys.Contract s) :
    (∀ v t env c fd events timeoutMs s', s.rt.fdIsClosing fd = false →
      s.pc (.task t) = .called c (.fdWait fd events timeoutMs) → fdValidateEvents events = true →
      machine.step s (.cont (.task v t) env) = some s' →
      (s'.rt.log = s.rt.log ++ [.done c .neither .state, .ret c .state] ↔
        s.Reserved fd events)) ∧
    (∀ a env c fd s', s.rt.fdIsClosing fd = false → s.pc a.agent = .called c (.fdRelease fd) →
      machine.step s (.cont a env) = some s' →
      (s'.rt.log = s.rt.log ++ [.done c .neither .state, .ret c .state] ↔ s.Reserved fd 3)) ∧
    ∀ t fd events s', s.ReservedBy t fd events → machine.Path (fun s act => s.Contract act ∧
      (∀ v env, act ≠ .cont (.task v t) env) ∧ ¬s.Kills t act) s s' →
      s'.ReservedBy t fd events := by
  have hok := Sys.ok_of_reach (fun _ _ hc => hc) h
  refine ⟨fun v t env c fd events timeoutMs s' hopen hpc hvalid hs => ?_,
    fun a env c fd s' hopen hpc hs => ?_, fun t fd events s' hk hp => ?_⟩
  · rw [← Sys.conflicts_iff_reserved h]
    have hr := hok.runs_of_enabled (Sys.enabled_of_step hs)
    have hfd := hok.fdWaiter_eq_none hr (by rw [hpc]; rfl)
    have heq := Sys.callApi_of_step (a := .task v t) hpc hs
    simp only [Sys.callApi, hvalid] at heq
    rw [heq]
    exact Sys.waitSection_state (s := s.tick env.tape) (hok.tick env.tape) hfd hopen
  · rw [← Sys.conflicts_iff_reserved h, Sys.callApi_of_step hpc hs]
    exact Sys.releaseSection_state (s := s.tick env.tape) hopen
  · induction hp with
    | refl => exact hk
    | step hp hact hs ih =>
        exact ih.step (h.path (hp.mono fun _ _ hc => hc.1)) hact.1 hs hact.2.1 hact.2.2

/-- The descriptor for which task 0 waits has been closed and its number issued again, and task 1
may not wait for the new descriptor before task 0 has run. -/
theorem refused_until_resumed_reissued : ∃ s s' : Sys, s.os.inst 5 = some 1 ∧
    (s.rt.task 0).fdResult = .closed ∧ (s.rt.task 0).state = .ready ∧
    machine.step s (.cont (.task 0 1) {}) = some s' ∧
    s'.rt.log = s.rt.log ++ [.done 5 .neither .state, .ret 5 .state] ∧ s.Reserved 5 1 := by
  obtain ⟨s, hs, hp⟩ := reach_of_promised .epoll (List.flatten [[.osOpen (.ext 0) 5 0],
      invoke (.ext 0) (.go true 0 false), invoke (.ext 0) (.go true 0 false),
      invoke (.ext 0) (.run 1 true) 2, works 0 3, invoke (.task 0 0) (.fdWait 5 1 100), works 0,
      [.collect 0 []], works 0 2, invoke (.ext 1) (.fdClose 5) 3, [.osOpen (.ext 1) 5 0],
      invoke (.task 0 1) (.fdWait 5 1 100) 0])
    (fun s => s.os.inst 5 == some 1 && (s.rt.task 0).fdResult == .closed &&
      (s.rt.task 0).state == .ready && s.rt.fdIsClosing 5 == false &&
      s.pc (.task 1) == .called 5 (.fdWait 5 1 100) &&
      (machine.step s (.cont (.task 0 1) {})).any fun s' : Sys =>
        s'.rt.log == s.rt.log ++ [.done 5 .neither .state, .ret 5 .state])
    (by decide +kernel)
  simp only [Bool.and_eq_true, beq_iff_eq, Option.any_eq_true] at hp
  obtain ⟨⟨⟨⟨⟨hinst, hrc⟩, hst⟩, hopen⟩, hpc⟩, s', hstep, hlog⟩ := hp
  exact ⟨s, s', hinst, hrc, hst, hstep, hlog,
    ((refused_until_resumed hs).1 0 1 {} 5 5 1 100 s' hopen hpc rfl hstep).mp hlog⟩

end Microthread
