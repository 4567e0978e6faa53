import Microthread.Invariant.Calls
import Microthread.Invariant.Copies
import Microthread.System.Records

/-!
# The calls in the history

No two agents are inside one call, and a call ends once: the history has at most one
completion of it. The copies of the history serve the sends and receives that it shows as
completed with `MT_OK`, in the same order.
-/

namespace Microthread

open Foundation Rt

/-- The call that ends by a step of the agent that stands there. The others end when the
parked task is woken. -/
def Pc.open? : Pc → Option CallId
  | .chanPark .. | .selectPark .. | .joinPark .. => none
  | p => p.call?

theorem Pc.open?_eq {p : Pc} (h : p.parked = false) : p.open? = p.call? := by
  cases p with
  | chanPark => cases h
  | selectPark => cases h
  | joinPark => cases h
  | _ => rfl

theorem Pc.call?_of_open {p : Pc} {c : CallId} (h : p.open? = some c) : p.call? = some c := by
  cases p with
  | chanPark => cases h
  | selectPark => cases h
  | joinPark => cases h
  | _ => exact h

namespace Sys

variable {s s' : Sys} {g : Agent} {c : CallId}

/-- Somebody is to end the call. -/
def Pending (s : Sys) (c : CallId) : Prop := ∃ g, (s.pc g).open? = some c

/-- Every call belongs to one agent and ends once. -/
structure Booked (s : Sys) : Prop where
  books : s.rt.Books s.nextCall s.Pending
  opened : ∀ g c, (s.pc g).call? = some c → c < s.nextCall
  apart : ∀ g g' c, (s.pc g).call? = some c → (s.pc g').call? = some c → g = g'

theorem Pending.of_pc {p : Pc} (hpc : s'.pc = Function.update s.pc g p) {d : CallId}
    (h : s'.Pending d) : p.open? = some d ∨ ∃ g', g' ≠ g ∧ (s.pc g').open? = some d := by
  obtain ⟨g', hg'⟩ := h
  by_cases heq : g' = g
  · rw [hpc, heq, Function.update_self] at hg'
    exact .inl hg'
  · rw [hpc, Function.update_of_ne heq] at hg'
    exact .inr ⟨g', heq, hg'⟩

/-- An agent stays in its call, or leaves it. -/
theorem Booked.move (h : s.Booked) {p : Pc} (hpc : s'.pc = Function.update s.pc g p)
    (hp : p.call? = none ∨ p.call? = (s.pc g).call?) (hnext : s'.nextCall = s.nextCall)
    (hbooks : s'.rt.Books s.nextCall s'.Pending) : s'.Booked := by
  have old : ∀ g' d, (s'.pc g').call? = some d → (s.pc g').call? = some d := fun g' d hd => by
    by_cases heq : g' = g
    · rw [hpc, heq, Function.update_self] at hd
      rcases hp with hp | hp
      · rw [hp] at hd
        cases hd
      · rw [heq, ← hp]
        exact hd
    · rwa [hpc, Function.update_of_ne heq] at hd
  refine ⟨hnext ▸ hbooks, fun g' d hd => ?_, fun g₁ g₂ d h₁ h₂ => ?_⟩
  · rw [hnext]
    exact h.opened g' d (old g' d hd)
  · exact h.apart g₁ g₂ d (old g₁ d h₁) (old g₂ d h₂)

/-- The agent that acts does not leave its call by this step, or has not been in one. -/
theorem Booked.goes (h : s.Booked) {p : Pc} (hpc : s'.pc = Function.update s.pc g p)
    (hp : p.call? = none ∨ p.call? = (s.pc g).call?) (hopen : p.open? = none ∨ p.open? = (s.pc g).open?)
    (hnext : s'.nextCall = s.nextCall) (hbooks : s'.rt.Books s.nextCall s.Pending) : s'.Booked := by
  refine h.move hpc hp hnext (hbooks.mono fun d hd => ?_)
  rcases hd.of_pc hpc with hd | ⟨g', -, hg'⟩
  · rcases hopen with hopen | hopen
    · rw [hopen] at hd
      cases hd
    · exact ⟨g, hopen ▸ hd⟩
  · exact ⟨g', hg'⟩

/-- Whoever is left pending when `g` leaves call `c` is in another call. -/
theorem Booked.others (h : s.Booked) {p : Pc} (hpc : s'.pc = Function.update s.pc g p)
    (hp : p.open? = none) (hc : (s.pc g).call? = some c) (d : CallId) (hd : s'.Pending d) :
    s.Pending d ∧ d ≠ c := by
  rcases hd.of_pc hpc with hd | ⟨g', hne, hg'⟩
  · rw [hp] at hd
    cases hd
  · refine ⟨⟨g', hg'⟩, ?_⟩
    rintro rfl
    exact hne (h.apart g' g d (Pc.call?_of_open hg') hc)

/-- The agent ends its call and returns. -/
theorem Booked.returns (h : s.Booked) (hc : (s.pc g).open? = some c) {rt : Rt} {role : Role} {rc : Rc}
    (hpc : s'.pc = Function.update s.pc g .user) (hnext : s'.nextCall = s.nextCall)
    (hbooks : rt.Books s.nextCall s.Pending)
    (hlog : s'.rt.log = rt.log ++ [.done c role rc, .ret c rc])
    (hall : s'.rt.allTasks = rt.allTasks) (htask : s'.rt.task = rt.task) : s'.Booked := by
  refine h.move hpc (.inl rfl) hnext ?_
  refine hbooks.finish ⟨g, hc⟩ (h.others hpc rfl (Pc.call?_of_open hc)) ?_ hall htask
  rw [ended_append hlog]
  rfl

theorem Booked.ret (h : s.Booked) {s₁ : Sys} {n : Nat} {rt : Rt} (hc : (s.pc (.ext n)).open? = some c)
    (hbooks : rt.Books s.nextCall s.Pending) (hpc : s₁.pc = s.pc) (hnext : s₁.nextCall = s.nextCall)
    (role : Role) (rc : Rc) : (s₁.ret (.ext n) c role rc rt).Booked := by
  refine h.returns hc ?_ hnext hbooks (List.append_assoc ..) rfl rfl
  rw [← hpc]
  rfl

/-- The program counters stay as they are. -/
theorem Booked.still (h : s.Booked) (hpc : s'.pc = s.pc) (hnext : s'.nextCall = s.nextCall)
    (hbooks : s'.rt.Books s.nextCall s.Pending) : s'.Booked := by
  refine ⟨hnext ▸ hbooks.mono fun d hd => ?_, by rw [hpc, hnext]; exact h.opened,
    by rw [hpc]; exact h.apart⟩
  obtain ⟨g, hg⟩ := hd
  exact ⟨g, hpc ▸ hg⟩

/-- A task waits for the end of its call, or leaves it without a result. -/
theorem Booked.parks (h : s.Booked) {t : TaskId} {p : Pc} {b : Rt} {w : Nat} {l : Option Nat}
    {rt : Rt} (hok : s.Ok) (hw : s.workers w = .running t) (hcall : (s.pc (.task t)).call? = some c)
    (hnp : (s.pc (.task t)).parked = false) (hp : Parks t c (s.pc (.task t)) s.rt p rt)
    (hm : Marked rt.leave b) :
    (({ s with rt := b, lock := l }.setPc (.task t) p).setWorker w .top).Booked := by
  have hrun := (hok.runs t).mpr ⟨w, hw⟩
  have hws := hok.rest.noWaiters t hrun
  obtain ⟨k, htask, hk⟩ := hp.leaves hws
  have hall : b.allTasks = s.rt.allTasks := by
    rw [hm.allTasks_eq]
    exact (hp.parked hok.rest hrun).allTasks
  have hlog : b.log = s.rt.log := by
    rw [hm.log_eq]
    exact hp.log_eq hws
  have htask' : b.task = Function.update s.rt.task t k := by
    rw [hm.task_eq]
    exact htask
  have hcall' : k.call = c := hk.call_eq.trans ((hok.fits t hrun.1).call c hcall)
  have hopen : (s.pc (.task t)).open? = some c := (Pc.open?_eq hnp).trans hcall
  have others : ∀ u, u ≠ t → b.task u = s.rt.task u := fun u hu => by
    rw [htask', Function.update_of_ne hu]
  have waits : p.open? = none →
      ∀ s₁ : Sys, s₁.pc = Function.update s.pc (.task t) p → b.Books s.nextCall s₁.Pending :=
    fun hnone s₁ hpc => h.books.park (t := t) ⟨_, hopen⟩ (h.others hpc hnone hcall) hlog hall others
      (by rw [htask', Function.update_self, hcall'])
  cases hp with
  | fd timers wakeNs x use _ hq =>
      have hk : ¬k.Awaits := by
        have hself := congrFun htask t
        rw [Function.update_self] at hself
        rw [← hself]
        simp [Task.Awaits, Rt.parkFd]
      refine h.goes (g := .task t) rfl (.inr hcall.symm) (.inr hopen.symm) rfl ?_
      exact h.books.rest hlog (fun u hu => .inl (hall ▸ hu)) htask' hk
  | send => exact h.move (g := .task t) rfl (.inr hcall.symm) rfl (waits rfl _ rfl)
  | recv => exact h.move (g := .task t) rfl (.inr hcall.symm) rfl (waits rfl _ rfl)
  | select => exact h.move (g := .task t) rfl (.inr hcall.symm) rfl (waits rfl _ rfl)
  | join => exact h.move (g := .task t) rfl (.inr hcall.symm) rfl (waits rfl _ rfl)
  | sleep => exact h.move (g := .task t) rfl (.inl rfl) rfl (waits rfl _ rfl)
  | yield => exact h.move (g := .task t) rfl (.inl rfl) rfl (waits rfl _ rfl)

/-- A section of a call, and where it leaves the call. -/
theorem Booked.onward (h : s.Booked) {p : Pc} {rt : Rt} {q : Pc} {r : Rt} {o : Option (Role × Rc)}
    {es : List Event} (hopen : (s.pc g).open? = some c) (hon : Onward c q r o p es)
    (hpc : s'.pc = Function.update s.pc g p) (hnext : s'.nextCall = s.nextCall)
    (hbooks : rt.Books s.nextCall s.Pending) (hrt : s'.rt = { rt with log := rt.log ++ es }) :
    s'.Booked := by
  cases hon with
  | on _ hcall hnp =>
      refine h.goes hpc (.inr (hcall.trans (Pc.call?_of_open hopen).symm))
        (.inr (((Pc.open?_eq hnp).trans hcall).trans hopen.symm)) hnext ?_
      rw [hrt]
      exact hbooks.congr (List.append_nil _) (fun _ hu => hu) fun _ _ => rfl
  | out role rc =>
      exact h.returns hopen hpc hnext hbooks (by rw [hrt]) (by rw [hrt]) (by rw [hrt])

/-- An agent that is in no call makes one. -/
theorem Booked.enters (h : s.Booked) {a : Actor} {call : Api}
    (hbooks : (s.enter a call).rt.Books s.nextCall s.Pending) : (s.enter a call).Booked := by
  have key : ∀ g c, ((s.enter a call).pc g).call? = some c →
      (g = a.agent ∧ c = s.nextCall) ∨ (g ≠ a.agent ∧ (s.pc g).call? = some c) := fun g c hg => by
    change (Function.update s.pc a.agent (.called s.nextCall call) g).call? = some c at hg
    by_cases heq : g = a.agent
    · rw [heq, Function.update_self] at hg
      exact .inl ⟨heq, (Option.some.inj hg).symm⟩
    · rw [Function.update_of_ne heq] at hg
      exact .inr ⟨heq, hg⟩
  refine ⟨hbooks.begin fun d hd => ?_, fun g c hg => ?_, fun g g' c hg hg' => ?_⟩
  · rcases hd.of_pc (s := s) rfl with hd | ⟨g', -, hg'⟩
    · exact .inr (Option.some.inj hd).symm
    · exact .inl ⟨g', hg'⟩
  · rcases key g c hg with ⟨-, rfl⟩ | ⟨-, hg⟩
    · exact Nat.lt_succ_self _
    · exact (h.opened g c hg).trans (Nat.lt_succ_self _)
  · rcases key g c hg with ⟨h1, h2⟩ | ⟨-, hg⟩ <;> rcases key g' c hg' with ⟨h3, h4⟩ | ⟨-, hg'⟩
    · rw [h1, h3]
    · exact absurd (h2 ▸ h.opened g' c hg') (lt_irrefl _)
    · exact absurd (h4 ▸ h.opened g c hg) (lt_irrefl _)
    · exact h.apart g g' c hg hg'

theorem Case.booked {act : Act} (hc : Case s act s') (hok : s.Ok) (h : s.Booked) : s'.Booked := by
  have hi := hok.rest.inv
  have same : ∀ {r : Rt}, r.log = s.rt.log → r.allTasks = s.rt.allTasks → r.task = s.rt.task →
      r.Books s.nextCall s.Pending := fun h1 h2 h3 =>
    h.books.congr h1 (fun _ hu => h2 ▸ hu) fun _ _ => by rw [h3]
  cases hc with
  | calls a call hen hpc =>
      have hbooks : (s.enter a call).rt.Books s.nextCall s.Pending := by
        cases a with
        | ext n => exact same rfl rfl rfl
        | task w t =>
            have hrun := (hok.runs t).mpr ⟨w, by simpa [Sys.enabled] using hen⟩
            exact h.books.rest rfl (fun u hu => .inl hu) rfl (not_awaits_running hrun.2)
      exact h.enters hbooks
  | acts a env c o p es os sel hen hcall hnp hr _ hs hon =>
      exact h.onward ((Pc.open?_eq hnp).trans hcall) hon rfl rfl (hs.books h.books hok.rest) rfl
  | resumesFd w t env c v use o p es hw hpc ho hon =>
      have hrun := (hok.runs t).mpr ⟨w, hw⟩
      have hopen : (s.pc (.task t)).open? = some c := by rw [hpc]; rfl
      exact h.onward hopen hon rfl rfl (h.books.finishFd hrun.2 v) rfl
  | returns w t env c rc sel hw hr =>
      refine h.goes (g := .task t) rfl (.inl rfl) (.inl rfl) rfl ?_
      refine h.books.keep ?_ fun u hu hw => ⟨hu, hw, rfl⟩
      rw [ended_append (rfl : _ = s.rt.log ++ [.ret c rc])]
      exact List.append_nil _
  | goesOn w t env hw hpc => exact h.goes rfl (.inl rfl) (.inl rfl) rfl (same rfl rfl rfl)
  | parks w t env c p hw hl hcall hnp hp hm => exact h.parks hok hw hcall hnp hp hm
  | finishes w t hw hl hpc hb =>
      have hrun := (hok.runs t).mpr ⟨w, hw⟩
      have hdie : (s.rt.leave.die t).Books s.nextCall s.Pending :=
        h.books.rest rfl (fun u hu => .inl hu) rfl (by simp [Task.Awaits])
      exact h.goes rfl (.inl rfl) (.inl rfl) rfl
        (hb.books hdie (hi.leave.die hrun.1 hrun.2 (hok.rest.noWaiters t hrun)))
  | writes a addr v => exact h.still rfl rfl (same rfl rfl rfl)
  | descriptors os interest filters => exact h.still rfl rfl (same rfl rfl rfl)
  | runBegins n env c k b hpc =>
      exact h.goes rfl (.inr (by rw [hpc]; rfl)) (.inr (by rw [hpc]; rfl)) rfl (same rfl rfl rfl)
  | runPrepares n env c k tape hpc =>
      exact h.goes rfl (.inr (by rw [hpc]; rfl)) (.inr (by rw [hpc]; rfl)) rfl (same rfl rfl rfl)
  | runFails n env c k tape hpc =>
      refine h.ret ?_ ?_ rfl rfl _ _
      · rw [hpc]
        rfl
      · exact same rfl rfl rfl
  | spawns n env c k j hpc =>
      exact h.goes rfl (.inr (by rw [hpc]; rfl)) (.inr (by rw [hpc]; rfl)) rfl (same rfl rfl rfl)
  | launches n env c hpc =>
      have hc : (s.pc (.ext n)).call? = some c ∧ (s.pc (.ext n)).open? = some c := by
        rcases hpc with ⟨k, hpc⟩ | ⟨k, j, hpc, -⟩ <;> rw [hpc] <;> exact ⟨rfl, rfl⟩
      exact h.goes rfl (.inr hc.1.symm) (.inr hc.2.symm) rfl (same rfl rfl rfl)
  | aborts n env c k j hpc =>
      exact h.goes rfl (.inr (by rw [hpc]; rfl)) (.inr (by rw [hpc]; rfl)) rfl (same rfl rfl rfl)
  | runEnds n env c hpc =>
      refine h.ret ?_ ?_ ?_ ?_ _ _
      · rw [hpc]
        rfl
      · exact same rfl rfl rfl
      · rfl
      · rfl
  | abortEnds n env c hpc =>
      refine h.ret ?_ ?_ ?_ ?_ _ _
      · rw [hpc]
        rfl
      · exact same rfl rfl rfl
      · rfl
      · rfl
  | halts n env c hpc hr hm =>
      have hinv : s.rt.halt.Inv := hi.congr (by constructor <;> rfl) rfl rfl rfl rfl
      have hhalt : s.rt.halt.Books s.nextCall s.Pending := same rfl rfl rfl
      exact h.ret (by rw [hpc]; rfl) (Shifts.books (FdShifts.shifts hm) hhalt hinv)
        rfl rfl _ _
  | shutsDown n env c hpc _ _ _ hd =>
      refine h.ret (by rw [hpc]; rfl) (h.books.keep ?_ fun t ht => ?_) rfl rfl _ _
      · rw [ended, hd.log, ended]
      · simp [hd.off.allTasks] at ht
  | starts => exact h.still rfl rfl (same rfl rfl rfl)
  | startFails => exact h.still rfl rfl (same rfl rfl rfl)
  | loops w q lock _ hl hm => exact h.still rfl rfl (Shifts.books (Ticks.shifts hm) h.books hi)
  | exits => exact h.still rfl rfl (same rfl rfl rfl)
  | dispatches w env t q hw hl hq hm =>
      have hdisp : (s.rt.dispatch t q).Books s.nextCall s.Pending :=
        h.books.rest rfl (fun u hu => .inl hu) rfl (by simp [Task.Awaits])
      refine h.goes (g := .task t) rfl ?_ ?_ rfl
        (hdisp.congr hm.log_eq (fun u hu => hm.allTasks_eq ▸ hu) fun u _ => congrFun hm.task_eq u)
      · split
        · exact .inl rfl
        · exact .inr rfl
      · split
        · exact .inl rfl
        · exact .inr rfl

theorem booked_of_reach (h : machine.Reach Contract s) : s.Booked := by
  refine invariant_of_cases (C := fun _ _ => True) (I := Booked) (fun kind => ?_)
    (fun s s₀ hok hp hb => ?_) (fun _ _ _ _ _ _ => trivial) (fun s a s' hok hb _ hc => hc.booked hok hb)
    (h.mono fun _ _ hc => ⟨hc, trivial⟩)
  · refine ⟨⟨List.nodup_nil, nofun, nofun, nofun, ?_⟩, ?_, ?_⟩
    · rintro c ⟨g, hg⟩
      cases g <;> cases hg
    · intro g c hg
      cases g <;> cases hg
    · intro g g' c hg
      cases g <;> cases hg
  · rcases hp.cases hok with ⟨tape, rfl⟩ | ⟨-, hoff, rt, hb', rfl⟩
    · exact hb.still rfl rfl (hb.books.congr rfl (fun _ hu => hu) fun _ _ => rfl)
    · refine hb.still rfl rfl (hb.books.congr hb'.log (fun u hu => ?_) fun u _ => congrFun hb'.task u)
      simp [hb'.off.allTasks] at hu

/-! ## Copies -/

theorem even_ret {s₁ : Sys} (r : Rt) (a : Actor) (c : CallId) (rc : Rc) {es : List Event}
    (hlog : r.log = s.rt.log ++ es) (hes : ∀ e ∈ es, e.Idle) :
    ∃ es, (s₁.ret a c .neither rc r).rt.log = s.rt.log ++ es ∧ Even es := by
  refine ⟨es ++ [.done c .neither rc, .ret c rc], ?_, (Even.of_idle hes).append (.of_idle ?_)⟩
  · change (r.log ++ [_]) ++ [_] = _
    rw [hlog, List.append_assoc, List.append_assoc]
    rfl
  · intro e he
    rcases List.mem_cons.mp he with rfl | he
    · exact Event.idle_done c (.inl rfl)
    · rw [List.mem_singleton.mp he]
      exact Event.idle_ret c rc

/-- What the history gains by a step. -/
theorem Case.even {act : Act} (hc : Case s act s') (hok : s.Ok) :
    ∃ es, s'.rt.log = s.rt.log ++ es ∧ Even es := by
  have hi := hok.rest.inv
  have murmurs : ∀ {r : Rt}, s.rt.Murmurs r → ∃ es, r.log = s.rt.log ++ es ∧ Even es :=
    fun ⟨es, hes, h⟩ => ⟨es, hes, .of_idle h⟩
  have quiet : ∀ {r : Rt}, r.log = s.rt.log → ∃ es, r.log = s.rt.log ++ es ∧ Even es :=
    fun hlog => murmurs (.of_eq hlog)
  cases hc with
  | calls a call =>
      cases a with
      | ext n => exact quiet rfl
      | task w t => exact quiet rfl
  | acts a env c o p es os sel hen hcall hnp hr _ hs hon =>
      obtain ⟨fs, hfs, heven⟩ := hs.serves hi
      refine ⟨fs ++ es, ?_, ?_⟩
      · change _ ++ es = _
        rw [hfs, List.append_assoc]
      · cases hon with
        | on => simpa [completion] using heven
        | out role rc =>
            have hret : Even [.ret c rc] := .of_idle fun e he => by
              rw [List.mem_singleton.mp he]
              exact Event.idle_ret c rc
            have := heven.append hret
            rwa [List.append_assoc] at this
  | resumesFd w t env c v use o p es hw hpc ho hon =>
      refine ⟨es, rfl, .of_idle fun e he => ?_⟩
      cases hon with
      | on => cases he
      | out role rc =>
          rcases List.mem_cons.mp he with rfl | he
          · exact Event.idle_done c (.inl (ho _ rfl))
          · rw [List.mem_singleton.mp he]
            exact Event.idle_ret c rc
  | returns w t env c rc sel =>
      refine ⟨[.ret c rc], rfl, .of_idle fun e he => ?_⟩
      rw [List.mem_singleton.mp he]
      exact Event.idle_ret c rc
  | parks w t env c p hw hl hcall hnp hp hm =>
      have hrun := (hok.runs t).mpr ⟨w, hw⟩
      exact quiet (hm.log_eq.trans (hp.log_eq (hok.rest.noWaiters t hrun)))
  | finishes w t hw hl hpc hb => exact murmurs (.trans (a := s.rt.leave.die t) (.of_eq rfl) hb.murmurs)
  | runFails n env c k tape => exact even_ret _ _ _ _ (List.append_nil _).symm nofun
  | runEnds n env c => exact even_ret _ _ _ _ (List.append_nil _).symm nofun
  | abortEnds n env c => exact even_ret _ _ _ _ (List.append_nil _).symm nofun
  | halts n env c hpc hr hm =>
      obtain ⟨es, hes, h⟩ := Shifts.murmurs (FdShifts.shifts hm)
      exact even_ret _ _ _ _ hes h
  | shutsDown n env c _ _ _ _ hd =>
      exact even_ret _ _ _ _ (hd.log.trans (List.append_nil _).symm) nofun
  | loops w q lock _ hl hm => exact murmurs (Shifts.murmurs (Ticks.shifts hm))
  | dispatches w env t q hw hl hq hm => exact quiet hm.log_eq
  | _ => exact quiet rfl

theorem even_of_reach (h : machine.Reach Contract s) : Even s.rt.log := by
  refine invariant_of_cases (C := fun _ _ => True) (I := fun s => Even s.rt.log)
    (fun kind => .of_idle nofun) (fun s s₀ hok hp hb => ?_) (fun _ _ _ _ _ _ => trivial)
    (fun s a s' hok hb _ hc => ?_) (h.mono fun _ _ hc => ⟨hc, trivial⟩)
  · rcases hp.cases hok with ⟨tape, rfl⟩ | ⟨-, hoff, rt, hb', rfl⟩
    · exact hb
    · change Even rt.log
      rw [hb'.log]
      exact hb
  · obtain ⟨es, hes, heven⟩ := hc.even hok
    rw [hes]
    exact hb.append heven

end Sys

end Microthread
