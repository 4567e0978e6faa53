import Microthread.Properties.SingleWorker

/-!
# A call in a run with one worker

In a run with one worker a call that has begun and is not parked goes on alone: the
worker runs the calling task or is off, and the thread in `mt_run` waits for the
worker. Other threads are outside the runtime and can only write user memory and
open or close descriptors. So the sections of such a call follow each other in an
unchanged runtime; in particular what the trial pass of a select has found is still so
when the select registers its waiters.
-/

namespace Microthread

open Foundation Rt

namespace Sys

variable {s s' : Sys} {w : Nat} {t : TaskId}

/-- User code of another thread has written its memory, or opened or closed a descriptor. -/
def Aside (s s' : Sys) : Prop :=
  ∃ mem interest filters os, s' = { s with
    rt := { s.rt with mem := mem, interest := interest, filters := filters }, os := os }

/-- Nobody but `a` executes a call or a section of the worker loop. -/
structure Solitary (s : Sys) (a : Actor) : Prop where
  lock : s.lock = none
  workers : ∀ w, s.workers w = .off ∨ ∃ t, s.workers w = .running t
  tasks : ∀ w t, s.enabled (.task w t) = true → Actor.task w t = a
  caller : Actor.ext 0 ≠ a → s.pc (.ext 0) ≠ .user
  others : ∀ n, Actor.ext n ≠ a → s.pc (.ext n) = .user ∨
    (∃ c, s.pc (.ext n) = .runLoop c) ∧ ∃ w < s.rt.workerCount, ∃ t, s.workers w = .running t

theorem Single.solitary (h : s.Single) (hok : s.Ok) {a : Actor} (hen : s.enabled a = true)
    (hpc : s.pc a.agent ≠ .user) (hin : (s.pc a.agent).inRun = false) : s.Solitary a := by
  cases a with
  | ext n =>
      obtain rfl := h.zero hpc
      have hstill : ¬s.rt.running = true := fun hr => by
        have := h.runner hr
        simp only [Actor.agent] at hin
        simp [hin] at this
      have hoff : ∀ w, s.workers w = .off := fun w => by
        by_contra hne
        exact hstill (hok.run.bound w hne).2
      refine ⟨?_, fun w => .inl (hoff w), fun w t hw => ?_, fun hne => absurd rfl hne,
        fun n hn => .inl (h.others n fun hz => hn (by rw [hz]))⟩
      · rw [Option.eq_none_iff_forall_ne_some]
        intro w hl
        have := (hok.lock w).mp hl
        simp [hoff w, WorkerPc.locked] at this
      · simp [Sys.enabled, hoff w] at hw
  | task v u =>
      have hv : s.workers v = .running u := by simpa [Sys.enabled] using hen
      obtain rfl := h.worker hok (w := v) (by simp [hv])
      have hr := (hok.run.bound 0 (by simp [hv])).2
      have hrun := h.runner hr
      refine ⟨?_, fun w => ?_, fun w t hw => ?_, fun _ hu => ?_, fun n _ => ?_⟩
      · rw [Option.eq_none_iff_forall_ne_some]
        intro w hl
        have hlocked := (hok.lock w).mp hl
        obtain rfl := h.worker hok (w := w) (active_ne_off (locked_active hlocked).1)
        simp [hv, WorkerPc.locked] at hlocked
      · by_cases hw : s.workers w = .off
        · exact .inl hw
        · obtain rfl := h.worker hok hw
          exact .inr ⟨u, hv⟩
      · have hw : s.workers w = .running t := by simpa [Sys.enabled] using hw
        obtain rfl := h.worker hok (w := w) (by simp [hw])
        rw [hv, WorkerPc.running.injEq] at hw
        rw [hw]
      · simp [hu, Pc.inRun] at hrun
      · by_cases hn : n = 0
        · subst hn
          refine .inr ⟨?_, 0, by simp [h.count hr], u, hv⟩
          have hplace := h.place 0
          cases hp : s.pc (.ext 0) with
          | runLoop c => exact ⟨c, rfl⟩
          | runAlloc c k => simp [hok.run.alloc _ _ _ hp 0] at hv
          | runSpawn => simp [hp, Pc.Single] at hplace
          | runAbort => simp [hp, Pc.Single] at hplace
          | _ => simp [hp, Pc.inRun] at hrun
        · exact .inl (h.others n hn)

theorem continueCall_user {a : Actor} {env : Env} (hpc : s.pc a.agent = .user) :
    s.continueCall a env = none := by
  simp only [Sys.continueCall, hpc]

theorem continueCall_runLoop {n : Nat} {env : Env} {c : CallId} (hpc : s.pc (.ext n) = .runLoop c)
    (hw : ∃ w < s.rt.workerCount, ∃ t, s.workers w = .running t) :
    s.continueCall (.ext n) env = none := by
  obtain ⟨w, hlt, t, hw⟩ := hw
  have hall : ¬((List.range s.rt.workerCount).all fun i =>
      s.workers i == .exited || s.workers i == .off) = true := by
    intro hall
    have := List.all_eq_true.mp hall w (List.mem_range.mpr hlt)
    simp [hw] at this
  have hpc' : s.pc (Actor.ext n).agent = .runLoop c := hpc
  simp only [Sys.continueCall, hpc', hall]
  simp

/-- Beside the next section of the call, only user code of other threads can act. -/
theorem Solitary.step {a : Actor} {act : Act} (h : s.Solitary a) (hpc : s.pc a.agent ≠ .user)
    (hsolo : s.Solo act) (hstep : machine.step s act = some s') :
    (∃ env, act = .cont a env) ∨ s.Aside s' := by
  simp only [machine] at hstep
  cases act with
  | api b call =>
      simp only [Sys.step] at hstep
      split at hstep
      · next hb =>
          rw [Bool.and_eq_true, beq_iff_eq] at hb
          cases b with
          | task w t =>
              rw [h.tasks w t hb.1] at hb
              exact absurd hb.2 hpc
          | ext n =>
              obtain rfl := (hsolo.ext 0).1
              by_cases hn : Actor.ext 0 = a
              · rw [hn] at hb
                exact absurd hb.2 hpc
              · exact absurd hb.2 (h.caller hn)
      · cases hstep
  | cont b env =>
      simp only [Sys.step] at hstep
      split at hstep
      · next hb =>
          cases b with
          | task w t =>
              rw [h.tasks w t hb]
              exact .inl ⟨env, rfl⟩
          | ext n =>
              by_cases hn : Actor.ext n = a
              · rw [hn]
                exact .inl ⟨env, rfl⟩
              · rcases h.others n hn with hu | ⟨⟨c, hr⟩, hw⟩
                · rw [continueCall_user (by exact hu)] at hstep
                  cases hstep
                · rw [continueCall_runLoop (by exact hr) (by exact hw)] at hstep
                  cases hstep
      · cases hstep
  | finish w t =>
      simp only [Sys.step] at hstep
      split at hstep
      · next hb =>
          simp only [Bool.and_eq_true, beq_iff_eq] at hb
          rw [← h.tasks w t hb.1.1] at hpc
          exact absurd hb.2 hpc
      · cases hstep
  | write b addr v =>
      simp only [Sys.step] at hstep
      split at hstep
      · cases hstep
        exact .inr ⟨(s.rt.writeMem addr v).mem, s.rt.interest, s.rt.filters, s.os, rfl⟩
      · cases hstep
  | osOpen b fd flags =>
      simp only [Sys.step] at hstep
      split at hstep
      · cases hstep
        exact .inr ⟨s.rt.mem, s.rt.interest, s.rt.filters, _, rfl⟩
      · cases hstep
  | osClose b fd =>
      simp only [Sys.step] at hstep
      split at hstep
      · cases hstep
        exact .inr ⟨s.rt.mem, _, _, _, rfl⟩
      · cases hstep
  | worker w env =>
      simp only [Sys.step] at hstep
      rcases h.workers w with hw | ⟨t, hw⟩
      · simp [Sys.workerStep, hw] at hstep
      · simp [Sys.workerStep, hw] at hstep
  | collect w batch =>
      simp only [Sys.step] at hstep
      rcases h.workers w with hw | ⟨t, hw⟩
      · simp [hw] at hstep
      · simp [hw] at hstep

end Sys

/-! ## The trial pass of select -/

/-- The call is `mt_select` in or after its trial pass, before it parks. -/
def Pc.trying : Pc → Bool
  | .selectTry .. | .selectReg .. => true
  | _ => false

theorem Pc.trying_of_tried {p : Pc} {k : SelectCase} (h : k ∈ p.tried) : p.trying = true := by
  cases p <;> simp_all [Pc.tried, Pc.trying]

theorem Pc.Follows.trying {r : Rt} {q p : Pc} (h : Pc.Follows r q p) (hp : p.trying = true) :
    q.trying = true ∨ p.tried = [] := by
  cases p with
  | selectTry c cases plan i =>
      cases i with
      | zero => exact .inr (by simp [Pc.tried])
      | succ j =>
          rw [(h.2 j rfl).1]
          exact .inl rfl
  | selectReg c cases plan =>
      obtain ⟨j, rfl, -⟩ := h
      exact .inl rfl
  | _ => cases hp

theorem Onward.trying {c : CallId} {q p : Pc} {r : Rt} {o : Option (Role × Rc)} {es : List Event}
    (hon : Onward c q r o p es) (hp : p.trying = true) : q.trying = true ∨ p.tried = [] := by
  cases hon with
  | on _ _ _ _ _ hfol => exact hfol.trying hp
  | out => cases hp

namespace Sys

variable {s s' : Sys} {a : Actor}

theorem enabled_of_update {w : Nat} {p : WorkerPc}
    (hw : s'.workers = Function.update s.workers w p) (hp : ∀ t, p ≠ .running t)
    (h : s'.enabled a = true) : s.enabled a = true := by
  cases a with
  | ext n => rfl
  | task v t =>
      simp only [Sys.enabled, beq_iff_eq, hw] at h ⊢
      by_cases hv : v = w
      · subst hv
        rw [Function.update_self] at h
        exact absurd h (hp t)
      · rwa [Function.update_of_ne hv] at h

theorem enabled_congr (hw : s'.workers = s.workers) (h : s'.enabled a = true) :
    s.enabled a = true := by
  cases a with
  | ext n => rfl
  | task v t => simpa only [Sys.enabled, hw] using h

/-- Where the trial pass is under way it was so before, or it has not found anything yet. -/
theorem Case.trying {act : Act} (hc : Case s act s') (hok : s.Ok) (hen : s'.enabled a = true)
    (ht : (s'.pc a.agent).trying = true) :
    (s.enabled a = true ∧ (s.pc a.agent).trying = true) ∨ (s'.pc a.agent).tried = [] := by
  have stays : s.enabled a = true → s'.pc = s.pc → (s.enabled a = true ∧
      (s.pc a.agent).trying = true) ∨ (s'.pc a.agent).tried = [] :=
    fun h1 h2 => .inl ⟨h1, h2 ▸ ht⟩
  -- the agent `g` has moved to `p`
  have moves : ∀ (g : Agent) (p : Pc), s.enabled a = true → s'.pc = Function.update s.pc g p →
      (p.trying = true → (s.pc g).trying = true ∨ p.tried = []) →
      (s.enabled a = true ∧ (s.pc a.agent).trying = true) ∨ (s'.pc a.agent).tried = [] := by
    intro g p h1 h2 h3
    rw [h2] at ht ⊢
    by_cases hg : a.agent = g
    · rw [hg, Function.update_self] at ht ⊢
      exact (h3 ht).imp_left fun h => ⟨h1, h⟩
    · rw [Function.update_of_ne hg] at ht ⊢
      exact .inl ⟨h1, ht⟩
  cases hc with
  | calls b call hb hpc => exact moves _ _ (enabled_congr rfl hen) rfl (fun h => by cases h)
  | acts b env c o p es os sel hb hc hp hr _ hs hon =>
      exact moves _ _ (enabled_congr rfl hen) rfl hon.trying
  | resumesFd w t env c v use o p es hw hpc ho hon =>
      exact moves _ _ (enabled_congr rfl hen) rfl hon.trying
  | returns w t env c rc sel hw hr => exact moves _ _ (enabled_congr rfl hen) rfl (fun h => by cases h)
  | goesOn w t env hw hpc => exact moves _ _ (enabled_congr rfl hen) rfl (fun h => by cases h)
  | parks w t env c p hw hl hcall hnp hp hm =>
      refine moves _ p (enabled_of_update (w := w) (p := .top) rfl (by simp) hen) rfl fun h => ?_
      cases hp <;> cases h
  | finishes w t hw hl hpc hb =>
      exact moves _ _ (enabled_of_update (w := w) (p := .top) rfl (by simp) hen) rfl
        (fun h => by cases h)
  | writes b addr v hb hpc => exact stays (enabled_congr rfl hen) rfl
  | descriptors os interest filters _ => exact stays (enabled_congr rfl hen) rfl
  | runBegins n env c k sleep hpc hk hon hr =>
      exact moves _ _ (enabled_congr rfl hen) rfl (fun h => by cases h)
  | runPrepares n env c k tape hpc hk =>
      exact moves _ _ (enabled_congr rfl hen) rfl (fun h => by cases h)
  | runFails n env c k tape hpc =>
      exact moves _ _ (enabled_congr rfl hen) rfl (fun h => by cases h)
  | spawns n env c k j hpc hj =>
      exact moves _ _ (enabled_of_update (w := j) (p := .start) rfl (by simp) hen) rfl
        (fun h => by cases h)
  | launches n env c hpc =>
      exact moves _ _ (enabled_of_update (w := 0) (p := .start) rfl (by simp) hen) rfl
        (fun h => by cases h)
  | aborts n env c k j hpc => exact moves _ _ (enabled_congr rfl hen) rfl (fun h => by cases h)
  | runEnds n env c hpc hl hall =>
      refine moves (.ext n) .user ?_ rfl (fun h => by cases h)
      cases a with
      | ext m => rfl
      | task v t => simp [Sys.enabled, Sys.ret, Sys.setPc] at hen
  | abortEnds n env c hpc hl hall =>
      refine moves (.ext n) .user ?_ rfl (fun h => by cases h)
      cases a with
      | ext m => rfl
      | task v t => simp [Sys.enabled, Sys.ret, Sys.setPc] at hen
  | halts n env c hpc hr hm => exact moves _ _ (enabled_congr rfl hen) rfl (fun h => by cases h)
  | shutsDown n env c hpc hinit hr halone hd =>
      exact moves _ _ (enabled_congr rfl hen) rfl (fun h => by cases h)
  | starts w env hw hl => exact stays (enabled_of_update (w := w) (p := .top) rfl (by simp) hen) rfl
  | startFails w env hw =>
      exact stays (enabled_of_update (w := w) (p := .exited) rfl (by simp) hen) rfl
  | loops w q lock _ hl hm =>
      exact stays (enabled_of_update (w := w) (p := q) rfl hl.facts.2.2.2 hen) rfl
  | exits w env rc hw hl _ =>
      exact stays (enabled_of_update (w := w) (p := .exited) rfl (by simp) hen) rfl
  | dispatches w env t q hw hl hq hm =>
      obtain ⟨hmem, hready⟩ := hok.rest.inv.mem_runq (t := t) (by simp [(Queue.pop_eq_some.mp hq).1])
      have hpc := (hok.fits t hmem).ready hready
      by_cases hg : a.agent = .task t
      · -- a task that is put on a processor is not in its trial pass
        refine absurd ht ?_
        rw [hg]
        simp only [Sys.setWorker, Sys.setPc, Function.update_self]
        rcases hpc with hf | hp
        · simp [hf, Pc.trying]
        · split
          · simp [Pc.trying]
          · cases hq : s.pc (.task t) <;> simp [hq, Pc.parked, Pc.trying] at hp ⊢
      · simp only [Sys.setWorker, Sys.setPc, Function.update_of_ne hg] at ht
        refine .inl ⟨?_, ht⟩
        cases a with
        | ext n => rfl
        | task v u =>
            simp only [Sys.enabled, Sys.setWorker, Sys.setPc, beq_iff_eq] at hen ⊢
            by_cases hv : v = w
            · subst hv
              rw [Function.update_self, WorkerPc.running.injEq] at hen
              exact absurd (congrArg Agent.task hen.symm) hg
            · rwa [Function.update_of_ne hv] at hen

/-- The cases that a trial pass has found blocked are still blocked. -/
def Steady (s : Sys) : Prop :=
  ∀ a : Actor, s.enabled a = true → ∀ k ∈ (s.pc a.agent).tried, k.isChannel = true →
    s.rt.CaseBlocks k

theorem section_none {does : Op → Prop} {c : CallId} {r r' : Rt}
    (hs : Section does c r none r') (hfd : ¬does .fd) : ∃ tape, r' = { r with tape := tape } := by
  cases hs with
  | idle o tape => exact ⟨tape, rfl⟩
  | fd o _ hd => exact absurd hd hfd

/-- A section of the call itself goes past a blocked case or leaves the pass. -/
theorem Case.steady_own {env : Env} (hc : Case s (.cont a env) s') (hen : s.enabled a = true)
    (htry : (s.pc a.agent).trying = true) (h : s.Steady) {k : SelectCase}
    (hk : k ∈ (s'.pc a.agent).tried) (hchan : k.isChannel = true) : s'.rt.CaseBlocks k := by
  have hself : ∀ (x : Sys) (g : Agent) (p : Pc), p.tried = [] → k ∉ ((x.setPc g p).pc g).tried :=
    fun x g p hp hk => by simp [Sys.setPc, hp] at hk
  cases hc with
  | acts _ _ c o p es os sel _ hcall hp hr _ hs hon =>
      have hkp : k ∈ p.tried := by simpa [Sys.setPc] using hk
      have hnofd : ¬Pc.Does a.agent (s.pc a.agent) .fd := by
        revert htry
        cases hq : s.pc a.agent <;> simp [Pc.trying, Pc.Does, Pc.onFd]
      cases hon with
      | out => simp [Pc.tried] at hkp
      | on _ _ _ _ _ hfol =>
          obtain ⟨tape, rfl⟩ := section_none hs hnofd
          have hold := h a hen
          cases p with
          | selectTry c cases plan i =>
              cases i with
              | zero => simp [Pc.tried] at hkp
              | succ j =>
                  obtain ⟨hq, hb⟩ := hfol.2 j rfl
                  rw [hq] at hold
                  rw [Pc.tried, List.take_add_one, List.mem_append, Option.mem_toList] at hkp
                  rcases hkp with hkp | hkp
                  · exact hold k hkp hchan
                  · exact hb k hkp
          | selectReg c cases plan =>
              obtain ⟨j, hq, hj⟩ := hfol
              rw [hq] at hold
              refine hold k ?_ hchan
              simpa [Pc.tried, List.take_of_length_le hj] using hkp
          | _ => simp [Pc.tried] at hkp
  | resumesFd w t _ c v use o p es hw hpc ho hon =>
      simp [Actor.agent, hpc, Pc.trying] at htry
  | returns w t _ c rc sel hw hr => exact absurd hk (hself _ _ _ rfl)
  | goesOn w t _ hw hpc => exact absurd hk (hself _ _ _ rfl)
  | parks w t _ c p hw hl hcall hnp hp hm =>
      refine absurd hk ?_
      change k ∉ (Function.update s.pc (.task t) p (.task t)).tried
      rw [Function.update_self]
      cases hp <;> simp [Pc.tried]
  | descriptors os interest filters hact => simp at hact
  | loops w q lock hact => simp at hact
  | runBegins n _ c k => exact absurd hk (hself _ _ _ rfl)
  | runPrepares n _ c k => exact absurd hk (hself _ _ _ rfl)
  | runFails n _ c k => exact absurd hk (hself _ _ _ rfl)
  | spawns n _ c k => exact absurd hk (hself _ _ _ rfl)
  | launches n _ c => exact absurd hk (hself _ _ _ rfl)
  | aborts n _ c k => exact absurd hk (hself _ _ _ rfl)
  | runEnds n _ c => exact absurd hk (hself _ _ _ rfl)
  | abortEnds n _ c => exact absurd hk (hself _ _ _ rfl)
  | halts n _ c => exact absurd hk (hself _ _ _ rfl)
  | shutsDown n _ c => exact absurd hk (hself _ _ _ rfl)

theorem Prepared.workers_eq {s₀ : Sys} (hp : s.Prepared s₀) : s₀.workers = s.workers := by
  obtain ⟨tape, rfl | rfl⟩ := hp <;> rfl

/-- Nobody waits when the runtime is initialised, and the channels stay. -/
theorem Booted.caseBlocks {r r' : Rt} (hb : Booted r r') {k : SelectCase} (h : r.CaseBlocks k) :
    r'.CaseBlocks k := by
  unfold Rt.CaseBlocks at h ⊢
  split
  · next hop =>
      simp only [hop] at h
      refine ⟨hb.chan ▸ h.1, ?_, ?_, hb.chan ▸ h.2.2.2⟩
      · rw [hb.off.waitq]
      · rw [hb.off.selectq]
  · next hop =>
      simp only [hop] at h
      refine ⟨hb.chan ▸ h.1, hb.chan ▸ h.2.1, ?_, ?_⟩
      · rw [hb.off.waitq]
      · rw [hb.off.selectq]
  · trivial

theorem Steady.prepared {s₀ : Sys} (h : s.Steady) (hok : s.Ok) (hp : s.Prepared s₀) :
    s₀.Steady := by
  intro a hen k hk hchan
  have hb := h a (enabled_congr hp.workers_eq hen) k (hp.pc_eq ▸ hk) hchan
  rcases hp.cases hok with ⟨tape, rfl⟩ | ⟨-, -, rt, hboot, rfl⟩
  · exact hb
  · exact hboot.caseBlocks hb

theorem Aside.caseBlocks (h : s.Aside s') {k : SelectCase} (hb : s.rt.CaseBlocks k) :
    s'.rt.CaseBlocks k := by
  obtain ⟨mem, interest, filters, os, rfl⟩ := h
  exact hb

/-- In a run with one worker nothing happens between the trials of a select and its
registration. -/
theorem steady_of_reach (h : machine.Reach (Under Solo) s) : s.Steady := by
  refine h.invariant (fun s hs => ?_) fun s act s' hr ih hact hstep a hen k hk hchan => ?_
  · obtain ⟨kind, rfl⟩ := hs
    intro a _ k hk
    cases a <;> simp [Pc.tried, Actor.agent] at hk
  · have hok := ok_of_under hr
    have hsingle := single_of_reach (fun _ _ hc => hc) (fun _ _ _ _ _ hc => hc) hr
    obtain ⟨s₀, hp, hcase⟩ := hok.step_cases hact.1 hstep
    have htry := Pc.trying_of_tried hk
    rcases hcase.trying (hp.ok hok) hen htry with ⟨hen₀, htry₀⟩ | hnil
    · rw [hp.pc_eq] at htry₀
      have hen₀ : s.enabled a = true := enabled_congr hp.workers_eq hen₀
      have hmid : s.pc a.agent ≠ .user ∧ (s.pc a.agent).inRun = false := by
        revert htry₀
        cases s.pc a.agent <;> simp [Pc.trying, Pc.inRun]
      rcases (hsingle.solitary hok hen₀ hmid.1 hmid.2).step hmid.1 hact.2 hstep with
        ⟨env, rfl⟩ | haside
      · exact hcase.steady_own (enabled_congr hp.workers_eq.symm hen₀) (hp.pc_eq ▸ htry₀)
          (ih.prepared hok hp) hk hchan
      · refine haside.caseBlocks (ih a hen₀ k ?_ hchan)
        obtain ⟨mem, interest, filters, os, rfl⟩ := haside
        exact hk
    · simp [hnil] at hk

end Sys

end Microthread
