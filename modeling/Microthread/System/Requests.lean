import Microthread.System.Calls
import Microthread.System.Files

/-!
# What a call in progress has asked for

The loops of `mt_fd_read`, `mt_fd_write` and `mt_net_accept` carry their arguments along from
section to section. Wherever a call stands, what it waits for is what it was called with.
-/

namespace Microthread

open Foundation Rt

/-- The descriptor and the events that a call waits for, if it has to wait. -/
def Api.waitsFor : Api → Option (Nat × Nat)
  | .fdWait fd events _ => some (fd, events)
  | .fdRead fd _ _ | .netAccept fd _ => some (fd, Microthread.fdRead)
  | .fdWrite fd _ _ => some (fd, Microthread.fdWrite)
  | _ => none

/-- What a call at this place will wait for, as far as the place tells. -/
def Pc.asked : Pc → Option (Nat × Nat)
  | .called _ call => call.waitsFor
  | .fdAdopt _ _ (.io op) | .fdAdopting _ _ _ (.io op) | .fdPark _ _ (.io op) | .ioCall _ op
  | .ioWait _ op => some (op.fd, op.events)
  | _ => none

theorem Pc.asked_of_waitsFor {p : Pc} {r : Nat × Nat} (h : p.waitsFor = some r) :
    p.asked = some r := by
  unfold Pc.waitsFor at h
  split at h
  · split at h
    · exact h
    · cases h
  · exact h
  · cases h

namespace Sys

variable {s s' : Sys} {a : Actor} {c : CallId} {env : Env}

/-- The place tells what the one before told, or nothing. -/
def Asks (a : Actor) (r : Option (Nat × Nat)) (s' : Sys) : Prop :=
  (s'.pc a.agent).asked = none ∨ (s'.pc a.agent).asked = r

section Places

variable {r : Option (Nat × Nat)} {role : Role} {rc : Rc} {rt : Rt} {p : Pc}

theorem asks_ret : Asks a r (s.ret a c role rc rt) := .inl (by simp [Sys.ret, setPc, Pc.asked])

theorem asks_setPc (hp : p.asked = none ∨ p.asked = r) : Asks a r (s.setPc a.agent p) := by
  unfold Asks
  rwa [setPc_pc]

theorem asks_conclude (hp : p.asked = none) {x : Outcome × Rt} :
    Asks a r (s.conclude a c role p x) := by
  unfold conclude
  split
  · exact asks_ret
  · split
    · exact .inl (by simpa [Sys.switch, setPc, setWorker, Actor.agent] using hp)
    · exact asks_ret

theorem asks_waitReturn {use : WaitUse} (hu : ∀ op, use = .io op → r = some (op.fd, op.events)) :
    Asks a r (s.waitReturn a c rc rt use) := by
  unfold waitReturn
  split
  · exact asks_ret
  · next op =>
      split
      · refine asks_setPc (s := { s with rt := rt }) (.inr ?_)
        exact (hu op rfl).symm
      · exact asks_ret

theorem asks_waitSection {use : WaitUse} {fd events timeoutMs nowNs : Nat}
    (hu : ∀ op, use = .io op → r = some (op.fd, op.events)) :
    Asks a r (s.waitSection a c fd events timeoutMs nowNs use env) := by
  unfold waitSection
  split
  · exact asks_waitReturn hu
  · split
    · exact asks_waitReturn hu
    · next w t _ _ rt _ =>
        cases use with
        | wait => exact .inl (by simp [Sys.switch, setPc, setWorker, Actor.agent, Pc.asked])
        | io op =>
            refine .inr ?_
            rw [hu op rfl]
            simp [Sys.switch, setPc, setWorker, Actor.agent, Pc.asked]

theorem asks_adoptFailed {fd : Nat} {use : AdoptUse} :
    Asks a r (s.adoptFailed a c fd rc rt use) := by
  cases use with
  | adopt | io op => exact asks_ret
  | accepted => exact asks_setPc (s := { s with rt := rt }) (.inl rfl)

theorem asks_adoptFcntl {fd : Nat} {use : AdoptUse}
    (hu : ∀ op, use = .io op → r = some (op.fd, op.events)) :
    Asks a r (s.adoptFcntl a c fd use env) := by
  unfold adoptFcntl
  split
  · exact asks_adoptFailed
  · next f _ =>
      split
      · refine asks_setPc (s := { s with os := s.os.setFlags fd (f.flags ||| oNonblock) }) ?_
        cases use with
        | adopt | accepted => exact .inl rfl
        | io op => exact .inr (hu op rfl).symm
      · exact asks_adoptFailed

theorem asks_adoptDone {use : AdoptUse} (hu : ∀ op, use = .io op → r = some (op.fd, op.events)) :
    Asks a r (s.adoptDone a c env rt use) := by
  cases use with
  | adopt | accepted => exact asks_ret
  | io op =>
      refine asks_setPc (s := { s with rt := rt }) (.inr ?_)
      exact (hu op rfl).symm

theorem asks_ensureInit {k fail : Rt → Sys} (hk : ∀ rt, Asks a r (k rt))
    (hf : ∀ rt, Asks a r (fail rt)) : Asks a r (s.ensureInit k fail) := by
  unfold ensureInit
  split
  · exact hk _
  · exact hf _

end Places

theorem asks_callApi {call : Api} : Asks a call.waitsFor (s.callApi a c env call) := by
  have nothing : ∀ op, AdoptUse.adopt = .io op → call.waitsFor = some (op.fd, op.events) :=
    fun _ h => by cases h
  cases call with
  | fdAdopt fd => exact asks_adoptFcntl nothing
  | fdRelease fd =>
      simp only [callApi, releaseSection]
      split
      · exact asks_setPc (s := { s with rt := _ }) (.inl rfl)
      · exact asks_ret
      · exact asks_ret
  | fdRead fd len timeoutMs =>
      simp only [callApi]
      split
      · exact asks_ret
      · refine asks_adoptFcntl ?_
        rintro op ⟨⟩
        rfl
  | fdWrite fd len timeoutMs =>
      simp only [callApi]
      split
      · exact asks_ret
      · refine asks_adoptFcntl ?_
        rintro op ⟨⟩
        rfl
  | netAccept fd timeoutMs =>
      refine asks_adoptFcntl ?_
      rintro op ⟨⟩
      rfl
  | go fn stackSize wantHandle =>
      refine asks_ensureInit (fun rt => ?_) fun rt => asks_ret
      split
      exact asks_ret
  | chanCreate elemSize capacity => exact asks_ensureInit (fun rt => asks_ret) fun rt => asks_ret
  | run workers sleepForTimers =>
      simp only [callApi]
      split
      · exact asks_ret
      · refine asks_ensureInit (fun rt => ?_) fun rt => asks_ret
        split
        · exact asks_ret
        · exact asks_setPc (s := { s with rt := _, sleepForTimers := _ }) (.inl rfl)
  | fdWait fd events timeoutMs =>
      simp only [callApi]
      split
      · exact asks_waitSection fun op h => by cases h
      · exact asks_ret
  | fdClose fd =>
      simp only [callApi]
      split
      · exact asks_setPc (s := { s with rt := _ }) (.inl rfl)
      · exact asks_ret
  | select cases =>
      simp only [callApi]
      split
      · exact asks_ret
      · split
        · exact asks_ret
        · exact asks_setPc (.inl rfl)
  | shutdown =>
      simp only [callApi]
      split
      · exact asks_ret
      · split
        · exact asks_ret
        · split <;> exact asks_ret
  | chanSend ch value | chanRecv ch value =>
      cases ch <;> cases value <;> first | exact asks_ret | exact asks_conclude rfl
  | chanTrySend ch value | chanTryRecv ch value => cases ch <;> cases value <;> exact asks_ret
  | join h => exact asks_conclude rfl
  | yield | sleep ms =>
      cases a with
      | task w t =>
          simp only [callApi]
          exact asks_conclude rfl
      | ext n => exact asks_ret
  | cancelled => cases a <;> exact asks_ret
  | cancel h | status h | release h | chanClose ch | chanDestroy ch => exact asks_ret

theorem asks_ioStep {op : IoOp} (h : s.ioStep a c op env = some s') :
    Asks a (some (op.fd, op.events)) s' := by
  unfold ioStep at h
  split at h
  · cases h
    exact asks_setPc (.inr rfl)
  · cases h
    exact asks_ret
  · cases h
    exact asks_ret
  · split at h <;> cases h
    · exact asks_setPc (.inr rfl)
    · exact asks_ret
  · split at h <;> cases h
    exact asks_setPc (s := { s with os := _ }) (.inl rfl)

theorem asks_cont (h : s.continueCall a env = some s') : Asks a (s.pc a.agent).asked s' := by
  unfold continueCall at h
  split at h
  · next c call hpc =>
      split at h <;> cases h
      rw [hpc]
      exact asks_callApi
  · next c cases p i hpc =>
      split at h
      · cases h
      · split at h <;> cases h
        · unfold selectTrial
          split
          · split
            · exact asks_setPc (s := { s with rt := _ }) (.inl rfl)
            · exact asks_ret
          · exact asks_setPc (.inl rfl)
        · rcases selectAfterTrials_cases _ _ c cases p with ⟨d, heq⟩ | heq <;> rw [heq]
          · exact asks_ret
          · exact asks_setPc (.inl rfl)
  · split at h <;> cases h
    exact asks_conclude rfl
  · cases h
    exact .inl (by simp [retParked, setPc, Pc.asked])
  · cases h
    exact .inl (by simp [retParked, setPc, Pc.asked])
  · cases h
    exact .inl (by simp [retParked, setPc, Pc.asked])
  · cases h
    exact .inl (by simp [setPc, Pc.asked, Actor.agent])
  · next c w use _ t hpc =>
      split at h <;> cases h
      rw [hpc]
      refine asks_waitReturn ?_
      rintro op rfl
      rfl
  · next c fd use hpc =>
      cases h
      rw [hpc]
      refine asks_adoptFcntl ?_
      rintro op rfl
      rfl
  · next c fd flags use hpc =>
      split at h <;> cases h
      unfold adoptSection
      rw [hpc]
      split
      · refine asks_adoptDone ?_
        rintro op rfl
        rfl
      · exact asks_adoptFailed
  · cases h
    unfold releaseFcntl
    split
    · exact asks_ret
    · split <;> exact asks_ret
  · next c op hpc =>
      rw [hpc]
      exact asks_ioStep h
  · next c op hpc =>
      split at h <;> cases h
      rw [hpc]
      refine asks_waitSection ?_
      rintro op' ⟨⟩
      rfl
  · cases h
    exact asks_ret
  · cases h
    unfold closeStep
    split
    · exact asks_setPc (.inl rfl)
    · exact asks_setPc (.inl rfl)
  · split at h <;> cases h
    exact asks_ret
  · next c workers n hpc =>
      split at h
      · cases h
      · split at h
        · split at h <;> cases h
          · exact asks_setPc (s := { s with rt := _ }) (.inl rfl)
          · exact asks_ret
        · cases h
          exact asks_setPc (s := s.setWorker 0 .start) (.inl rfl)
  · next c workers next n hpc =>
      split at h
      · cases h
      · split at h
        · split at h <;> cases h
          · exact asks_setPc (s := s.setWorker next .start) (.inl rfl)
          · exact asks_setPc (s := { s with rt := _ }) (.inl rfl)
        · cases h
          exact asks_setPc (s := s.setWorker 0 .start) (.inl rfl)
  · split at h
    · cases h
    · split at h <;> cases h
      exact asks_ret
  · split at h
    · cases h
    · split at h <;> cases h
      exact asks_ret
  · cases h

/-! ## Every call in progress -/

/-- Wherever a call stands, what it waits for is what it was called with. -/
def Recalled (s : Sys) : Prop := ∀ g c, (s.pc g).call? = some c →
  ∃ call, s.calls c = some (g, call) ∧ ∀ r, (s.pc g).asked = some r → call.waitsFor = some r

/-- Only the beginning of a call is entered into the list of calls. -/
theorem Case.calls_eq {act : Act} (hc : Case s act s') :
    (∃ a call, act = .api a call ∧ s' = s.enter a call) ∨ s'.calls = s.calls := by
  cases hc with
  | calls a call => exact .inl ⟨a, call, rfl, rfl⟩
  | _ => exact .inr rfl

/-- An agent is in the call that it was in, or it has just made one. -/
theorem Case.call_of {act : Act} {g : Agent} (hc : Case s act s')
    (hg : (s'.pc g).call? = some c) : (s.pc g).call? = some c ∨
      ∃ a call, g = a.agent ∧ c = s.nextCall ∧ s' = s.enter a call := by
  have moves : ∀ {k : Agent} {p : Pc}, (∀ d, p.call? = some d → (s.pc k).call? = some d) →
      (Function.update s.pc k p g).call? = some c → (s.pc g).call? = some c := by
    intro k p hp hg
    by_cases hk : g = k
    · subst hk
      rw [Function.update_self] at hg
      exact hp c hg
    · rwa [Function.update_of_ne hk] at hg
  have onward : ∀ {q p : Pc} {r : Rt} {o : Option (Role × Rc)} {es : List Event} {d : CallId},
      q.call? = some d → Onward d q r o p es → ∀ d, p.call? = some d → q.call? = some d := by
    intro q p r o es d hq hon d' hp
    cases hon with
    | on _ hcall =>
        rw [hcall] at hp
        rw [hq, hp]
    | out => cases hp
  have out : ∀ {k : Agent} (d : CallId), Pc.user.call? = some d → (s.pc k).call? = some d :=
    fun _ h => by cases h
  have inn : ∀ {k : Agent} {p : Pc} {e : CallId}, (s.pc k).call? = some e → p.call? = some e →
      ∀ d, p.call? = some d → (s.pc k).call? = some d := by
    intro k p e hk hp d hd
    rw [hk, ← hp, hd]
  cases hc with
  | calls a call hen hpc =>
      by_cases hga : g = a.agent
      · subst hga
        have hself : (s.enter a call).pc a.agent = .called s.nextCall call :=
          Function.update_self ..
        rw [hself] at hg
        cases hg
        exact .inr ⟨a, call, rfl, rfl, rfl⟩
      · have hother : (s.enter a call).pc g = s.pc g := Function.update_of_ne hga _ _
        exact .inl (hother ▸ hg)
  | acts a env c o p es os sel hen hcall _ _ _ _ hon => exact .inl (moves (onward hcall hon) hg)
  | resumesFd w u env c v use o p es hw hpc ho hon =>
      exact .inl (moves (onward (by rw [hpc]; rfl) hon) hg)
  | returns w u => exact .inl (moves out hg)
  | goesOn w u => exact .inl (moves out hg)
  | parks w u env c p hw hl hcall hnp hp =>
      refine .inl (moves (fun d hd => ?_) hg)
      rw [hcall]
      cases hp with
      | sleep | yield => cases hd
      | _ => exact hd
  | finishes w u => exact .inl (moves (fun _ h => by cases h) hg)
  | dispatches w env u =>
      refine .inl (moves (fun d hd => ?_) hg)
      split at hd
      · cases hd
      · exact hd
  | runBegins n env c k b hpc => exact .inl (moves (inn (by rw [hpc]; rfl) rfl) hg)
  | runPrepares n env c k tape hpc => exact .inl (moves (inn (by rw [hpc]; rfl) rfl) hg)
  | spawns n env c k j hpc => exact .inl (moves (inn (by rw [hpc]; rfl) rfl) hg)
  | launches n env c hpc =>
      refine .inl (moves (inn (e := c) ?_ rfl) hg)
      rcases hpc with ⟨k, hpc⟩ | ⟨k, j, hpc, -⟩ <;> rw [hpc] <;> rfl
  | aborts n env c k j hpc => exact .inl (moves (inn (by rw [hpc]; rfl) rfl) hg)
  | runFails | runEnds | abortEnds | halts | shutsDown => exact .inl (moves out hg)
  | _ => exact .inl hg

/-- A section tells no more than the place where it began. -/
theorem asks_of_step (hs : machine.step s (.cont a env) = some s') :
    Asks a (s.pc a.agent).asked s' := by
  simp only [machine, step] at hs
  split at hs
  · exact asks_cont (s := s.tick env.tape) hs
  · cases hs

/-- An agent that acts goes on with its call or is outside the runtime. -/
theorem user_of_step {act : Act} {g : Agent} (hs : machine.step s act = some s')
    (hact : act.agent? = some g) :
    (∃ a env, act = .cont a env ∧ a.agent = g) ∨ s.pc g = .user := by
  simp only [machine] at hs
  cases act with
  | cont a env => exact .inl ⟨a, env, rfl, Option.some.inj hact⟩
  | api a | finish w t | write a | osOpen a | osClose a =>
      cases hact
      simp only [step] at hs
      split at hs
      · next hcond =>
          simp only [Bool.and_eq_true, beq_iff_eq] at hcond
          simp [hcond]
      · cases hs
  | worker | collect => cases hact

theorem recalled_of_reach (h : machine.Reach Contract s) : s.Recalled := by
  refine h.invariant (fun s hs => ?_) fun s act s' hr ih hact hs g c hg => ?_
  · obtain ⟨kind, rfl⟩ := hs
    intro g c hg
    cases g <;> simp [Pc.call?] at hg
  · have hok := ok_of_reach (fun _ _ hc => hc) hr
    obtain ⟨s₀, hp, hcase⟩ := hok.step_cases hact hs
    have hpc : s₀.pc = s.pc := by
      obtain ⟨tape, rfl | rfl⟩ := hp <;> rfl
    have hcalls : s₀.calls = s.calls := by
      obtain ⟨tape, rfl | rfl⟩ := hp <;> rfl
    have hnext : s₀.nextCall = s.nextCall := by
      obtain ⟨tape, rfl | rfl⟩ := hp <;> rfl
    rcases hcase.call_of hg with hold | ⟨a, call, rfl, rfl, rfl⟩
    · rw [hpc] at hold
      obtain ⟨call, hcall, hasked⟩ := ih g c hold
      have hlt := (booked_of_reach hr).opened g c hold
      refine ⟨call, ?_, fun r hr' => hasked r ?_⟩
      · rcases hcase.calls_eq with ⟨a, call', -, rfl⟩ | heq
        · change Function.update s₀.calls s₀.nextCall _ c = _
          rw [hnext, Function.update_of_ne hlt.ne, hcalls, hcall]
        · rw [heq, hcalls, hcall]
      · have hfresh : s₀.pc g ≠ .fresh := by
          rw [hpc]
          intro heq
          simp [heq, Pc.call?] at hold
        rcases hcase.pc_kept hfresh with hown | heq
        · rcases user_of_step hs hown with ⟨a, env, rfl, rfl⟩ | huser
          · rcases asks_of_step hs with hnone | heq
            · rw [hnone] at hr'
              cases hr'
            · exact heq ▸ hr'
          · rw [huser] at hold
            cases hold
        · rw [heq, hpc] at hr'
          exact hr'
    · refine ⟨call, Function.update_self .., fun r hr' => ?_⟩
      have hself : (s₀.enter a call).pc a.agent = .called s₀.nextCall call :=
        Function.update_self ..
      rw [hself] at hr'
      exact hr'

end Sys
end Microthread
