import Microthread.System.Reachable

/-!
# What a step does to the descriptor table

The process opens and closes descriptors between its calls, `mt_net_accept` issues a number,
`mt_fd_close` and a failed accept close one, and `mt_fd_adopt` and `mt_fd_release` set status
flags. No other section touches the table.
-/

namespace Microthread

open Foundation

/-- The descriptor whose status flags the call is changing. -/
def Pc.adjusts : Pc → Option Nat
  | .fdAdopting _ fd _ _ | .fdRestoring _ fd _ => some fd
  | _ => none

namespace Sys

variable {s s' : Sys}

/-- What a section does to the descriptor table, and when it leaves its call between the changes
of a descriptor's flags and of its entry. -/
inductive Files (s s' : Sys) (a : Actor) (env : Env) : Prop where
  | same : s'.os = s.os → (s'.pc a.agent).adjusts = none → Files s s' a env
  | accepts (c op fd) : s.pc a.agent = .ioCall c op → op.kind = .accept → env.io = .done fd →
      s.os.file fd = none → s'.os = s.os.issue fd env.flags → (s'.pc a.agent).adjusts = none →
      Files s s' a env
  | closes (fd) : Pc.Does a.agent (s.pc a.agent) (.osClose fd) → s'.os = s.os.close fd →
      (s'.pc a.agent).adjusts = none → Files s s' a env
  | adopting (c fd f use) : s.os.file fd = some f → s'.pc a.agent = .fdAdopting c fd f.flags use →
      s'.os = s.os.setFlags fd (f.flags ||| oNonblock) → Files s s' a env
  | adopted (c fd flags use) : s.pc a.agent = .fdAdopting c fd flags use →
      s'.os = s.os.noteAdopt fd flags → (s'.pc a.agent).adjusts = none → Files s s' a env
  | restoring (c fd flags) : s.pc a.agent = .called c (.fdRelease fd) →
      s'.pc a.agent = .fdRestoring c fd flags → s'.os = s.os → Files s s' a env
  | restored (c fd flags) : s.pc a.agent = .fdRestoring c fd flags →
      s'.os = (s.os.setFlags fd flags).noteRelease fd → (s'.pc a.agent).adjusts = none →
      Files s s' a env
  | released (c fd) : s.pc a.agent = .called c (.fdRelease fd) →
      s'.os = s.os.noteRelease fd → (s'.pc a.agent).adjusts = none → Files s s' a env

section Fields

variable (s : Sys) (a : Actor) (c : CallId) (role : Role) (rc : Rc) (rt : Rt) (p : Pc)

@[simp] theorem ret_os : (s.ret a c role rc rt).os = s.os := rfl

@[simp] theorem ret_pc : (s.ret a c role rc rt).pc a.agent = .user := Function.update_self ..

@[simp] theorem setPc_os (g : Agent) : (s.setPc g p).os = s.os := rfl

@[simp] theorem setPc_pc (g : Agent) : (s.setPc g p).pc g = p := Function.update_self ..

@[simp] theorem retParked_os : (s.retParked a c rc).os = s.os := rfl

@[simp] theorem retParked_pc : (s.retParked a c rc).pc a.agent = .user := Function.update_self ..

@[simp] theorem switch_os (w : Nat) (t : TaskId) : (s.switch w t rt p).os = s.os := rfl

@[simp] theorem switch_pc (w : Nat) (t : TaskId) : (s.switch w t rt p).pc (.task t) = p :=
  Function.update_self ..

end Fields

variable {a : Actor} {c : CallId} {env : Env} {role : Role} {rc : Rc} {rt : Rt} {p : Pc}

theorem Files.back (hos : s'.os = s.os) : s.Files (s'.ret a c role rc rt) a env :=
  .same hos (congrArg Pc.adjusts (ret_pc ..))

theorem Files.ret : s.Files (s.ret a c role rc rt) a env := .back rfl

theorem Files.retParked (hos : s'.os = s.os) : s.Files (s'.retParked a c rc) a env :=
  .same hos (congrArg Pc.adjusts (retParked_pc ..))

/-- The call goes on elsewhere. -/
theorem Files.goes (hos : s'.os = s.os) (hp : p.adjusts = none) :
    s.Files (s'.setPc a.agent p) a env :=
  .same hos ((congrArg Pc.adjusts (setPc_pc ..)).trans hp)

theorem Files.switch {w : Nat} {t : TaskId} (hp : p.adjusts = none) :
    s.Files (s.switch w t rt p) (.task w t) env :=
  .same rfl ((congrArg Pc.adjusts (switch_pc ..)).trans hp)

theorem conclude_files (hp : p.adjusts = none) (x : Outcome × Rt) :
    s.Files (s.conclude a c role p x) a env := by
  unfold conclude
  split
  · exact .ret
  · split
    · exact .switch hp
    · exact .ret

theorem waitReturn_files {use : WaitUse} : s.Files (s.waitReturn a c rc rt use) a env := by
  unfold waitReturn
  split
  · exact .ret
  · split
    · exact .goes rfl rfl
    · exact .ret

theorem adoptFailed_files {fd : Nat} {use : AdoptUse} :
    s.Files (s.adoptFailed a c fd rc rt use) a env := by
  cases use with
  | adopt => exact .ret
  | accepted => exact .goes rfl rfl
  | io op => exact .ret

theorem waitSection_files {fd events timeoutMs nowNs : Nat} {use : WaitUse} :
    s.Files (s.waitSection a c fd events timeoutMs nowNs use env) a env := by
  unfold waitSection
  split
  · exact waitReturn_files
  · split
    · exact waitReturn_files
    · exact .switch rfl

theorem ensureInit_files {k fail : Rt → Sys} (hk : ∀ rt, s.Files (k rt) a env)
    (hf : ∀ rt, s.Files (fail rt) a env) : s.Files (s.ensureInit k fail) a env := by
  unfold ensureInit
  split
  · exact hk _
  · exact hf _

theorem adoptFcntl_files {fd : Nat} {use : AdoptUse} : s.Files (s.adoptFcntl a c fd use env) a env := by
  unfold adoptFcntl
  split
  · exact adoptFailed_files
  · next f hf =>
      split
      · exact .adopting c fd f use hf (setPc_pc ..) rfl
      · exact adoptFailed_files

theorem adoptSection_files {fd flags : Nat} {use : AdoptUse}
    (hpc : s.pc a.agent = .fdAdopting c fd flags use) :
    s.Files (s.adoptSection a c fd flags use env) a env := by
  unfold adoptSection
  split
  · cases use with
    | adopt => exact .adopted c fd flags .adopt hpc rfl (congrArg Pc.adjusts (ret_pc ..))
    | accepted => exact .adopted c fd flags .accepted hpc rfl (congrArg Pc.adjusts (ret_pc ..))
    | io op => exact .adopted c fd flags (.io op) hpc rfl (congrArg Pc.adjusts (setPc_pc ..))
  · exact adoptFailed_files

theorem releaseFcntl_files {fd flags : Nat} (hpc : s.pc a.agent = .fdRestoring c fd flags) :
    s.Files (s.releaseFcntl a c fd flags env) a env := by
  unfold releaseFcntl
  split
  · exact .ret
  · split
    · exact .restored c fd flags hpc rfl (congrArg Pc.adjusts (ret_pc ..))
    · exact .ret

theorem callApi_files {call : Api} (hpc : s.pc a.agent = .called c call) :
    s.Files (s.callApi a c env call) a env := by
  cases call with
  | fdAdopt fd => exact adoptFcntl_files
  | fdRelease fd =>
      simp only [callApi, releaseSection]
      split
      · exact .restoring c fd _ hpc (setPc_pc ..) rfl
      · exact .released c fd hpc rfl (congrArg Pc.adjusts (ret_pc ..))
      · exact .ret
  | fdRead fd len timeoutMs =>
      simp only [callApi]
      split
      · exact .ret
      · exact adoptFcntl_files
  | fdWrite fd len timeoutMs =>
      simp only [callApi]
      split
      · exact .ret
      · exact adoptFcntl_files
  | netAccept fd timeoutMs => exact adoptFcntl_files
  | go fn stackSize wantHandle =>
      refine ensureInit_files (fun rt => ?_) fun rt => .ret
      split
      exact .ret
  | chanCreate elemSize capacity => exact ensureInit_files (fun rt => .ret) fun rt => .ret
  | run workers sleepForTimers =>
      simp only [callApi]
      split
      · exact .ret
      · refine ensureInit_files (fun rt => ?_) fun rt => .ret
        split
        · exact .ret
        · exact .goes rfl rfl
  | fdWait fd events timeoutMs =>
      simp only [callApi]
      split
      · exact waitSection_files
      · exact .ret
  | fdClose fd =>
      simp only [callApi]
      split
      · exact .goes rfl rfl
      · exact .ret
  | select cases =>
      simp only [callApi]
      split
      · exact .ret
      · split
        · exact .ret
        · exact .goes rfl rfl
  | shutdown =>
      simp only [callApi]
      split
      · exact .ret
      · split
        · exact .ret
        · split <;> exact .ret
  | chanSend ch value | chanRecv ch value =>
      cases ch with
      | none => exact .ret
      | some ch =>
          cases value with
          | none => exact .ret
          | some addr => exact conclude_files rfl _
  | chanTrySend ch value | chanTryRecv ch value =>
      cases ch with
      | none => exact .ret
      | some ch => cases value <;> exact .ret
  | join h => exact conclude_files rfl _
  | yield | sleep ms =>
      cases a with
      | task w t =>
          simp only [callApi]
          exact conclude_files rfl _
      | ext n => exact .ret
  | cancelled => cases a <;> exact .ret
  | cancel h | status h | release h | chanClose ch | chanDestroy ch => exact .ret

theorem ioStep_files {op : IoOp} (hpc : s.pc a.agent = .ioCall c op)
    (h : s.ioStep a c op env = some s') : s.Files s' a env := by
  unfold ioStep at h
  split at h
  · cases h
    exact .goes rfl rfl
  · cases h
    exact .ret
  · cases h
    exact .ret
  · split at h
    · cases h
      exact .goes rfl rfl
    · cases h
      exact .ret
  · next fd hio hk =>
      split at h
      · cases h
      · next hnone =>
          cases h
          exact .accepts c op fd hpc hk hio (by simpa using hnone) rfl
            (congrArg Pc.adjusts (setPc_pc ..))

theorem cont_files (h : s.continueCall a env = some s') : s.Files s' a env := by
  unfold continueCall at h
  split at h
  · next c call hpc =>
      split at h <;> cases h
      exact callApi_files hpc
  · next c cases p i hpc =>
      split at h
      · cases h
      · split at h <;> cases h
        · unfold selectTrial
          split
          · split
            · exact .goes rfl rfl
            · exact .back rfl
          · exact .goes rfl rfl
        · rcases selectAfterTrials_cases _ _ c cases p with ⟨d, heq⟩ | heq <;> rw [heq]
          · exact .back rfl
          · exact .goes rfl rfl
  · split at h <;> cases h
    exact conclude_files rfl _
  · cases h
    exact .retParked rfl
  · cases h
    exact .retParked rfl
  · cases h
    exact .retParked rfl
  · cases h
    exact .goes rfl rfl
  · split at h <;> cases h
    exact waitReturn_files
  · cases h
    exact adoptFcntl_files
  · next c fd flags use hpc =>
      split at h <;> cases h
      exact adoptSection_files hpc
  · next c fd flags hpc =>
      cases h
      exact releaseFcntl_files hpc
  · next hpc => exact ioStep_files hpc h
  · split at h <;> cases h
    exact waitSection_files
  · next c fd hpc =>
      cases h
      exact .closes fd (.inr ⟨c, hpc⟩) rfl (congrArg Pc.adjusts (ret_pc ..))
  · next c fd inst hpc =>
      cases h
      unfold closeStep
      split
      · exact .goes rfl rfl
      · exact .closes fd (.inl ⟨c, inst, hpc⟩) rfl (congrArg Pc.adjusts (setPc_pc ..))
  · split at h <;> cases h
    exact .ret
  · split at h
    · cases h
    · split at h
      · split at h
        · cases h
          exact .goes rfl rfl
        · cases h
          exact .ret
      · cases h
        exact .goes rfl rfl
  · split at h
    · cases h
    · split at h
      · split at h <;> cases h <;> exact .goes rfl rfl
      · cases h
        exact .goes rfl rfl
  · split at h
    · cases h
    · split at h <;> cases h
      exact .back rfl
  · split at h
    · cases h
    · split at h <;> cases h
      exact .back rfl
  · cases h

/-- What a step does to the descriptor table. -/
inductive Filed (s s' : Sys) : Act → Prop where
  | same (act) : (∀ a env, act ≠ .cont a env) → s'.os = s.os → Filed s s' act
  | opens (a : Actor) (fd flags : Nat) : s.os.file fd = none → s'.os = s.os.issue fd flags →
      Filed s s' (.osOpen a fd flags)
  | shuts (a : Actor) (fd : Nat) : s'.os = s.os.close fd → Filed s s' (.osClose a fd)
  | cont (a : Actor) (env : Env) : s.Files s' a env → Filed s s' (.cont a env)

theorem Files.of_tick {tape : List Bool} (h : (s.tick tape).Files s' a env) : s.Files s' a env := by
  cases h with
  | same hos hp => exact .same hos hp
  | accepts c op fd hpc hk hio hnone hos hp => exact .accepts c op fd hpc hk hio hnone hos hp
  | closes fd hd hos hp => exact .closes fd hd hos hp
  | adopting c fd f use hf hpc hos => exact .adopting c fd f use hf hpc hos
  | adopted c fd flags use hpc hos hp => exact .adopted c fd flags use hpc hos hp
  | restoring c fd flags hpc hp hos => exact .restoring c fd flags hpc hp hos
  | restored c fd flags hpc hos hp => exact .restored c fd flags hpc hos hp
  | released c fd hpc hos hp => exact .released c fd hpc hos hp

theorem workerPoll_os (w : Nat) (timed : Bool) (k : PollCont) (rt : Rt) :
    (s.workerPoll w timed k rt).os = s.os := by
  unfold workerPoll
  split <;> rfl

theorem workerIdle_os (w : Nat) : (s.workerIdle w env).os = s.os := by
  unfold workerIdle
  split
  · rfl
  · split
    · rfl
    · split
      · exact workerPoll_os ..
      · split
        · split <;> rfl
        · split
          · split <;> rfl
          · rfl

theorem workerStep_os {w : Nat} (h : s.workerStep w env = some s') : s'.os = s.os := by
  unfold workerStep at h
  split at h
  · split at h
    · cases h
    · split at h <;> cases h <;> rfl
  · split at h <;> cases h
    unfold workerTop
    split
    · rfl
    · split
      · rfl
      · dsimp only
        split
        · exact workerPoll_os ..
        · rfl
  · split at h <;> cases h
    unfold workerPop
    split
    · dsimp only
      split <;> rfl
    · exact workerIdle_os w
  · next k batch _ =>
    split at h <;> cases h
    cases k <;> rfl
  · next k _ =>
    split at h <;> cases h
    cases k <;> rfl
  · split at h <;> cases h
    rfl
  · split at h <;> cases h
    rfl
  · cases h

theorem filed_of_step {act : Act} (h : machine.step s act = some s') : s.Filed s' act := by
  simp only [machine] at h
  cases act with
  | api a call =>
      simp only [step] at h
      split at h <;> cases h
      exact .same _ (by simp) rfl
  | cont a env =>
      simp only [step] at h
      split at h
      · exact .cont a env (cont_files h).of_tick
      · cases h
  | finish w t =>
      simp only [step] at h
      split at h <;> cases h
      exact .same _ (by simp) rfl
  | write a addr v =>
      simp only [step] at h
      split at h <;> cases h
      exact .same _ (by simp) rfl
  | osOpen a fd flags =>
      simp only [step] at h
      split at h
      · next hc =>
          cases h
          simp only [Bool.and_eq_true, Option.isNone_iff_eq_none] at hc
          exact .opens a fd flags hc.2 rfl
      · cases h
  | osClose a fd =>
      simp only [step] at h
      split at h <;> cases h
      exact .shuts a fd rfl
  | worker w env => exact .same _ (by simp) (workerStep_os (s := s.tick env.tape) h)
  | collect w batch =>
      simp only [step] at h
      split at h <;> cases h
      exact .same _ (by simp) rfl

end Sys
end Microthread
