import Microthread.Properties.Marks
import Microthread.Properties.Solitude
import Microthread.System.Files

/-!
# Adopted descriptors

`mt_fd_adopt` saves the status flags of a descriptor in the table entry of its number, once, and
`mt_fd_release` restores what it finds there. The entry belongs to the number: `mt_fd_close` does
not touch what is saved, so the flags may outlive the descriptor they have been read from.
-/

namespace Microthread

open Foundation Rt

/-! ## The saved flags -/

/-- The flags that `mt_fd_release` restores, if the descriptor has been adopted. -/
def FdGeneration.saved (g : FdGeneration) : Option Int :=
  if g.adopted then some g.originalFlags else none

def savedIn (gens : List FdGeneration) (fd : Nat) : Option Int :=
  (gens.find? (·.fd == fd)).bind (·.saved)

section Table

variable {gens : List FdGeneration} {fd : Nat}

theorem savedIn_insert {g : FdGeneration} (hg : gens.find? (·.fd == g.fd) = none)
    (ha : g.adopted = false) (fd : Nat) : savedIn (g :: gens) fd = savedIn gens fd := by
  by_cases hfd : fd = g.fd
  · subst hfd
    simp [savedIn, hg, FdGeneration.saved, ha]
  · simp [savedIn, Ne.symm hfd]

theorem savedIn_modGeneration {f : FdGeneration → FdGeneration} (hf : ∀ g, (f g).fd = g.fd)
    (hs : ∀ g, (f g).saved = g.saved) (gens : List FdGeneration) (fd fd' : Nat) :
    savedIn (modGeneration fd f gens) fd' = savedIn gens fd' := by
  rw [savedIn, savedIn, find_modGeneration hf]
  split
  · cases gens.find? (·.fd == fd') with
    | none => rfl
    | some g => exact hs g
  · rfl

theorem savedIn_adopt {g : FdGeneration} (hfound : gens.find? (·.fd == fd) = some g) (flags : Int)
    (fd' : Nat) :
    savedIn (modGeneration fd (fun g => { g with adopted := true, originalFlags := flags }) gens) fd' =
      if fd' = fd then some flags else savedIn gens fd' := by
  rw [savedIn, find_modGeneration
    (f := fun g => { g with adopted := true, originalFlags := flags }) fun _ => rfl]
  split
  · next hfd =>
      subst hfd
      rw [hfound]
      rfl
  · rfl

theorem savedIn_eraseP (hu : Unique gens) (fd' : Nat) :
    savedIn (gens.eraseP (·.fd == fd)) fd' = if fd' = fd then none else savedIn gens fd' := by
  split
  · next hfd =>
      subst hfd
      rw [savedIn, find_eraseP_self hu]
      rfl
  · next hfd => rw [savedIn, savedIn, find_eraseP_of_ne hfd]

end Table

namespace Rt

variable {s s' a : Rt} {t : TaskId} {fd : Nat}

/-- What `mt_fd_release` would restore. -/
def saved (s : Rt) (fd : Nat) : Option Int := savedIn s.fdGenerations fd

theorem saved_of_find {g : FdGeneration} (hg : s.fdGenerationFind fd = some g) :
    s.saved fd = g.saved := by
  change (s.fdGenerationFind fd).bind _ = _
  rw [hg]
  rfl

theorem saved_of_find_none (hg : s.fdGenerationFind fd = none) : s.saved fd = none := by
  change (s.fdGenerationFind fd).bind _ = _
  rw [hg]
  rfl

/-- The saved flags are those of before. -/
def SameSaved (s s' : Rt) : Prop := ∀ fd, s'.saved fd = s.saved fd

theorem SameSaved.of_eq (hg : s'.fdGenerations = s.fdGenerations) : SameSaved s s' := fun fd => by
  rw [saved, saved, hg]

theorem SameSaved.trans (h : SameSaved s a) (h' : SameSaved a s') : SameSaved s s' :=
  fun fd => (h' fd).trans (h fd)

theorem SameSaved.insert {g : FdGeneration} (hg : s.fdGenerationFind g.fd = none)
    (ha : g.adopted = false) (tape : List Bool) :
    SameSaved s { s with fdGenerations := g :: s.fdGenerations, tape := tape } :=
  savedIn_insert hg ha

theorem SameSaved.modify {f : FdGeneration → FdGeneration} (hf : ∀ g, (f g).fd = g.fd)
    (hs : ∀ g, (f g).saved = g.saved) :
    SameSaved s { s with fdGenerations := modGeneration fd f s.fdGenerations } :=
  savedIn_modGeneration hf hs s.fdGenerations fd

theorem Current.sameSaved {gen : Nat} {gens : List FdGeneration} (h : Current s fd gen gens)
    (tape : List Bool) : SameSaved s { s with fdGenerations := gens, tape := tape } := by
  cases h with
  | found => exact .of_eq rfl
  | failed => exact .of_eq rfl
  | entered hg => exact .insert hg rfl tape

theorem fdSetClosing_sameSaved (s : Rt) (fd : Nat) (b : Bool) :
    SameSaved s (s.fdSetClosing fd b).2 := by
  unfold fdSetClosing
  split
  · exact .modify (fun _ => rfl) fun _ => rfl
  · next hg =>
      obtain ⟨ok, tape, h⟩ := s.ask_eq
      rw [h]
      cases ok with
      | false => exact .of_eq rfl
      | true => exact .insert (g := ⟨fd, 1, b, false, 0⟩) hg rfl tape

theorem fdGenerationBump_sameSaved (s : Rt) (fd : Nat) : SameSaved s (s.fdGenerationBump fd) := by
  unfold fdGenerationBump
  split
  · exact .modify (fun _ => rfl) fun _ => rfl
  · next hg =>
      obtain ⟨ok, tape, h⟩ := s.ask_eq
      rw [h]
      cases ok with
      | false => exact .of_eq rfl
      | true => exact .insert (g := ⟨fd, 2, false, false, -1⟩) hg rfl tape

theorem Drifts.sameSaved (hd : Drifts s s') : SameSaved s s' := by
  induction hd with
  | refl => exact .of_eq rfl
  | tail _ hd ih =>
      refine ih.trans ?_
      cases hd with
      | same hs => exact .of_eq hs.generations
      | insert g hg _ ha => exact .insert hg ha _
      | wake | unlink => exact .of_eq rfl

theorem FdWaits.sameSaved {events : Nat} {inst : Option Nat} {o : Outcome}
    (hw : FdWaits s t fd events inst o s') : SameSaved s s' := by
  cases hw with
  | answered => exact .of_eq rfl
  | refused rc gen gens interest filters tape _ hcur =>
      have hset : SameSaved s { s with tape := s.tape.tail } := .of_eq rfl
      exact (hset.trans (hcur.sameSaved s.tape.tail)).trans (.of_eq rfl)
  | parked gen gens tape timers wakeNs hcur =>
      have hset : SameSaved s { s with tape := s.tape.tail } := .of_eq rfl
      exact (hset.trans (hcur.sameSaved s.tape.tail)).trans (.of_eq rfl)

/-- `mt_fd_close` does not touch what is saved. -/
theorem Inv.fdCloseBegin_sameSaved (h : s.Inv) (fd : Nat) : SameSaved s (s.fdCloseBegin fd).2 := by
  have hset := s.fdSetClosing_sameSaved fd true
  have hregen := s.fdSetClosing_regen fd true
  unfold Rt.fdCloseBegin
  split
  · exact .of_eq rfl
  · split
    · next a heq =>
        rw [heq] at hset hregen
        have hbinv : (a.fdGenerationBump fd).Inv :=
          (hregen.trans (a.fdGenerationBump_regen fd)).quiet.inv h
        have hshifts : FdShifts (.close fd) (a.fdGenerationBump fd) (a.fdWakeForClose fd) :=
          hbinv.fdWakeSelected (k := .close fd) (·.fd == fd) .closed
            (fun _ x hx => ⟨by simpa using hx, rfl, rfl⟩) (List.Subset.refl _)
        exact (hset.trans (a.fdGenerationBump_sameSaved fd)).trans (FdShifts.drifts hshifts).sameSaved
    · next a _ heq =>
        rw [heq] at hset
        exact hset

/-- An adoption saves the flags unless the number has been adopted already. -/
theorem fdAdopt_saved (s : Rt) (fd flags : Nat) :
    ((s.fdAdopt fd flags).1 ≠ .ok ∧ SameSaved s (s.fdAdopt fd flags).2) ∨
      ((s.fdAdopt fd flags).1 = .ok ∧ ∀ fd', (s.fdAdopt fd flags).2.saved fd' =
        if fd' = fd then some ((s.saved fd).getD flags) else s.saved fd') := by
  unfold fdAdopt
  split
  · exact .inl ⟨by simp, .of_eq rfl⟩
  · obtain ⟨gen, gens, tape, hcur, heq⟩ := s.fdGenerationCurrent_eq fd
    have hsame := hcur.sameSaved tape
    rw [heq]
    split
    · next a hz =>
        cases hz
        exact .inl ⟨by simp, hsame⟩
    · next n a hn hz =>
        cases hz
        refine .inr ?_
        split
        · next g hg =>
            have hfd : s.saved fd = g.saved := (hsame fd).symm.trans (saved_of_find hg)
            split
            · next ha =>
                refine ⟨rfl, fun fd' => ?_⟩
                rw [hsame fd']
                split
                · next heq =>
                    rw [heq, hfd, FdGeneration.saved, if_pos ha]
                    rfl
                · rfl
            · next ha =>
                refine ⟨rfl, fun fd' => ?_⟩
                have hg : gens.find? (·.fd == fd) = some g := hg
                have hmod := savedIn_adopt hg flags fd'
                rw [hfd, FdGeneration.saved, if_neg ha]
                refine hmod.trans ?_
                split
                · rfl
                · exact hsame fd'
        · next hg =>
            exfalso
            cases hcur with
            | found g hfound => cases hfound.symm.trans hg
            | failed => exact hn rfl
            | entered => simp [fdGenerationFind] at hg

/-- A release is refused, or it takes what is saved for the descriptor. -/
theorem fdRelease_saved (s : Rt) (fd : Nat) :
    s.fdRelease fd = (.state, -1, s) ∨
      ((s.fdRelease fd).1 = .ok ∧ (s.fdRelease fd).2.1 = (s.saved fd).getD (-1) ∧
        (Unique s.fdGenerations → ∀ fd', (s.fdRelease fd).2.2.saved fd' =
          if fd' = fd then none else s.saved fd')) := by
  unfold fdRelease
  split
  · exact .inl rfl
  · refine .inr ⟨rfl, ?_, fun hu fd' => ?_⟩
    · cases hg : s.fdGenerationFind fd with
      | none => simp [saved_of_find_none hg]
      | some g => cases ha : g.adopted <;> simp [saved_of_find hg, FdGeneration.saved, ha]
    · simp only [fdGenerationRemove]
      split
      · exact savedIn_eraseP hu fd'
      · next hg =>
          split
          · next hfd => rw [hfd, saved_of_find_none hg]
          · rfl

end Rt

namespace Sys

variable {s s' : Sys} {act : Act} {a : Actor} {fd : Nat}

/-- Nobody else acts in an idle runtime. -/
theorem Alone.step {n : Nat} (h : s.Alone (.ext n)) (hok : s.Ok) (hrun : s.rt.running = false)
    (hs : machine.step s act = some s') :
    (∃ env, act = .cont (.ext n) env) ∨ s'.rt.fdGenerations = s.rt.fdGenerations ∧
      s'.rt.initialized = s.rt.initialized := by
  have hoff : ∀ w, s.workers w = .off := fun w => by
    by_contra hne
    simp [(hok.run.bound w hne).2] at hrun
  simp only [machine] at hs
  cases act with
  | cont b env =>
      simp only [step] at hs
      split at hs
      · next hb =>
          cases b with
          | task w t => simp [enabled, hoff w] at hb
          | ext m =>
              by_cases hm : m = n
              · exact .inl ⟨env, by rw [hm]⟩
              · have huser : (s.tick env.tape).pc (Actor.ext m).agent = .user :=
                  h m (by simpa using hm)
                have hs : (s.tick env.tape).continueCall (.ext m) env = some s' := hs
                rw [continueCall_user huser] at hs
                cases hs
      · cases hs
  | worker w env =>
      have hw : (s.tick env.tape).workers w = .off := hoff w
      have hs : (s.tick env.tape).workerStep w env = some s' := hs
      simp [workerStep, hw] at hs
  | collect w batch => simp [step, hoff w] at hs
  | api b call =>
      simp only [step] at hs
      split at hs <;> cases hs
      cases b <;> exact .inr ⟨rfl, rfl⟩
  | finish w t => simp [step, enabled, hoff w] at hs
  | write b addr v | osOpen b fd flags | osClose b fd =>
      simp only [step] at hs
      split at hs <;> cases hs
      exact .inr ⟨rfl, rfl⟩

/-! ## What a step does to the saved flags -/

/-- What a section does to the saved flags. -/
inductive Saves (s : Sys) (act : Act) (r : Rt) : Prop where
  | same : SameSaved s.rt r → Saves s act r
  | adopts (a : Actor) (env : Env) (c : CallId) (fd flags : Nat) (use : AdoptUse) :
      act = .cont a env → s.pc a.agent = .fdAdopting c fd flags use →
      (∀ fd', r.saved fd' = if fd' = fd then some ((s.rt.saved fd).getD flags) else s.rt.saved fd') →
      Saves s act r
  | releases (a : Actor) (env : Env) (c : CallId) (fd : Nat) :
      act = .cont a env → s.pc a.agent = .called c (.fdRelease fd) →
      (∀ fd', r.saved fd' = if fd' = fd then none else s.rt.saved fd') → Saves s act r
  | clears (n : Nat) (env : Env) (c : CallId) : act = .cont (.ext n) env →
      s.pc (.ext n) = .called c .shutdown → s.rt.running = false → (∀ fd, r.saved fd = none) →
      Saves s act r

theorem Watch.saves {r : Rt} (hw : s.Watch act r) (hok : s.Ok) (hu : Unique s.rt.fdGenerations)
    (hact : ∀ n c, s.pc (.ext n) = .called c .shutdown → s.rt.running = false →
      s.Alone (.ext n) → ∃ env, act = .cont (.ext n) env) : s.Saves act r := by
  cases hw with
  | drifts hd => exact .same hd.sameSaved
  | op a env heq ho hsame =>
      have hlast := SameSaved.of_eq hsame.generations
      cases ho with
      | tape tape => exact .same hlast
      | adopt fd flags hd =>
          obtain ⟨c, use, hpc⟩ := hd
          rcases s.rt.fdAdopt_saved fd flags with ⟨-, hs⟩ | ⟨-, hs⟩
          · exact .same (hs.trans hlast)
          · exact .adopts a env c fd flags use heq hpc fun fd' => (hlast fd').trans (hs fd')
      | release fd hd =>
          obtain ⟨c, hpc⟩ := hd
          rcases s.rt.fdRelease_saved fd with hs | ⟨-, -, hs⟩
          · rw [hs] at hlast
            exact .same hlast
          · exact .releases a env c fd heq hpc fun fd' => (hlast fd').trans (hs hu fd')
      | close fd => exact .same ((hok.rest.inv.fdCloseBegin_sameSaved fd).trans hlast)
      | unmark fd => exact .same ((s.rt.fdSetClosing_sameSaved fd false).trans hlast)
      | forget fd => exact .same hlast
  | refuse w t env fd events inst rc _ _ _ hfd hsame =>
      exact .same (hfd.sameSaved.trans (.of_eq hsame.generations))
  | park w t env fd events inst _ _ _ _ hfd hsame =>
      exact .same (hfd.sameSaved.trans (.of_eq hsame.generations))
  | osClose a fd _ hsame => exact .same (.of_eq hsame.generations)
  | reset _ hg _ hpc =>
      obtain ⟨n, c, hpc, hr, halone⟩ := hpc
      obtain ⟨env, heq⟩ := hact n c hpc hr halone
      refine .clears n env c heq hpc hr fun fd => ?_
      rw [saved, hg]
      rfl

theorem Watch.unique {r : Rt} (hw : s.Watch act r) (hok : s.Ok) (hu : Unique s.rt.fdGenerations) :
    Unique r.fdGenerations := by
  cases hw with
  | drifts hd => exact Unique.drifts hu hd
  | op a env heq ho hsame =>
      rw [hsame.generations]
      cases ho with
      | tape tape => exact hu
      | adopt fd flags => exact (s.rt.fdAdopt_sameMarks fd flags).unique hu
      | release fd => exact (s.rt.fdRelease_sameMarks fd).unique hu
      | close fd =>
          rcases hok.rest.inv.fdCloseBegin_cases fd with ⟨-, hr⟩ | ⟨a, hr, hm, -⟩
          · exact hr.unique hu
          · exact Unique.drifts (hr.unique hu) (FdShifts.drifts hm)
      | unmark fd => exact (s.rt.fdSetClosing_regenerates (P := fun _ => True) fd false).unique hu
      | forget fd => exact hu
  | refuse w t env fd events inst rc _ _ _ hfd hsame =>
      exact hsame.generations ▸ hfd.sameMarks.unique hu
  | park w t env fd events inst _ _ _ _ hfd hsame =>
      exact hsame.generations ▸ hfd.sameMarks.unique hu
  | osClose a fd _ hsame => exact hsame.generations ▸ hu
  | reset _ hg =>
      rw [hg]
      exact List.nodup_nil

theorem unique_of_reach (h : machine.Reach Contract s) : Unique s.rt.fdGenerations :=
  watch_invariant (C := fun _ _ => True) (fun _ _ hs hu => hs.generations ▸ hu)
    (fun _ _ hg _ => hg ▸ List.nodup_nil) (fun _ _ _ _ _ hc => hc)
    (fun _ _ _ hok _ hu hw => hw.unique hok hu) (h.mono fun _ _ hc => ⟨hc, trivial⟩)

theorem Saves.of_prepared {p : Sys} {r : Rt} (hpc : p.pc = s.pc)
    (hrun : p.rt.running = s.rt.running) (hsame : SameSaved s.rt p.rt) (h : p.Saves act r) :
    s.Saves act r := by
  cases h with
  | same hs => exact .same (hsame.trans hs)
  | adopts a env c fd flags use heq hp hs =>
      refine .adopts a env c fd flags use heq (hpc ▸ hp) fun fd' => ?_
      rw [hs, hsame, hsame]
  | releases a env c fd heq hp hs =>
      refine .releases a env c fd heq (hpc ▸ hp) fun fd' => ?_
      rw [hs, hsame]
  | clears n env c heq hp hr hs => exact .clears n env c heq (hpc ▸ hp) (hrun ▸ hr) hs

/-- What a step does to the saved flags, unless it initialises the runtime and loses some. -/
theorem saves_of_step (hok : s.Ok) (hu : Unique s.rt.fdGenerations) (hcon : s.Contract act)
    (hblank : s.rt.initialized = false → ∀ fd, s.rt.saved fd = none)
    (hs : machine.step s act = some s') : s.Saves act s'.rt := by
  by_cases hsame : s'.rt.fdGenerations = s.rt.fdGenerations
  · exact .same (.of_eq hsame)
  · obtain ⟨s₀, hp, hcase⟩ := hok.step_cases hcon hs
    have hok₀ := hp.ok hok
    have hact : ∀ n c, s.pc (.ext n) = .called c .shutdown → s.rt.running = false →
        s.Alone (.ext n) → ∃ env, act = .cont (.ext n) env := fun n c hpc hrun halone =>
      (halone.step hok hrun hs).resolve_right fun heq => hsame heq.1
    rcases hp.cases hok with ⟨tape, rfl⟩ | ⟨hinit, -, rt, hb, rfl⟩
    · exact .of_prepared (p := s.tick tape) rfl rfl (.of_eq rfl)
        ((hcase.watch hok₀).saves hok₀ hu hact)
    · have hrun : rt.running = s.rt.running := hb.running.trans (hok.off hinit).2.symm
      have hu₀ : Unique rt.fdGenerations := by
        rw [hb.fdGenerations]
        exact List.nodup_nil
      refine .of_prepared (p := { s with rt := rt }) rfl hrun (fun fd => ?_)
        ((hcase.watch hok₀).saves hok₀ hu₀ fun n c hpc hr => hact n c hpc (hrun ▸ hr))
      rw [hblank hinit fd]
      change savedIn rt.fdGenerations fd = none
      rw [hb.fdGenerations]
      rfl

theorem initialized_of_step (hok : s.Ok) (hcon : s.Contract act)
    (hs : machine.step s act = some s') (hinit : s.rt.initialized = true) :
    s'.rt.initialized = true ∨ ∃ n env c, act = .cont (.ext n) env ∧
      s.pc (.ext n) = .called c .shutdown ∧ s.rt.running = false := by
  obtain ⟨s₀, hp, hcase⟩ := hok.step_cases hcon hs
  rcases hp.cases hok with ⟨tape, rfl⟩ | ⟨hno, -⟩
  · rcases hcase.initialized_kept (hp.ok hok) with heq | ⟨n, c, hpc, hr, halone⟩
    · exact .inl (heq.trans hinit)
    · have halone : s.Alone (.ext n) := halone
      rcases halone.step hok hr hs with ⟨env, heq⟩ | ⟨-, heq⟩
      · exact .inr ⟨n, env, c, heq, hpc, hr⟩
      · exact .inl (heq.trans hinit)
  · rw [hinit] at hno
    cases hno

/-- The step does not take away what is saved for the descriptor: it is no section of an
`mt_fd_release` of its number, and it does not shut an idle runtime down. -/
def KeepsSaved (s : Sys) (fd : Nat) (act : Act) : Prop :=
  ∀ a env c, act = .cont a env → s.pc a.agent ≠ .called c (.fdRelease fd) ∧
    (s.pc a.agent = .called c .shutdown → s.rt.running = true)

/-- What a test of `KeepsSaved` runs. -/
def keepsSaved (s : Sys) (fd : Nat) : Act → Bool
  | .cont a _ =>
    match s.pc a.agent with
    | .called _ (.fdRelease fd') => fd' != fd
    | .called _ .shutdown => s.rt.running
    | _ => true
  | _ => true

theorem keepsSaved_of_test (h : s.keepsSaved fd act = true) : s.KeepsSaved fd act := by
  rintro a env c rfl
  simp only [keepsSaved] at h
  refine ⟨fun hpc => ?_, fun hpc => ?_⟩
  · simp [hpc] at h
  · simpa [hpc] using h

theorem saved_of_path {flags : Int} (h : machine.Reach Contract s)
    (hinit : s.rt.initialized = true) (hsaved : s.rt.saved fd = some flags)
    (hp : machine.Path (fun s act => s.Contract act ∧ s.KeepsSaved fd act) s s') :
    s'.rt.initialized = true ∧ s'.rt.saved fd = some flags := by
  induction hp with
  | refl => exact ⟨hinit, hsaved⟩
  | @step s₁ act s₂ hp hact hs ih =>
      have hr := h.path (hp.mono fun _ _ hc => hc.1)
      have hok := ok_of_reach (fun _ _ hc => hc) hr
      have hidle : ∀ n env c, act = .cont (.ext n) env → s₁.pc (.ext n) = .called c .shutdown →
          s₁.rt.running ≠ false := fun n env c heq hpc => by
        simp [(hact.2 _ env c heq).2 hpc]
      constructor
      · rcases initialized_of_step hok hact.1 hs ih.1 with hi | ⟨n, env, c, heq, hpc, hrun⟩
        · exact hi
        · exact absurd hrun (hidle n env c heq hpc)
      · have hblank : s₁.rt.initialized = false → ∀ fd, s₁.rt.saved fd = none := fun hno => by
          rw [ih.1] at hno
          cases hno
        cases saves_of_step hok (unique_of_reach hr) hact.1 hblank hs with
        | same hsame => rw [hsame, ih.2]
        | adopts a env c fd' flags' use heq hpc hadopt =>
            rw [hadopt]
            split
            · next hfd =>
                rw [← hfd, ih.2]
                rfl
            · exact ih.2
        | releases a env c fd' heq hpc hrel =>
            rw [hrel, if_neg, ih.2]
            rintro rfl
            exact (hact.2 a env c heq).1 hpc
        | clears n env c heq hpc hrun => exact absurd hrun (hidle n env c heq hpc)

theorem releaseFcntl_of_step {env : Env} {c : CallId} {flags : Nat}
    (hpc : s.pc a.agent = .fdRestoring c fd flags) (hs : machine.step s (.cont a env) = some s') :
    s' = (s.tick env.tape).releaseFcntl a c fd flags env := by
  have hpc' : (s.tick env.tape).pc a.agent = .fdRestoring c fd flags := hpc
  simp only [machine, step] at hs
  split at hs
  · change (s.tick env.tape).continueCall a env = some s' at hs
    simp only [continueCall, hpc'] at hs
    exact (Option.some.inj hs).symm
  · cases hs

theorem adoptSection_of_step {env : Env} {c : CallId} {flags : Nat} {use : AdoptUse}
    (hpc : s.pc a.agent = .fdAdopting c fd flags use)
    (hs : machine.step s (.cont a env) = some s') :
    s' = (s.tick env.tape).adoptSection a c fd flags use env := by
  have hpc' : (s.tick env.tape).pc a.agent = .fdAdopting c fd flags use := hpc
  simp only [machine, step] at hs
  split at hs
  · change (s.tick env.tape).continueCall a env = some s' at hs
    simp only [continueCall, hpc'] at hs
    split at hs
    · cases hs
    · exact (Option.some.inj hs).symm
  · cases hs

/-- While an agent takes no step it stays where it is. -/
theorem pc_of_path {g : Agent} (h : machine.Reach Contract s) (hf : s.pc g ≠ .fresh)
    (hp : machine.Path (fun s act => s.Contract act ∧ act.agent? ≠ some g) s s') :
    s'.pc g = s.pc g := by
  induction hp with
  | refl => rfl
  | step hp hact hs ih =>
      have hok := ok_of_reach (fun _ _ hc => hc) (h.path (hp.mono fun _ _ hc => hc.1))
      obtain ⟨s₀, hprep, hcase⟩ := hok.step_cases hact.1 hs
      have hpc₀ := (congrFun hprep.pc_eq g).trans ih
      exact ((hcase.pc_kept (hpc₀ ▸ hf)).resolve_left hact.2).trans hpc₀

theorem ret_log (s : Sys) (a : Actor) (c : CallId) (role : Role) (rc : Rc) (rt : Rt) :
    (s.ret a c role rc rt).rt.log = rt.log ++ [.done c role rc, .ret c rc] := by
  simp [ret, setPc, Rt.record]

theorem noteRelease_file (o : Os) (fd flags : Nat) (f : OpenFile) (hf : o.file fd = some f) :
    ((o.setFlags fd flags).noteRelease fd).file fd =
      some { f with flags := flags, before := none } := by
  simp [Os.noteRelease, Os.setFlags, hf]

theorem releaseFcntl_eq {env : Env} {c : CallId} {flags : Nat} {f : OpenFile}
    (hf : s.os.file fd = some f) (hosOk : env.osOk = true) :
    s.releaseFcntl a c fd flags env =
      { s with os := (s.os.setFlags fd flags).noteRelease fd }.ret a c .neither .ok s.rt := by
  unfold releaseFcntl
  rw [if_neg (by simp [hf]), if_pos hosOk]

theorem releaseFcntl_pc (s : Sys) (a : Actor) (c : CallId) (fd flags : Nat) (env : Env) :
    (s.releaseFcntl a c fd flags env).pc a.agent = .user := by
  unfold releaseFcntl
  split
  · exact ret_pc ..
  · split <;> exact ret_pc ..

/-- The section of `mt_fd_release` refuses, or goes for the descriptor's flags with what is saved,
or returns if nothing is. -/
theorem releaseSection_cases (s : Sys) (a : Actor) (c : CallId) (fd : Nat) :
    s.releaseSection a c fd = s.ret a c .neither .state s.rt ∨
      ∃ rt, (Unique s.rt.fdGenerations →
          ∀ fd', rt.saved fd' = if fd' = fd then none else s.rt.saved fd') ∧
        rt.initialized = s.rt.initialized ∧ rt.log = s.rt.log ∧
        ((∃ flags : Nat, s.rt.saved fd = some (flags : Int) ∧
            s.releaseSection a c fd = { s with rt := rt }.setPc a.agent (.fdRestoring c fd flags)) ∨
          ((∀ flags : Nat, s.rt.saved fd ≠ some (flags : Int)) ∧ s.releaseSection a c fd =
            { s with os := s.os.noteRelease fd }.ret a c .neither .ok rt)) := by
  have hsaved := s.rt.fdRelease_saved fd
  obtain ⟨gens, tape, hregen⟩ := s.rt.fdRelease_regen fd
  unfold releaseSection
  generalize s.rt.fdRelease fd = x at hsaved hregen
  obtain ⟨rc, flags, rt⟩ := x
  rcases hsaved with heq | ⟨rfl, rfl, hrest⟩
  · cases heq
    exact .inl rfl
  · have hregen : rt = { s.rt with fdGenerations := gens, tape := tape } := hregen
    refine .inr ⟨rt, hrest, by rw [hregen], by rw [hregen], ?_⟩
    cases hsv : s.rt.saved fd with
    | none => exact .inr ⟨by simp, rfl⟩
    | some x =>
        cases x with
        | ofNat n => exact .inl ⟨n, rfl, rfl⟩
        | negSucc n => exact .inr ⟨by simp, rfl⟩

end Sys

/-- What is saved for a number in an initialised runtime stays until the number is released or
the runtime shut down, and the next `mt_fd_release` that is not refused restores it by its next
step, whatever the others do before it. So `mt_fd_close` does not end an adoption: in every run,
the flags that a descriptor is released with are those that the first adoption of its number
has saved since the last release of that number, even if the number has been closed and issued
again, and adopted again, in between. -/
theorem adoption_outlives_close {s s' : Sys} {fd flags : Nat} (h : machine.Reach Sys.Contract s)
    (hinit : s.rt.initialized = true) (hsaved : s.rt.saved fd = some (flags : Int))
    (hp : machine.Path (fun s act => s.Contract act ∧ s.KeepsSaved fd act) s s') :
    s'.rt.saved fd = some (flags : Int) ∧ ∀ a env c s₁,
      s'.pc a.agent = .called c (.fdRelease fd) → s'.Contract (.cont a env) →
      machine.step s' (.cont a env) = some s₁ →
      s₁.rt.log = s'.rt.log ++ [.done c .neither .state, .ret c .state] ∨
      (s₁.rt.saved fd = none ∧ ∀ s₂,
        machine.Path (fun s act => s.Contract act ∧ act.agent? ≠ some a.agent) s₁ s₂ →
        s₂.pc a.agent = .fdRestoring c fd flags ∧ ∀ b f env' s₃, b.agent = a.agent →
          s₂.os.file fd = some f → env'.osOk = true → machine.step s₂ (.cont b env') = some s₃ →
          s₃.os.file fd = some { f with flags := flags, before := none }) := by
  have hkept := (Sys.saved_of_path h hinit hsaved hp).2
  have hr := h.path (hp.mono fun _ _ hc => hc.1)
  refine ⟨hkept, fun a env c s₁ hpc hact hs => ?_⟩
  have hu := Sys.unique_of_reach hr
  have heq := Sys.callApi_of_step hpc hs
  simp only [Sys.callApi] at heq
  rcases (s'.tick env.tape).releaseSection_cases a c fd with href | ⟨rt, hrest, -, -, hrel⟩
  · rw [heq, href]
    exact .inl (Sys.ret_log ..)
  · have hkept' : (s'.tick env.tape).rt.saved fd = some (flags : Int) := hkept
    rcases hrel with ⟨flags', hflags, hrel⟩ | ⟨hno, -⟩
    · rw [hkept', Option.some.injEq, Int.natCast_inj] at hflags
      subst hflags
      have hpc₁ : s₁.pc a.agent = .fdRestoring c fd flags := by
        rw [heq, hrel]
        exact Sys.setPc_pc ..
      have hsaved₁ : s₁.rt.saved fd = none := by
        rw [heq, hrel]
        exact (hrest hu fd).trans (if_pos rfl)
      refine .inr ⟨hsaved₁, fun s₂ hp₂ => ?_⟩
      have hpc₂ : s₂.pc a.agent = .fdRestoring c fd flags :=
        (Sys.pc_of_path (.step hr hact hs) (by simp [hpc₁]) hp₂).trans hpc₁
      refine ⟨hpc₂, fun b f env' s₃ hb hf hosOk hs₃ => ?_⟩
      have hf' : (s₂.tick env'.tape).os.file fd = some f := hf
      rw [Sys.releaseFcntl_of_step (hb ▸ hpc₂) hs₃, Sys.releaseFcntl_eq hf' hosOk]
      exact Sys.noteRelease_file _ fd flags f hf
    · exact absurd hkept' (hno flags)

/-- Descriptor 5 has been adopted with flags 0 and closed with `mt_fd_close`, and another one with
flags 1024 has got its number and been adopted. It is released with flags 0, although another
thread opens a descriptor before the call to `fcntl`. -/
theorem adoption_outlives_close_reissued : ∃ s s' s₁ s₂ s₃ : Sys,
    machine.Reach Sys.Contract s ∧ s.os.inst 5 = some 0 ∧ s.rt.saved 5 = some 0 ∧
    machine.step s' (.cont (.ext 0) {}) = some s₁ ∧
    machine.step s₁ (.osOpen (.ext 1) 6 0) = some s₂ ∧
    machine.step s₂ (.cont (.ext 0) {}) = some s₃ ∧
    s₂.os.file 5 = some ⟨1, 1024 ||| oNonblock, some 1024⟩ ∧
    s₃.os.file 5 = some ⟨1, 0, none⟩ := by
  let test : Sys → Act → Bool := fun s a => s.promised a && Sys.keepsSaved s 5 a
  have htest : ∀ s a, test s a = true → s.Contract a ∧ s.KeepsSaved 5 a := fun s a ha => by
    simp only [test, Bool.and_eq_true] at ha
    exact ⟨Sys.contract_of_promised ha.1, Sys.keepsSaved_of_test ha.2⟩
  obtain ⟨s, hs, hp⟩ := reach_of_promised .poll (List.flatten [[.osOpen (.ext 0) 5 0],
      invoke (.ext 0) (.go true 0 false), invoke (.ext 0) (.fdAdopt 5) 2])
    (fun s => s.os.inst 5 == some 0 && s.rt.initialized && s.rt.saved 5 == some 0 &&
      (machine.replay test s (List.flatten [invoke (.ext 0) (.fdClose 5) 3,
        [.osOpen (.ext 0) 5 1024], invoke (.ext 0) (.fdAdopt 5) 2,
        invoke (.ext 0) (.fdRelease 5) 0])).any fun s' : Sys =>
          s'.pc (.ext 0) == .called 4 (.fdRelease 5) && s'.promised (.cont (.ext 0) {}) &&
          (machine.step s' (.cont (.ext 0) {})).any fun s₁ : Sys =>
            s₁.rt.log == s'.rt.log && s₁.promised (.osOpen (.ext 1) 6 0) &&
              (machine.step s₁ (.osOpen (.ext 1) 6 0)).any fun s₂ : Sys =>
                s₂.os.file 5 == some ⟨1, 1024 ||| oNonblock, some 1024⟩ &&
                  (machine.step s₂ (.cont (.ext 0) {})).isSome)
    (by decide +kernel)
  simp only [Bool.and_eq_true, beq_iff_eq, Option.any_eq_true, Option.isSome_iff_exists] at hp
  obtain ⟨⟨⟨hinst, hinit⟩, hsaved⟩, s', hrun, ⟨hpc, hact⟩, s₁, hstep, ⟨hlog, hopen⟩, s₂, hstep₂,
    hfile, s₃, hstep₃⟩ := hp
  rcases (adoption_outlives_close hs hinit hsaved (Machine.Path.refl.replay htest hrun)).2
      (.ext 0) {} 4 s₁ hpc (Sys.contract_of_promised hact) hstep with hstate | ⟨-, hrest⟩
  · simp [hlog] at hstate
  · have hpath : machine.Path (fun s act => s.Contract act ∧ act.agent? ≠ some (.ext 0)) s₁ s₂ :=
      Machine.Path.refl.step ⟨Sys.contract_of_promised hopen, by simp [Act.agent?, Actor.agent]⟩ hstep₂
    exact ⟨s, s', s₁, s₂, s₃, hs, hinst, hsaved, hstep, hstep₂, hstep₃, hfile,
      (hrest s₂ hpath).2 (.ext 0) _ {} s₃ rfl hfile rfl hstep₃⟩

/-! ## One descriptor after another -/

/-- The number that an `accept` has issued. -/
def Env.issued (env : Env) : Option Nat :=
  match env.io with
  | .done n => some n
  | _ => none

theorem Pc.ne_of_adjusts {p : Pc} (h : p.adjusts ≠ none) : p ≠ .user ∧ p.inRun = false := by
  revert h
  cases p <;> simp [Pc.adjusts, Pc.inRun]

namespace Sys

variable {s s' : Sys} {act : Act} {a : Actor} {g : Agent} {fd : Nat}

/-- Descriptors are opened by the tasks and by thread 0. No number is issued while flags are saved
for it, and no adoption is lost: the runtime is initialised before the first one and not shut
down before the last release. The system call of `mt_fd_release` succeeds. -/
def Matched (s : Sys) : Act → Prop
  | .osOpen a fd _ => (a = .ext 0 ∨ a.current.isSome = true) ∧ s.rt.saved fd = none
  | .cont a env =>
    match s.pc a.agent with
    | .ioCall _ op => op.kind = .accept → ∀ fd ∈ env.issued, s.rt.saved fd = none
    | .fdAdopting .. => s.rt.initialized = true
    | .fdRestoring .. => env.osOk = true
    | .called _ .shutdown => s.rt.running = false → ∀ g ∈ s.rt.fdGenerations, g.adopted = false
    | _ => True
  | _ => True

instance (s : Sys) (act : Act) : Decidable (s.Matched act) := by
  unfold Matched
  split
  · infer_instance
  · split <;> infer_instance
  · infer_instance

/-- One worker, one other thread that calls the API or opens descriptors, and matched adoptions. -/
def SoloMatched (s : Sys) (act : Act) : Prop := s.Solo act ∧ s.Matched act

instance (s : Sys) (act : Act) : Decidable (s.SoloMatched act) := inferInstanceAs (Decidable (_ ∧ _))

/-- The saved flags are those of the descriptors that are open. -/
structure Kept (s : Sys) : Prop where
  running : ∀ t, (s.pc (.task t)).adjusts ≠ none → ∃ w, s.workers w = .running t
  files : ∀ fd f, s.os.file fd = some f → (∀ g c flags, s.pc g ≠ .fdRestoring c fd flags) →
    f.before.map Int.ofNat = s.rt.saved fd
  restoring : ∀ g c fd flags f, s.pc g = .fdRestoring c fd flags → s.os.file fd = some f →
    f.before = some flags ∧ s.rt.saved fd = none
  adopting : ∀ g c fd flags use f, s.pc g = .fdAdopting c fd flags use → s.os.file fd = some f →
    f.flags = flags ||| oNonblock
  blank : s.rt.initialized = false → ∀ fd, s.rt.saved fd = none

/-- Whoever adjusts a descriptor has nobody beside it. -/
theorem Kept.solitary (h : s.Kept) (hok : s.Ok) (hsingle : s.Single) (hg : (s.pc g).adjusts ≠ none) :
    ∃ a : Actor, a.agent = g ∧ s.Solitary a := by
  obtain ⟨hne, hin⟩ := Pc.ne_of_adjusts hg
  cases g with
  | ext n => exact ⟨.ext n, rfl, hsingle.solitary hok rfl hne hin⟩
  | task t =>
      obtain ⟨w, hw⟩ := h.running t hg
      exact ⟨.task w t, rfl, hsingle.solitary hok (enabled_task.mpr hw) hne hin⟩

/-- Only `a` executes a section of a call. -/
theorem Solitary.cont (h : s.Solitary a) {b : Actor} {env : Env}
    (hs : machine.step s (.cont b env) = some s') : b = a := by
  have hb := enabled_of_step hs
  by_contra hne
  simp only [machine, Sys.step] at hs
  rw [if_pos hb] at hs
  have hs : (s.tick env.tape).continueCall b env = some s' := hs
  cases b with
  | task w t => exact hne (h.tasks w t hb)
  | ext n =>
      rcases h.others n hne with hu | ⟨⟨c, hr⟩, hw⟩
      · have hu : (s.tick env.tape).pc (Actor.ext n).agent = .user := hu
        rw [continueCall_user hu] at hs
        cases hs
      · have hr : (s.tick env.tape).pc (.ext n) = .runLoop c := hr
        rw [continueCall_runLoop hr hw] at hs
        cases hs

theorem saved_of_not_adopted {r : Rt} (h : ∀ g ∈ r.fdGenerations, g.adopted = false) (fd : Nat) :
    r.saved fd = none := by
  cases hg : r.fdGenerationFind fd with
  | none => exact saved_of_find_none hg
  | some g => rw [saved_of_find hg, FdGeneration.saved, h g (List.mem_of_find?_eq_some hg)]; rfl

/-- Only the sections of `mt_fd_adopt` and `mt_fd_release` change what is saved. -/
theorem Kept.sameSaved (h : s.Kept) (hok : s.Ok) (hu : Unique s.rt.fdGenerations)
    (hcon : s.Contract act) (hmatch : s.Matched act) (hs : machine.step s act = some s')
    (hno : ∀ a env, act = .cont a env → (∀ c fd flags use, s.pc a.agent ≠ .fdAdopting c fd flags use) ∧
      ∀ c fd, s.pc a.agent ≠ .called c (.fdRelease fd)) : SameSaved s.rt s'.rt := by
  cases saves_of_step hok hu hcon h.blank hs with
  | same hsame => exact hsame
  | adopts a env c fd flags use heq hpc => exact absurd hpc ((hno a env heq).1 c fd flags use)
  | releases a env c fd heq hpc => exact absurd hpc ((hno a env heq).2 c fd)
  | clears n env c heq hpc hrun hnone =>
      subst heq
      simp only [Matched, Actor.agent, hpc] at hmatch
      intro fd
      rw [hnone, saved_of_not_adopted (hmatch hrun)]

/-- An uninitialised runtime has saved nothing. -/
theorem Kept.blank_step (h : s.Kept) (hok : s.Ok) (hcon : s.Contract act) (hmatch : s.Matched act)
    (hs : machine.step s act = some s')
    (hless : ∀ fd, s.rt.saved fd = none → s'.rt.saved fd = none)
    (hoff : s'.rt.initialized = false) (fd : Nat) : s'.rt.saved fd = none := by
  apply hless
  cases hinit : s.rt.initialized with
  | false => exact h.blank hinit fd
  | true =>
      rcases initialized_of_step hok hcon hs hinit with hi | ⟨n, env, c, rfl, hpc, hrun⟩
      · rw [hoff] at hi
        cases hi
      · simp only [Matched, Actor.agent, hpc] at hmatch
        exact saved_of_not_adopted (hmatch hrun) fd

/-- Nobody adjusts a descriptor. -/
theorem Kept.of_none (hnone : ∀ g, (s.pc g).adjusts = none)
    (hfiles : ∀ fd f, s.os.file fd = some f → f.before.map Int.ofNat = s.rt.saved fd)
    (hblank : s.rt.initialized = false → ∀ fd, s.rt.saved fd = none) : s.Kept := by
  refine ⟨fun t ht => absurd (hnone _) ht, fun fd f hf _ => hfiles fd f hf, ?_, ?_, hblank⟩
  · intro g c fd flags f hpc
    have hg := hnone g
    rw [hpc] at hg
    cases hg
  · intro g c fd flags use f hpc
    have hg := hnone g
    rw [hpc] at hg
    cases hg

theorem Kept.files_of_none (h : s.Kept) (hnone : ∀ g, (s.pc g).adjusts = none) {f : OpenFile}
    (hf : s.os.file fd = some f) : f.before.map Int.ofNat = s.rt.saved fd := by
  refine h.files fd f hf fun g c flags hpc => ?_
  have hg := hnone g
  rw [hpc] at hg
  cases hg

theorem Idles.adjusts {p q : Pc} (h : Idles p q) :
    q = p ∨ p.adjusts = none ∧ q.adjusts = none := by
  cases h with
  | stays => exact .inl rfl
  | starts hp | calls c call hp | finishes hp =>
      rw [hp]
      exact .inr ⟨rfl, rfl⟩

/-- The descriptors are those of before, but for one that is new, for which nothing is saved. -/
theorem issue_files (hfiles : ∀ fd f, s.os.file fd = some f → f.before.map Int.ofNat = s.rt.saved fd)
    (hsame : SameSaved s.rt s'.rt) {flags : Nat} (hos : s'.os = s.os.issue fd flags)
    (hnone : s.rt.saved fd = none) (fd' : Nat) (f : OpenFile) (hf : s'.os.file fd' = some f) :
    f.before.map Int.ofNat = s'.rt.saved fd' := by
  rw [hsame]
  rw [hos, Os.issue] at hf
  by_cases hfd : fd' = fd
  · subst hfd
    simp only [Function.update_self, Option.some.injEq] at hf
    rw [hnone, ← hf]
    rfl
  · simp only [Function.update_of_ne hfd] at hf
    exact hfiles fd' f hf

theorem close_file {o : Os} {fd fd' : Nat} {f : OpenFile} (hf : (o.close fd).file fd' = some f) :
    o.file fd' = some f := by
  unfold Os.close at hf
  by_cases hfd : fd' = fd
  · simp [hfd] at hf
  · simpa [Function.update_of_ne hfd] using hf

/-- A step that is no section of a call. -/
theorem Kept.idle (h : s.Kept) (hok : s.Ok) (hsingle : s.Single) (hu : Unique s.rt.fdGenerations)
    (hcon : s.Contract act) (hmatch : s.Matched act) (hs : machine.step s act = some s')
    (hact : ∀ a env, act ≠ .cont a env) : s'.Kept := by
  have hsame := h.sameSaved hok hu hcon hmatch hs fun a env heq => absurd heq (hact a env)
  have hblank := h.blank_step hok hcon hmatch hs fun fd hfd => (hsame fd).trans hfd
  obtain ⟨s₀, hp, hcase⟩ := hok.step_cases hcon hs
  have hidle : ∀ g, s'.pc g = s.pc g ∨ (s.pc g).adjusts = none ∧ (s'.pc g).adjusts = none :=
    fun g => hp.pc_eq ▸ (hcase.idles hact g).adjusts
  have hback : ∀ {g}, (s'.pc g).adjusts ≠ none → s'.pc g = s.pc g := fun {g} hg =>
    (hidle g).resolve_right fun hno => hg hno.2
  have hrun : ∀ t, (s'.pc (.task t)).adjusts ≠ none → ∃ w, s'.workers w = .running t := fun t ht => by
    have hpc := hback ht
    rw [hpc] at ht
    obtain ⟨w, hw⟩ := h.running t ht
    have hw₀ : s₀.workers w = .running t := by rw [hp.workers_eq, hw]
    rcases hcase.running_kept (hp.ok hok) hw₀ with ⟨a, env, heq, -⟩ | huser | hw'
    · exact absurd heq (hact a env)
    · rw [hp.pc_eq] at huser
      exact absurd huser (Pc.ne_of_adjusts ht).1
    · exact ⟨w, hw'⟩
  -- the table of descriptors has lost entries at most
  have keeps : (∀ fd f, s'.os.file fd = some f → s.os.file fd = some f) → s'.Kept := fun hfile => by
    refine ⟨hrun, fun fd f hf hno => ?_, fun g c fd flags f hpc hf => ?_,
      fun g c fd flags use f hpc hf => ?_, hblank⟩
    · rw [hsame]
      refine h.files fd f (hfile fd f hf) fun g c flags hpc => ?_
      rcases hidle g with heq | hno'
      · exact hno g c flags (heq.trans hpc)
      · rw [hpc] at hno'
        cases hno'.1
    · rw [hsame]
      have heq := hback (g := g) (by simp [hpc, Pc.adjusts])
      exact h.restoring g c fd flags f (heq.symm.trans hpc) (hfile fd f hf)
    · have heq := hback (g := g) (by simp [hpc, Pc.adjusts])
      exact h.adopting g c fd flags use f (heq.symm.trans hpc) (hfile fd f hf)
  cases filed_of_step hs with
  | same _ _ hos => exact keeps fun fd f hf => by rw [← hos, hf]
  | shuts a fd' hos => exact keeps fun fd f hf => close_file (by rw [← hos]; exact hf)
  | cont a env => exact absurd rfl (hact a env)
  | opens a fd flags hfile hos =>
      -- whoever opens a descriptor is in no call, and nobody is in one beside it
      have hnone : ∀ g, (s.pc g).adjusts = none := fun g => by
        by_contra hg
        obtain ⟨b, rfl, hsol⟩ := h.solitary hok hsingle hg
        have huser : s.enabled a = true ∧ s.pc a.agent = .user := by
          simp only [machine, step] at hs
          split at hs
          · next hb =>
              simp only [Bool.and_eq_true, beq_iff_eq] at hb
              exact hb.1
          · cases hs
        have hne : a ≠ b := by
          rintro rfl
          exact (Pc.ne_of_adjusts hg).1 huser.2
        rcases hmatch.1 with rfl | hcur
        · exact hsol.caller hne huser.2
        · cases a with
          | ext n => cases hcur
          | task w t => exact hne (hsol.tasks w t huser.1)
      refine .of_none (fun g => ?_)
        (issue_files (fun _ _ hf => h.files_of_none hnone hf) hsame hos hmatch.2) hblank
      rcases hidle g with heq | hno
      · rw [heq, hnone]
      · exact hno.2

/-- A task that adjusts a descriptor has not parked. -/
theorem Case.cont_running {w : Nat} {t : TaskId} {env : Env}
    (hc : Case s (.cont (.task w t) env) s') (hp : (s'.pc (.task t)).adjusts ≠ none) :
    s'.workers w = .running t := by
  cases hc with
  | acts a env c o p es os sel hen => exact enabled_task.mp hen
  | resumesFd w u env c x use o p es hw | returns w u env c rc sel hw | goesOn w u env hw => exact hw
  | parks w u env c p hw hl hcall hnp hpark hm =>
      refine absurd ?_ hp
      change (Function.update s.pc (.task t) p (.task t)).adjusts = none
      rw [Function.update_self]
      cases hpark <;> rfl
  | descriptors os interest filters hact => simp at hact
  | loops w q lock hact => simp at hact

/-- The section of `mt_fd_adopt` notes the adoption, or it fails. -/
theorem adoptSection_cases (s : Sys) (a : Actor) (c : CallId) (fd flags : Nat) (use : AdoptUse)
    (env : Env) : let s' := s.adoptSection a c fd flags use env
    (s'.pc a.agent).adjusts = none ∧
      ((s'.os = s.os ∧ SameSaved s.rt s'.rt) ∨ (s'.os = s.os.noteAdopt fd flags ∧
        ∀ fd', s'.rt.saved fd' =
          if fd' = fd then some (((s.rt.saved fd).getD flags)) else s.rt.saved fd')) := by
  have hsaved := s.rt.fdAdopt_saved fd flags
  unfold adoptSection
  generalize s.rt.fdAdopt fd flags = x at hsaved
  obtain ⟨rc, rt⟩ := x
  have failed : SameSaved s.rt rt → ((s.adoptFailed a c fd rc rt use).pc a.agent).adjusts = none ∧
      (s.adoptFailed a c fd rc rt use).os = s.os ∧
        SameSaved s.rt (s.adoptFailed a c fd rc rt use).rt := fun hsame => by
    cases use with
    | adopt => exact ⟨congrArg Pc.adjusts (ret_pc ..), rfl, hsame.trans (.of_eq rfl)⟩
    | accepted => exact ⟨congrArg Pc.adjusts (setPc_pc ..), rfl, hsame.trans (.of_eq rfl)⟩
    | io op => exact ⟨congrArg Pc.adjusts (ret_pc ..), rfl, hsame.trans (.of_eq rfl)⟩
  rcases hsaved with ⟨hrc, hsame⟩ | ⟨rfl, hadopt⟩
  · obtain ⟨hpc, hos, hrt⟩ := failed hsame
    cases rc with
    | ok => exact absurd rfl hrc
    | _ => exact ⟨hpc, .inl ⟨hos, hrt⟩⟩
  · cases use with
    | adopt => exact ⟨congrArg Pc.adjusts (ret_pc ..), .inr ⟨rfl, hadopt⟩⟩
    | accepted => exact ⟨congrArg Pc.adjusts (ret_pc ..), .inr ⟨rfl, hadopt⟩⟩
    | io op => exact ⟨congrArg Pc.adjusts (setPc_pc ..), .inr ⟨rfl, hadopt⟩⟩

/-- In a section of a call nobody but its agent adjusts a descriptor. -/
theorem Kept.others (h : s.Kept) (hok : s.Ok) (hsingle : s.Single) {env : Env}
    (hs : machine.step s (.cont a env) = some s') (hg : g ≠ a.agent) : (s.pc g).adjusts = none := by
  by_contra hne
  obtain ⟨b, rfl, hsol⟩ := h.solitary hok hsingle hne
  exact hg (congrArg Actor.agent (hsol.cont hs).symm)

theorem Kept.files_of_own (h : s.Kept) (hok : s.Ok) (hsingle : s.Single) {env : Env}
    (hs : machine.step s (.cont a env) = some s')
    (hno : ∀ c flags, s.pc a.agent ≠ .fdRestoring c fd flags) {f : OpenFile}
    (hf : s.os.file fd = some f) : f.before.map Int.ofNat = s.rt.saved fd := by
  refine h.files fd f hf fun g c flags hpc => ?_
  by_cases hga : g = a.agent
  · rw [hga] at hpc
    exact hno c flags hpc
  · have hnone := h.others hok hsingle hs hga
    rw [hpc] at hnone
    cases hnone

theorem Kept.others_after (h : s.Kept) (hok : s.Ok) (hsingle : s.Single) {env : Env}
    (hcon : s.Contract (.cont a env)) (hs : machine.step s (.cont a env) = some s') (hg : g ≠ a.agent) :
    (s'.pc g).adjusts = none := by
  obtain ⟨s₀, hp, hcase⟩ := hok.step_cases hcon hs
  rcases hcase.pc_other (g := g) (fun heq => hg (Option.some.inj heq).symm) with heq | ⟨-, hu⟩
  · rw [heq, hp.pc_eq]
    exact h.others hok hsingle hs hg
  · rw [hu]
    rfl

section Own

variable {env : Env} {c : CallId}

theorem Kept.running_after (h : s.Kept) (hok : s.Ok) (hsingle : s.Single)
    (hcon : s.Contract (.cont a env)) (hs : machine.step s (.cont a env) = some s') (t : TaskId)
    (ht : (s'.pc (.task t)).adjusts ≠ none) : ∃ w, s'.workers w = .running t := by
  by_cases hga : Agent.task t = a.agent
  · cases a with
    | ext n => cases hga
    | task w u =>
        cases hga
        obtain ⟨s₀, hp, hcase⟩ := hok.step_cases hcon hs
        exact ⟨w, hcase.cont_running ht⟩
  · exact absurd (h.others_after hok hsingle hcon hs hga) ht

/-- After the section nobody adjusts a descriptor. -/
theorem Kept.settled (h : s.Kept) (hok : s.Ok) (hsingle : s.Single) (hcon : s.Contract (.cont a env))
    (hs : machine.step s (.cont a env) = some s') (hself : (s'.pc a.agent).adjusts = none)
    (hfiles : ∀ fd f, s'.os.file fd = some f → f.before.map Int.ofNat = s'.rt.saved fd)
    (hblank : s'.rt.initialized = false → ∀ fd, s'.rt.saved fd = none) : s'.Kept := by
  refine .of_none (fun g => ?_) hfiles hblank
  by_cases hga : g = a.agent
  · rw [hga, hself]
  · exact h.others_after hok hsingle hcon hs hga

/-- In the section `a` has come to the place where it adjusts the descriptor `fd`. -/
theorem Kept.of_own (h : s.Kept) (hok : s.Ok) (hsingle : s.Single) (hcon : s.Contract (.cont a env))
    (hs : machine.step s (.cont a env) = some s')
    (hfiles : ∀ fd f, s'.os.file fd = some f → (∀ c flags, s'.pc a.agent ≠ .fdRestoring c fd flags) →
      f.before.map Int.ofNat = s'.rt.saved fd)
    (hrestoring : ∀ c fd flags f, s'.pc a.agent = .fdRestoring c fd flags →
      s'.os.file fd = some f → f.before = some flags ∧ s'.rt.saved fd = none)
    (hadopting : ∀ c fd flags use f, s'.pc a.agent = .fdAdopting c fd flags use →
      s'.os.file fd = some f → f.flags = flags ||| oNonblock)
    (hblank : s'.rt.initialized = false → ∀ fd, s'.rt.saved fd = none) : s'.Kept := by
  have hself : ∀ {g}, (s'.pc g).adjusts ≠ none → g = a.agent := fun {g} hg => by
    by_contra hga
    exact hg (h.others_after hok hsingle hcon hs hga)
  refine ⟨h.running_after hok hsingle hcon hs, fun fd f hf hno => ?_,
    fun g c fd flags f hpc hf => ?_, fun g c fd flags use f hpc hf => ?_, hblank⟩
  · exact hfiles fd f hf fun c flags => hno a.agent c flags
  · obtain rfl := hself (g := g) (by simp [hpc, Pc.adjusts])
    exact hrestoring c fd flags f hpc hf
  · obtain rfl := hself (g := g) (by simp [hpc, Pc.adjusts])
    exact hadopting c fd flags use f hpc hf

/-- The section of `mt_fd_adopt`. -/
theorem Kept.adopts (h : s.Kept) (hok : s.Ok) (hsingle : s.Single) (hcon : s.Contract (.cont a env))
    (hmatch : s.Matched (.cont a env)) {flags : Nat} {use : AdoptUse}
    (hpc : s.pc a.agent = .fdAdopting c fd flags use)
    (hs : machine.step s (.cont a env) = some s') : s'.Kept := by
  have hinit : s.rt.initialized = true := by simpa [Matched, hpc] using hmatch
  obtain ⟨hself, hcases⟩ := (s.tick env.tape).adoptSection_cases a c fd flags use env
  rw [← adoptSection_of_step hpc hs] at hself hcases
  have hfiles : ∀ fd' f, s.os.file fd' = some f → f.before.map Int.ofNat = s.rt.saved fd' :=
    fun fd' f hf => h.files_of_own hok hsingle hs (by simp [hpc]) hf
  refine h.settled hok hsingle hcon hs hself (fun fd' f hf => ?_) fun hoff => ?_
  · rcases hcases with ⟨hos, hsame⟩ | ⟨hos, hadopt⟩
    · rw [hos] at hf
      exact (hfiles fd' f hf).trans (hsame fd').symm
    · rw [hadopt]
      rw [hos, Os.noteAdopt] at hf
      by_cases hfd : fd' = fd
      · subst hfd
        simp only [Function.update_self, Option.map_eq_some_iff] at hf
        obtain ⟨f₀, hf₀, rfl⟩ := hf
        have hsv : (s.tick env.tape).rt.saved fd' = f₀.before.map Int.ofNat :=
          (hfiles fd' f₀ hf₀).symm
        rw [if_pos rfl, hsv]
        cases f₀.before <;> rfl
      · rw [if_neg hfd]
        simp only [Function.update_of_ne hfd] at hf
        exact hfiles fd' f hf
  · rcases initialized_of_step hok hcon hs hinit with hi | ⟨n, env', c', heq, hpc', -⟩
    · rw [hoff] at hi
      cases hi
    · cases heq
      rw [show s.pc (Actor.ext n).agent = _ from hpc'] at hpc
      cases hpc

/-- The system call of `mt_fd_release`. -/
theorem Kept.restores (h : s.Kept) (hok : s.Ok) (hsingle : s.Single)
    (hu : Unique s.rt.fdGenerations) (hcon : s.Contract (.cont a env))
    (hmatch : s.Matched (.cont a env)) {flags : Nat} (hpc : s.pc a.agent = .fdRestoring c fd flags)
    (hs : machine.step s (.cont a env) = some s') : s'.Kept := by
  have hosOk : env.osOk = true := by simpa [Matched, hpc] using hmatch
  have hsame := h.sameSaved hok hu hcon hmatch hs fun b env' heq => by
    cases heq
    simp [hpc]
  have hfiles : ∀ fd' f, fd' ≠ fd → s.os.file fd' = some f →
      f.before.map Int.ofNat = s.rt.saved fd' := fun fd' f hfd hf => by
    refine h.files_of_own hok hsingle hs (fun c' flags' hg => ?_) hf
    rw [hpc] at hg
    exact hfd (Pc.fdRestoring.inj hg).2.1.symm
  have heq := releaseFcntl_of_step hpc hs
  refine h.settled hok hsingle hcon hs ?_ (fun fd' f hf => ?_)
    (h.blank_step hok hcon hmatch hs fun fd hfd => (hsame fd).trans hfd)
  · rw [heq, releaseFcntl_pc]
    rfl
  · rw [hsame]
    cases hopen : s.os.file fd with
    | none =>
        have hos : s'.os = s.os := by
          rw [heq, releaseFcntl, if_pos (by simp [tick, hopen])]
          rfl
        rw [hos] at hf
        refine hfiles fd' f (fun hfd => ?_) hf
        rw [hfd, hopen] at hf
        cases hf
    | some f₀ =>
        have hopen' : (s.tick env.tape).os.file fd = some f₀ := hopen
        rw [heq, releaseFcntl_eq hopen' hosOk] at hf
        have hf : ((s.os.setFlags fd flags).noteRelease fd).file fd' = some f := hf
        by_cases hfd : fd' = fd
        · subst hfd
          rw [noteRelease_file _ fd' flags f₀ hopen, Option.some.injEq] at hf
          rw [(h.restoring a.agent c fd' flags f₀ hpc hopen).2, ← hf]
          rfl
        · refine hfiles fd' f hfd ?_
          simpa [Os.noteRelease, Os.setFlags, Function.update_of_ne hfd] using hf

/-- The section of `mt_fd_release`. -/
theorem Kept.releases (h : s.Kept) (hok : s.Ok) (hsingle : s.Single)
    (hu : Unique s.rt.fdGenerations) (hcon : s.Contract (.cont a env))
    (hmatch : s.Matched (.cont a env)) (hpc : s.pc a.agent = .called c (.fdRelease fd))
    (hs : machine.step s (.cont a env) = some s') : s'.Kept := by
  have hfiles : ∀ fd f, s.os.file fd = some f → f.before.map Int.ofNat = s.rt.saved fd :=
    fun fd f hf => h.files_of_own hok hsingle hs (by simp [hpc]) hf
  have heq := callApi_of_step hpc hs
  simp only [callApi] at heq
  rcases (s.tick env.tape).releaseSection_cases a c fd with href | ⟨rt, hrest, -, -, hrel⟩
  · rw [href] at heq
    have hsaved : SameSaved s.rt s'.rt := by
      rw [heq]
      exact .of_eq rfl
    refine h.settled hok hsingle hcon hs ?_ (fun fd' f hf => ?_)
      (h.blank_step hok hcon hmatch hs fun fd hfd => (hsaved fd).trans hfd)
    · rw [heq]
      exact congrArg Pc.adjusts (ret_pc ..)
    · rw [hsaved]
      rw [heq] at hf
      exact hfiles fd' f hf
  · have hrest : ∀ fd', rt.saved fd' = if fd' = fd then none else s.rt.saved fd' := hrest hu
    have hsaved' : s'.rt.fdGenerations = rt.fdGenerations →
        ∀ fd', s'.rt.saved fd' = if fd' = fd then none else s.rt.saved fd' := fun hg fd' => by
      rw [← hrest, saved, hg]
      rfl
    have hless : (∀ fd', s'.rt.saved fd' = if fd' = fd then none else s.rt.saved fd') →
        ∀ fd', s.rt.saved fd' = none → s'.rt.saved fd' = none := fun hsaved fd' hfd => by
      rw [hsaved, hfd, ite_self]
    rcases hrel with ⟨flags, hflags, hrel⟩ | ⟨hno, hrel⟩
    · rw [hrel] at heq
      have hsaved := hsaved' (by rw [heq]; rfl)
      have hself : s'.pc a.agent = .fdRestoring c fd flags := by
        rw [heq]
        exact setPc_pc ..
      have hos : s'.os = s.os := by
        rw [heq]
        rfl
      refine h.of_own hok hsingle hcon hs (fun fd' f hf hne => ?_) (fun c' fd' flags' f hpc' hf => ?_)
        (fun c' fd' flags' use f hpc' hf => ?_) (h.blank_step hok hcon hmatch hs (hless hsaved))
      · rw [hos] at hf
        rw [hsaved, if_neg, hfiles fd' f hf]
        rintro rfl
        exact hne c flags hself
      · rw [hself] at hpc'
        obtain ⟨-, rfl, rfl⟩ := Pc.fdRestoring.inj hpc'
        rw [hos] at hf
        refine ⟨?_, by rw [hsaved, if_pos rfl]⟩
        have hbefore := (hfiles fd f hf).trans hflags
        obtain ⟨x, hx, hxf⟩ := Option.map_eq_some_iff.mp hbefore
        rw [hx, Int.ofNat_inj.mp hxf]
      · rw [hself] at hpc'
        cases hpc'
    · rw [hrel] at heq
      have hsaved := hsaved' (by rw [heq]; rfl)
      refine h.settled hok hsingle hcon hs ?_ (fun fd' f hf => ?_)
        (h.blank_step hok hcon hmatch hs (hless hsaved))
      · rw [heq]
        exact congrArg Pc.adjusts (ret_pc ..)
      · rw [heq] at hf
        have hf : (s.os.noteRelease fd).file fd' = some f := hf
        rw [hsaved]
        by_cases hfd : fd' = fd
        · subst hfd
          simp only [Os.noteRelease, Function.update_self, Option.map_eq_some_iff] at hf
          obtain ⟨f₀, hf₀, rfl⟩ := hf
          rw [if_pos rfl]
          rfl
        · rw [if_neg hfd]
          refine hfiles fd' f ?_
          simpa [Os.noteRelease, Function.update_of_ne hfd] using hf

/-- Any other section of a call. -/
theorem Kept.acts (h : s.Kept) (hok : s.Ok) (hsingle : s.Single) (hu : Unique s.rt.fdGenerations)
    (hcon : s.Contract (.cont a env)) (hmatch : s.Matched (.cont a env))
    (hno : (s.pc a.agent).adjusts = none) (hrel : ∀ c fd, s.pc a.agent ≠ .called c (.fdRelease fd))
    (hs : machine.step s (.cont a env) = some s') : s'.Kept := by
  have hfiles : ∀ fd f, s.os.file fd = some f → f.before.map Int.ofNat = s.rt.saved fd := by
    refine fun fd f hf => h.files_of_own hok hsingle hs (fun c flags hpc => ?_) hf
    rw [hpc] at hno
    cases hno
  have hadopting : ∀ c fd flags use, s.pc a.agent ≠ .fdAdopting c fd flags use := by
    intro c fd flags use hpc
    rw [hpc] at hno
    cases hno
  have hsame := h.sameSaved hok hu hcon hmatch hs fun b env' heq => by
    cases heq
    exact ⟨hadopting, hrel⟩
  have hblank := h.blank_step hok hcon hmatch hs fun fd hfd => (hsame fd).trans hfd
  cases filed_of_step hs with
  | same _ hact => exact absurd rfl (hact a env)
  | cont _ _ hf =>
      cases hf with
      | same hos hself =>
          refine h.settled hok hsingle hcon hs hself (fun fd f hf => ?_) hblank
          rw [hsame, hfiles fd f (by rw [← hos, hf])]
      | accepts c op fd hpc hk hio hfile hos hself =>
          refine h.settled hok hsingle hcon hs hself (issue_files hfiles hsame hos ?_) hblank
          simp only [Matched, hpc] at hmatch
          exact hmatch hk fd (by simp [Env.issued, hio])
      | closes fd _ hos hself =>
          refine h.settled hok hsingle hcon hs hself (fun fd' f hf => ?_) hblank
          rw [hsame, hfiles fd' f (close_file (by rw [← hos]; exact hf))]
      | adopting c fd f use hf hself hos =>
          refine h.of_own hok hsingle hcon hs (fun fd' f' hf' _ => ?_)
            (fun c' fd' flags f' hpc => ?_) (fun c' fd' flags use' f' hpc hf' => ?_) hblank
          · rw [hsame]
            rw [hos, Os.setFlags] at hf'
            by_cases hfd : fd' = fd
            · subst hfd
              simp only [Function.update_self, hf, Option.map_some, Option.some.injEq] at hf'
              rw [← hf', ← hfiles fd' f hf]
            · simp only [Function.update_of_ne hfd] at hf'
              exact hfiles fd' f' hf'
          · rw [hself] at hpc
            cases hpc
          · rw [hself] at hpc
            obtain ⟨-, rfl, rfl, -⟩ := Pc.fdAdopting.inj hpc
            simp only [hos, Os.setFlags, Function.update_self, hf, Option.map_some,
              Option.some.injEq] at hf'
            rw [← hf']
      | adopted c fd flags use hpc => exact absurd hpc (hadopting c fd flags use)
      | restoring c fd flags hpc => exact absurd hpc (hrel c fd)
      | restored c fd flags hpc =>
          rw [hpc] at hno
          cases hno
      | released c fd hpc => exact absurd hpc (hrel c fd)

/-- One step of a run with one worker. -/
theorem Kept.step (h : s.Kept) (hok : s.Ok) (hsingle : s.Single) (hu : Unique s.rt.fdGenerations)
    (hcon : s.Contract act) (hmatch : s.Matched act) (hs : machine.step s act = some s') : s'.Kept := by
  by_cases hact : ∃ a env, act = .cont a env
  · obtain ⟨a, env, rfl⟩ := hact
    by_cases hrel : ∃ c fd, s.pc a.agent = .called c (.fdRelease fd)
    · obtain ⟨c, fd, hpc⟩ := hrel
      exact h.releases hok hsingle hu hcon hmatch hpc hs
    · cases hpc : s.pc a.agent with
      | fdAdopting c fd flags use => exact h.adopts hok hsingle hcon hmatch hpc hs
      | fdRestoring c fd flags => exact h.restores hok hsingle hu hcon hmatch hpc hs
      | _ =>
          refine h.acts hok hsingle hu hcon hmatch ?_ (fun c fd heq => hrel ⟨c, fd, heq⟩) hs
          rw [hpc]
          rfl
  · exact h.idle hok hsingle hu hcon hmatch hs fun a env heq => hact ⟨a, env, heq⟩

end Own

theorem kept_of_reach (h : machine.Reach (Under SoloMatched) s) : s.Kept := by
  refine h.invariant (fun s hs => ?_) fun s act s' hr ih hact hs => ?_
  · obtain ⟨kind, rfl⟩ := hs
    refine .of_none (fun g => ?_) (fun fd f hf => ?_) fun _ _ => rfl
    · cases g <;> rfl
    · cases hf
  · have hsolo : machine.Reach (Under Solo) s := hr.mono fun _ _ hc => ⟨hc.1, hc.2.1⟩
    exact ih.step (ok_of_under hr) (single_of_reach (fun _ _ hc => hc) (fun _ _ _ _ _ hc => hc) hsolo)
      (unique_of_reach (hr.mono fun _ _ hc => hc.1)) hact.1 hact.2.2 hs

end Sys

/-- Adoption and release in runs with one worker, in which one thread calls the API and no number
is issued again while flags are saved for it: what is saved for an open descriptor is what it had
before it was adopted, an adoption changes nothing but `O_NONBLOCK`, and when `mt_fd_release`
returns `MT_OK` the descriptor has the flags again that it had just before the first adoption
since it was opened or released, or, if there was none, the flags that it has. -/
theorem adoption_round_trip {s : Sys} (h : machine.Reach (Sys.Under Sys.SoloMatched) s) :
    (∀ fd f, s.os.file fd = some f → (∀ g c flags, s.pc g ≠ .fdRestoring c fd flags) →
      f.before.map Int.ofNat = s.rt.saved fd) ∧
    (∀ g c fd flags use f, s.pc g = .fdAdopting c fd flags use → s.os.file fd = some f →
      f.flags = flags ||| oNonblock) ∧
    ∀ a env c fd f s', s.pc a.agent = .called c (.fdRelease fd) ∨
        (∃ flags, s.pc a.agent = .fdRestoring c fd flags) →
      s.os.file fd = some f → machine.step s (.cont a env) = some s' →
      s'.rt.log = s.rt.log ++ [.done c .neither .ok, .ret c .ok] →
      s'.os.file fd = some { f with flags := f.before.getD f.flags, before := none } := by
  have hk := Sys.kept_of_reach h
  have hok := Sys.ok_of_under h
  have hsolo : machine.Reach (Sys.Under Sys.Solo) s := h.mono fun _ _ hc => ⟨hc.1, hc.2.1⟩
  have hsingle := Sys.single_of_reach (fun _ _ hc => hc) (fun _ _ _ _ _ hc => hc) hsolo
  refine ⟨hk.files, hk.adopting, fun a env c fd f s' hpc hf hs hlog => ?_⟩
  rcases hpc with hpc | ⟨flags, hpc⟩
  · have hsaved : f.before.map Int.ofNat = s.rt.saved fd :=
      hk.files_of_own hok hsingle hs (by simp [hpc]) hf
    have heq := Sys.callApi_of_step hpc hs
    simp only [Sys.callApi] at heq
    rcases (s.tick env.tape).releaseSection_cases a c fd with
      href | ⟨rt, -, -, hrt, ⟨flags, -, hrel⟩ | ⟨hno, hrel⟩⟩
    · rw [heq, href, Sys.ret_log] at hlog
      simp [Sys.tick] at hlog
    · rw [heq, hrel] at hlog
      have hlog : rt.log = _ := hlog
      rw [hrt] at hlog
      simp [Sys.tick] at hlog
    · have hnone : f.before = none := by
        cases hb : f.before with
        | none => rfl
        | some x =>
            rw [hb] at hsaved
            exact absurd hsaved.symm (hno x)
      rw [heq, hrel]
      simp [Sys.tick, Os.noteRelease, hf, hnone]
  · obtain ⟨hbefore, -⟩ := hk.restoring a.agent c fd flags f hpc hf
    have hf' : (s.tick env.tape).os.file fd = some f := hf
    have heq := Sys.releaseFcntl_of_step hpc hs
    cases hosOk : env.osOk with
    | true =>
        rw [heq, Sys.releaseFcntl_eq hf' hosOk, hbefore]
        exact Sys.noteRelease_file _ fd flags f hf
    | false =>
        rw [heq, Sys.releaseFcntl, if_neg (by simp [hf']), if_neg (by simp [hosOk]),
          Sys.ret_log] at hlog
        simp [Sys.tick] at hlog

/-- Descriptor 5 has been adopted with flags 7, released and closed, and another one with flags
1024 has got its number. It has been adopted twice and is released. -/
theorem adoption_round_trip_reissued : ∃ s s' : Sys, s.os.file 5 =
      some ⟨1, 1024 ||| oNonblock, some 1024⟩ ∧ machine.step s (.cont (.ext 0) {}) = some s' ∧
    s'.os.file 5 = some ⟨1, 1024, none⟩ := by
  obtain ⟨s, hs, hp⟩ := reach_of_trace_under Sys.SoloMatched .poll (List.flatten [
      invoke (.ext 0) (.go true 0 false), [.osOpen (.ext 0) 5 7], invoke (.ext 0) (.fdAdopt 5) 2,
      invoke (.ext 0) (.fdRelease 5) 2, invoke (.ext 0) (.fdClose 5) 3, [.osOpen (.ext 0) 5 1024],
      invoke (.ext 0) (.fdAdopt 5) 2, invoke (.ext 0) (.fdAdopt 5) 2, invoke (.ext 0) (.fdRelease 5)])
    (fun s => s.os.file 5 == some ⟨1, 1024 ||| oNonblock, some 1024⟩ &&
      s.pc (.ext 0) == .fdRestoring 6 5 1024 &&
      (machine.step s (.cont (.ext 0) {})).any fun s' : Sys =>
        s'.rt.log == s.rt.log ++ [.done 6 .neither .ok, .ret 6 .ok]) (by decide +kernel)
  simp only [Bool.and_eq_true, beq_iff_eq, Option.any_eq_true] at hp
  obtain ⟨⟨hfile, hpc⟩, s', hstep, hlog⟩ := hp
  exact ⟨s, s', hfile, hstep, (adoption_round_trip hs).2.2 (.ext 0) {} 6 5 _ s' (.inr ⟨1024, hpc⟩)
    hfile hstep hlog⟩

end Microthread
