import Microthread.Properties.Counters
import Microthread.Properties.Generations
import Microthread.System.Closers
import Microthread.System.Trace

/-!
# Closing marks

`mt_fd_close` marks its descriptor in one section, closes it outside the lock and takes the
mark away in another section. Others may act in between, and the number may be issued again
once it is closed, so a mark is a fact about the number and about who stands where: it is
there exactly while one agent is between those sections.
-/

namespace Microthread

open Foundation Rt

/-! ## The marks in the table -/

section Table

variable {gens : List FdGeneration} {fd fd' : Nat}

/-- The descriptor is marked as closing. -/
def markIn (gens : List FdGeneration) (fd : Nat) : Bool :=
  (gens.find? (·.fd == fd)).any (·.closing)

theorem markIn_cons (g : FdGeneration) (gens : List FdGeneration) (fd : Nat) :
    markIn (g :: gens) fd = if fd = g.fd then g.closing else markIn gens fd := by
  by_cases hfd : fd = g.fd
  · subst hfd
    simp [markIn]
  · simp [markIn, hfd, Ne.symm hfd]

/-- A new entry that is not marked changes no mark. -/
theorem markIn_insert {g : FdGeneration} (hg : gens.find? (·.fd == g.fd) = none)
    (hc : g.closing = false) (fd : Nat) : markIn (g :: gens) fd = markIn gens fd := by
  rw [markIn_cons]
  split
  · next hfd =>
      rw [hc, hfd, markIn, hg]
      rfl
  · rfl

theorem markIn_modGeneration {f : FdGeneration → FdGeneration} (hf : ∀ g, (f g).fd = g.fd)
    (hc : ∀ g, (f g).closing = g.closing) (gens : List FdGeneration) (fd fd' : Nat) :
    markIn (modGeneration fd f gens) fd' = markIn gens fd' := by
  rw [markIn, markIn, find_modGeneration hf]
  split
  · cases gens.find? (·.fd == fd') with
    | none => rfl
    | some g => exact hc g
  · rfl

/-- The mark of an entry that is there is set. -/
theorem markIn_set (hfound : (gens.find? (·.fd == fd)).isSome = true) (b : Bool) (fd' : Nat) :
    markIn (modGeneration fd (fun g => { g with closing := b }) gens) fd' =
      if fd' = fd then b else markIn gens fd' := by
  rw [markIn, find_modGeneration (f := fun g => { g with closing := b }) fun _ => rfl]
  split
  · next hfd =>
      subst hfd
      obtain ⟨g, hg⟩ := Option.isSome_iff_exists.mp hfound
      rw [hg]
      rfl
  · rfl

theorem find_eraseP_self (hu : Unique gens) :
    (gens.eraseP (·.fd == fd)).find? (·.fd == fd) = none := by
  induction gens with
  | nil => rfl
  | cons g gens ih =>
      rw [Unique, List.map_cons, List.nodup_cons] at hu
      by_cases hg : g.fd = fd
      · rw [List.eraseP_cons_of_pos (by simpa using hg), List.find?_eq_none]
        intro k hk hkfd
        rw [beq_iff_eq] at hkfd
        exact hu.1 (List.mem_map.mpr ⟨k, hk, hkfd.trans hg.symm⟩)
      · rw [List.eraseP_cons_of_neg (by simpa using hg), List.find?_cons_of_neg (by simpa using hg)]
        exact ih hu.2

/-- An entry that is not marked is removed. -/
theorem markIn_eraseP (hu : Unique gens) (hc : markIn gens fd = false) (fd' : Nat) :
    markIn (gens.eraseP (·.fd == fd)) fd' = markIn gens fd' := by
  by_cases hfd : fd' = fd
  · subst hfd
    rw [hc, markIn, find_eraseP_self hu]
    rfl
  · rw [markIn, markIn, find_eraseP_of_ne hfd]

end Table

namespace Rt

variable {s s' a : Rt} {t : TaskId} {fd : Nat}

theorem fdIsClosing_eq (s : Rt) (fd : Nat) : s.fdIsClosing fd = markIn s.fdGenerations fd := by
  unfold fdIsClosing fdGenerationFind markIn
  cases s.fdGenerations.find? (·.fd == fd) with
  | none => rfl
  | some g => rfl

/-- The marks are those of before, and the table has no double entries if it had none. -/
structure SameMarks (s s' : Rt) : Prop where
  unique : Unique s.fdGenerations → Unique s'.fdGenerations
  mark : Unique s.fdGenerations → ∀ fd, s'.fdIsClosing fd = s.fdIsClosing fd

theorem SameMarks.of_eq (hg : s'.fdGenerations = s.fdGenerations) : SameMarks s s' :=
  ⟨fun hu => hg ▸ hu, fun _ fd => by rw [fdIsClosing_eq, fdIsClosing_eq, hg]⟩

theorem SameMarks.refl (s : Rt) : SameMarks s s := .of_eq rfl

theorem SameMarks.trans (h : SameMarks s a) (h' : SameMarks a s') : SameMarks s s' :=
  ⟨fun hu => h'.unique (h.unique hu), fun hu fd => (h'.mark (h.unique hu) fd).trans (h.mark hu fd)⟩

theorem SameMarks.insert {g : FdGeneration} (hg : s.fdGenerationFind g.fd = none)
    (hc : g.closing = false) (tape : List Bool) :
    SameMarks s { s with fdGenerations := g :: s.fdGenerations, tape := tape } := by
  refine ⟨fun hu => hu.cons hg, fun _ fd => ?_⟩
  rw [fdIsClosing_eq, fdIsClosing_eq]
  exact markIn_insert hg hc fd

theorem SameMarks.modify {f : FdGeneration → FdGeneration} (hf : ∀ g, (f g).fd = g.fd)
    (hc : ∀ g, (f g).closing = g.closing) :
    SameMarks s { s with fdGenerations := modGeneration fd f s.fdGenerations } := by
  refine ⟨fun hu => ?_, fun _ fd' => ?_⟩
  · rw [Unique, map_fd_modGeneration hf]
    exact hu
  · rw [fdIsClosing_eq, fdIsClosing_eq]
    exact markIn_modGeneration hf hc _ _ _

theorem Current.sameMarks {gen : Nat} {gens : List FdGeneration} (h : Current s fd gen gens)
    (tape : List Bool) : SameMarks s { s with fdGenerations := gens, tape := tape } := by
  cases h with
  | found => exact .of_eq rfl
  | failed => exact .of_eq rfl
  | entered hg => exact .insert hg rfl tape

theorem fdGenerationBump_sameMarks (s : Rt) (fd : Nat) : SameMarks s (s.fdGenerationBump fd) := by
  unfold fdGenerationBump
  split
  · exact .modify (fun _ => rfl) fun _ => rfl
  · next hg =>
      obtain ⟨ok, tape, h⟩ := s.ask_eq
      rw [h]
      cases ok with
      | false => exact .of_eq rfl
      | true => exact .insert (g := ⟨fd, 2, false, false, -1⟩) hg rfl tape

theorem fdAdopt_sameMarks (s : Rt) (fd flags : Nat) : SameMarks s (s.fdAdopt fd flags).2 := by
  unfold fdAdopt
  split
  · exact .refl s
  · obtain ⟨gen, gens, tape, hcur, heq⟩ := s.fdGenerationCurrent_eq fd
    have hr := hcur.sameMarks tape
    rw [heq]
    split
    · next a hz =>
        cases hz
        exact hr
    · next n a _ hz =>
        cases hz
        split
        · split
          · exact hr
          · exact hr.trans (.modify (fun _ => rfl) fun _ => rfl)
        · exact hr

theorem fdRelease_sameMarks (s : Rt) (fd : Nat) : SameMarks s (s.fdRelease fd).2.2 := by
  unfold fdRelease
  split
  · exact .refl s
  · next hc =>
      simp only [Bool.or_eq_true, not_or, Bool.not_eq_true] at hc
      simp only [fdGenerationRemove]
      split
      · refine ⟨fun hu => hu.sublist (List.Sublist.map _ List.eraseP_sublist), fun hu fd' => ?_⟩
        rw [fdIsClosing_eq, fdIsClosing_eq]
        exact markIn_eraseP hu (s.fdIsClosing_eq fd ▸ hc.1) fd'
      · exact .refl s

/-- A mark is set, unless there is no memory for the entry. -/
theorem fdSetClosing_cases (s : Rt) (fd : Nat) (b : Bool) :
    ((s.fdSetClosing fd b).1 ≠ .ok ∧ SameMarks s (s.fdSetClosing fd b).2 ∧
        (s.fdSetClosing fd b).2.fdWaiters = s.fdWaiters ∧
        (s.fdSetClosing fd b).2.fdw = s.fdw) ∨
      ((s.fdSetClosing fd b).1 = .ok ∧
        (Unique s.fdGenerations → Unique (s.fdSetClosing fd b).2.fdGenerations) ∧
        ∀ fd', (s.fdSetClosing fd b).2.fdIsClosing fd' =
          if fd' = fd then b else s.fdIsClosing fd') := by
  have hunique := (s.fdSetClosing_regenerates (P := fun _ => True) fd b).unique
  cases hg : s.fdGenerationFind fd with
  | some g =>
      have heq : s.fdSetClosing fd b = (.ok, { s with
            fdGenerations := modGeneration fd (fun g => { g with closing := b })
              s.fdGenerations }) := by
        rw [fdSetClosing, hg]
      rw [heq] at hunique ⊢
      refine .inr ⟨rfl, hunique, fun fd' => ?_⟩
      rw [fdIsClosing_eq, fdIsClosing_eq]
      exact markIn_set (by rw [← fdGenerationFind, hg]; rfl) b fd'
  | none =>
      obtain ⟨ok, tape, hask⟩ := s.ask_eq
      cases ok with
      | false =>
          have heq : s.fdSetClosing fd b = (.nomem, { s with tape := tape }) := by
            rw [fdSetClosing, hg, hask]
          rw [heq]
          exact .inl ⟨by simp, .of_eq rfl, rfl, rfl⟩
      | true =>
          have heq : s.fdSetClosing fd b = (.ok, { s with
              fdGenerations := { fd := fd, generation := 1, closing := b } :: s.fdGenerations
              tape := tape }) := by
            rw [fdSetClosing, hg, hask]
          rw [heq] at hunique ⊢
          refine .inr ⟨rfl, hunique, fun fd' => ?_⟩
          rw [fdIsClosing_eq, fdIsClosing_eq]
          exact markIn_cons ⟨fd, 1, b, false, 0⟩ s.fdGenerations fd'

theorem Drift.sameMarks (hd : Drift s s') : SameMarks s s' := by
  cases hd with
  | same hs => exact .of_eq hs.generations
  | insert g hg hc => exact .insert hg hc s.tape
  | wake | unlink => exact .of_eq rfl

theorem Drifts.sameMarks (hd : Drifts s s') : SameMarks s s' := by
  induction hd with
  | refl => exact .refl s
  | tail _ hd ih => exact ih.trans hd.sameMarks

theorem FdWaits.sameMarks {events : Nat} {inst : Option Nat} {o : Outcome}
    (hw : FdWaits s t fd events inst o s') : SameMarks s s' := by
  cases hw with
  | answered => exact .of_eq rfl
  | refused rc gen gens interest filters tape _ hcur =>
      have hset : SameMarks s { s with tape := s.tape.tail } := .of_eq rfl
      exact (hset.trans (hcur.sameMarks s.tape.tail)).trans (.of_eq rfl)
  | parked gen gens tape timers wakeNs hcur =>
      have hset : SameMarks s { s with tape := s.tape.tail } := .of_eq rfl
      exact (hset.trans (hcur.sameMarks s.tape.tail)).trans (.of_eq rfl)

/-- Nobody waits at a descriptor that is marked as closing. -/
def Deserted (s : Rt) : Prop :=
  ∀ w ∈ s.fdWaiters, (s.fdw w).state = .active → s.fdIsClosing (s.fdw w).fd = false

theorem Deserted.of_marks (h : s.Deserted) (hmark : ∀ fd, s'.fdIsClosing fd = s.fdIsClosing fd)
    (hw : ∀ w ∈ s'.fdWaiters, (s'.fdw w).state = .active → w ∈ s.fdWaiters ∧ s'.fdw w = s.fdw w) :
    s'.Deserted := by
  intro w hmem hact
  obtain ⟨hmem', hrec⟩ := hw w hmem hact
  rw [hmark, hrec]
  rw [hrec] at hact
  exact h w hmem' hact

/-- Waits end and none begins. -/
theorem Drift.actives (hd : Drift s s') (w : FdWaiterId) (hmem : w ∈ s'.fdWaiters)
    (hact : (s'.fdw w).state = .active) : w ∈ s.fdWaiters ∧ s'.fdw w = s.fdw w := by
  cases hd with
  | same hs => exact ⟨hs.list ▸ hmem, hs.record w (hs.list ▸ hmem)⟩
  | insert => exact ⟨hmem, rfl⟩
  | unlink v => exact ⟨List.mem_of_mem_erase hmem, rfl⟩
  | wake v hv =>
      by_cases hwv : w = v
      · subst hwv
        simp [reserve] at hact
      · exact ⟨hmem, Function.update_of_ne hwv _ _⟩

theorem Drifts.actives (hd : Drifts s s') (w : FdWaiterId) (hmem : w ∈ s'.fdWaiters)
    (hact : (s'.fdw w).state = .active) : w ∈ s.fdWaiters ∧ s'.fdw w = s.fdw w := by
  induction hd with
  | refl => exact ⟨hmem, rfl⟩
  | tail _ hd ih =>
      obtain ⟨hmem', hrec⟩ := hd.actives w hmem hact
      obtain ⟨h1, h2⟩ := ih hmem' (hrec ▸ hact)
      exact ⟨h1, hrec.trans h2⟩

/-- Closing marks the descriptor and leaves nobody waiting there, or it changes no mark. -/
theorem Inv.fdCloseBegin_marks (h : s.Inv) (hu : Unique s.fdGenerations) (hd : s.Deserted)
    (fd : Nat) :
    (s.fdCloseBegin fd).2.initialized = s.initialized ∧ (s.fdCloseBegin fd).2.Deserted ∧
      Unique (s.fdCloseBegin fd).2.fdGenerations ∧
      (((s.fdCloseBegin fd).1 ≠ .ok ∧
          ∀ fd', (s.fdCloseBegin fd).2.fdIsClosing fd' = s.fdIsClosing fd') ∨
        ((s.fdCloseBegin fd).1 = .ok ∧ s.fdIsClosing fd = false ∧
          ∀ fd', (s.fdCloseBegin fd).2.fdIsClosing fd' =
            if fd' = fd then true else s.fdIsClosing fd')) := by
  have hset := s.fdSetClosing_cases fd true
  have hregen := s.fdSetClosing_regen fd true
  unfold Rt.fdCloseBegin
  cases hc : s.fdIsClosing fd with
  | true => exact ⟨rfl, hd, hu, .inl ⟨by simp, fun _ => rfl⟩⟩
  | false =>
      rw [if_neg (by simp)]
      generalize s.fdSetClosing fd true = r at hset hregen
      obtain ⟨rc, a⟩ := r
      simp only at hset hregen
      rcases hset with ⟨hrc, hmarks, -⟩ | ⟨rfl, hunique, hmarks⟩
      · have hda : a.Deserted := hd.of_marks (hmarks.mark hu) fun w hmem _ => by
          obtain ⟨gens, tape, rfl⟩ := hregen
          exact ⟨hmem, rfl⟩
        have hia : a.initialized = s.initialized := by
          obtain ⟨gens, tape, rfl⟩ := hregen
          rfl
        cases rc with
        | ok => exact absurd rfl hrc
        | _ => exact ⟨hia, hda, hmarks.unique hu, .inl ⟨by simp, hmarks.mark hu⟩⟩
      · have hb := hregen.trans (a.fdGenerationBump_regen fd)
        have hbump := a.fdGenerationBump_sameMarks fd
        have hbinv : (a.fdGenerationBump fd).Inv := hb.quiet.inv h
        have hshifts : FdShifts (.close fd) (a.fdGenerationBump fd) (a.fdWakeForClose fd) :=
          hbinv.fdWakeSelected (k := .close fd) (·.fd == fd) .closed
            (fun _ x hx => ⟨by simpa using hx, rfl, rfl⟩) (List.Subset.refl _)
        obtain ⟨hl, hidle⟩ := hbinv.fdWakeSelected_idle (·.fd == fd) .closed
          (List.Subset.refl (a.fdGenerationBump fd).fdWaiters)
        have hwake := (FdShifts.drifts hshifts).sameMarks
        have hmarks' : ∀ fd', (a.fdWakeForClose fd).fdIsClosing fd' =
            if fd' = fd then true else s.fdIsClosing fd' := fun fd' =>
          ((hwake.mark (hbump.unique (hunique hu)) fd').trans
            (hbump.mark (hunique hu) fd')).trans (hmarks fd')
        refine ⟨?_, fun w hmem hact => ?_, hwake.unique (hbump.unique (hunique hu)),
          .inr ⟨rfl, rfl, hmarks'⟩⟩
        · have hcontrol := Moves.control_eq (Shifts.moves (FdShifts.shifts hshifts))
          have hinit : (a.fdWakeForClose fd).initialized = (a.fdGenerationBump fd).initialized :=
            congrArg Prod.fst hcontrol
          obtain ⟨gens, tape, hbeq⟩ := hb
          rw [hinit, hbeq]
        · obtain ⟨hrec, hpick⟩ := hidle w hact
          have hmem' : w ∈ (a.fdGenerationBump fd).fdWaiters := hl ▸ hmem
          have hne : ((a.fdGenerationBump fd).fdw w).fd ≠ fd := by simpa using hpick hmem'
          have hrec' : (a.fdWakeForClose fd).fdw w = (a.fdGenerationBump fd).fdw w := hrec
          rw [hrec'] at hact ⊢
          obtain ⟨gens, tape, hbeq⟩ := hb
          rw [hbeq] at hmem' hact hne ⊢
          rw [hmarks', if_neg hne]
          exact hd w hmem' hact

/-- The mark is taken away again. -/
theorem fdCloseEnd_marks (hu : Unique s.fdGenerations) (hd : s.Deserted)
    (hc : s.fdIsClosing fd = true) :
    Unique (s.fdCloseEnd fd).fdGenerations ∧ (s.fdCloseEnd fd).Deserted ∧
      (s.fdCloseEnd fd).initialized = s.initialized ∧
      ∀ fd', (s.fdCloseEnd fd).fdIsClosing fd' = if fd' = fd then false else s.fdIsClosing fd' := by
  have hregen := s.fdSetClosing_regen fd false
  have hset := s.fdSetClosing_cases fd false
  have hok : (s.fdSetClosing fd false).1 = .ok := by
    unfold fdIsClosing at hc
    unfold fdSetClosing
    cases hg : s.fdGenerationFind fd with
    | some g => rfl
    | none => simp [hg] at hc
  rcases hset with ⟨hrc, -⟩ | ⟨-, hunique, hmarks⟩
  · exact absurd hok hrc
  · refine ⟨hunique hu, fun w hmem hact => ?_, ?_, hmarks⟩
    · obtain ⟨gens, tape, heq⟩ := hregen
      have heq' : s.fdCloseEnd fd = { s with fdGenerations := gens, tape := tape } := heq
      have hmark : (s.fdCloseEnd fd).fdIsClosing ((s.fdCloseEnd fd).fdw w).fd = _ :=
        hmarks ((s.fdCloseEnd fd).fdw w).fd
      rw [hmark]
      split
      · rfl
      · rw [heq'] at hmem hact ⊢
        exact hd w hmem hact
    · obtain ⟨gens, tape, heq⟩ := hregen
      have heq' : s.fdCloseEnd fd = { s with fdGenerations := gens, tape := tape } := heq
      rw [heq']

end Rt

namespace Sys

variable {s s' : Sys} {a : Actor} {c : CallId} {fd : Nat}

/-! ## The marks during a step -/

/-- A step that is no section of `mt_fd_close` changes no mark and lets nobody wait at a marked
descriptor, or it resets the runtime. -/
theorem Watch.sameMarks {act : Act} {r : Rt} (hw : s.Watch act r) (hinv : s.rt.Inv)
    (hnot : ∀ a env, act = .cont a env →
      (∀ c fd, s.pc a.agent ≠ .called c (.fdClose fd)) ∧ (s.pc a.agent).closes = none)
    (hu : Unique s.rt.fdGenerations) (hd : s.rt.Deserted) :
    (SameMarks s.rt r ∧ r.Deserted) ∨ (r.fdWaiters = [] ∧ r.fdGenerations = [] ∧
      ∃ n c, s.pc (.ext n) = .called c .shutdown ∧ s.rt.running = false ∧ s.Alone (.ext n)) := by
  have hfresh := hinv.fd_fresh
  have same : ∀ {a b : Rt}, SameMarks s.rt a ∧ a.Deserted → FdSame a b →
      SameMarks s.rt b ∧ b.Deserted := fun {a b} ha hab => by
    have hmarks : SameMarks a b := .of_eq hab.generations
    refine ⟨ha.1.trans hmarks, ha.2.of_marks (hmarks.mark (ha.1.unique hu)) fun w hmem _ => ?_⟩
    exact ⟨hab.list ▸ hmem, hab.record w (hab.list ▸ hmem)⟩
  have regen : ∀ {a : Rt}, SameMarks s.rt a → Regen s.rt a → SameMarks s.rt a ∧ a.Deserted :=
    fun {a} hm hr => by
      refine ⟨hm, hd.of_marks (hm.mark hu) fun w hmem _ => ?_⟩
      obtain ⟨gens, tape, rfl⟩ := hr
      exact ⟨hmem, rfl⟩
  cases hw with
  | drifts hdr _ =>
      exact .inl ⟨hdr.sameMarks, hd.of_marks (hdr.sameMarks.mark hu) hdr.actives⟩
  | op a env hact ho hs _ =>
      obtain ⟨hcall, hcloses⟩ := hnot a env hact
      refine .inl (same ?_ hs)
      cases ho with
      | tape tape => exact regen (.of_eq rfl) (.tape s.rt tape)
      | adopt fd flags => exact regen (s.rt.fdAdopt_sameMarks fd flags) (s.rt.fdAdopt_regen fd flags)
      | release fd => exact regen (s.rt.fdRelease_sameMarks fd) (s.rt.fdRelease_regen fd)
      | close fd hdoes =>
          obtain ⟨c, hpc⟩ := hdoes
          exact absurd hpc (hcall c fd)
      | unmark fd hdoes =>
          obtain ⟨c, rc, hpc⟩ := hdoes
          rw [hpc] at hcloses
          cases hcloses
      | forget fd =>
          exact ⟨.of_eq rfl, hd.of_marks (fun _ => rfl) fun w hmem _ => ⟨hmem, rfl⟩⟩
  | refuse w t env fd events inst rc _ _ _ hwait hs =>
      refine .inl (same ⟨hwait.sameMarks, hd.of_marks (hwait.sameMarks.mark hu) fun v hmem _ => ?_⟩ hs)
      cases hwait with
      | answered => exact ⟨hmem, rfl⟩
      | refused =>
          exact ⟨hmem, Function.update_of_ne (ne_of_mem_of_not_mem hmem hfresh) _ _⟩
  | park w t env fd events inst _ _ _ _ hwait hs =>
      refine .inl (same ⟨hwait.sameMarks, fun v hmem hact => ?_⟩ hs)
      rw [hwait.sameMarks.mark hu]
      cases hwait with
      | parked gen gens tape timers wakeNs hcur hopen =>
          rcases List.mem_cons.mp hmem with rfl | hmem
          · simp only [Rt.parkFd, Function.update_self]
            exact hopen
          · have hrec : ∀ x, Function.update s.rt.fdw s.rt.nextAddr x v = s.rt.fdw v := fun x =>
              Function.update_of_ne (ne_of_mem_of_not_mem hmem hfresh) _ _
            simp only [Rt.parkFd, hrec] at hact ⊢
            exact hd v hmem hact
  | osClose a fd _ hs =>
      have hmarks : SameMarks s.rt (s.rt.kernelForgets fd) := .of_eq rfl
      exact .inl (same ⟨hmarks, hd.of_marks (fun _ => rfl) fun w hmem _ => ⟨hmem, rfl⟩⟩ hs)
  | reset hl hg _ hdown => exact .inr ⟨hl, hg, hdown⟩

/-! ## Closers and marks -/

/-- `mt_fd_close` is called in an initialised runtime. -/
def Seated (s : Sys) : Act → Prop
  | .cont a _ =>
    match s.pc a.agent with
    | .called _ (.fdClose _) => s.rt.initialized = true
    | _ => True
  | _ => True

instance (s : Sys) (act : Act) : Decidable (s.Seated act) := by
  induction act using Act.casesOn with
  | cont a env =>
      dsimp only [Seated]
      generalize s.pc a.agent = p
      induction p using Pc.casesOn with
      | called c call =>
          induction call using Api.casesOn with
          | fdClose fd => exact inferInstanceAs (Decidable (_ = _))
          | _ => exact instDecidableTrue
      | _ => exact instDecidableTrue
  | _ => exact instDecidableTrue

/-- A descriptor is marked as long as one agent is closing it, and nobody waits for it then. -/
structure Closers (s : Sys) : Prop where
  unique : Unique s.rt.fdGenerations
  marked : ∀ g fd, (s.pc g).closes = some fd → s.rt.fdIsClosing fd = true
  held : ∀ fd, s.rt.fdIsClosing fd = true → ∃ g, (s.pc g).closes = some fd
  single : ∀ g k fd, (s.pc g).closes = some fd → (s.pc k).closes = some fd → g = k
  running : ∀ t, (s.pc (.task t)).closes ≠ none → ∃ w, s.workers w = .running t
  deserted : s.rt.Deserted
  seated : ∀ g, (s.pc g).closes ≠ none → s.rt.initialized = true

/-- Without closers there are no marks. -/
theorem Closers.of_none (hg : s.rt.fdGenerations = []) (hl : s.rt.fdWaiters = [])
    (hpc : ∀ g, (s.pc g).closes = none) : s.Closers where
  unique := by simp [Unique, hg]
  marked g fd h := by simp [hpc] at h
  held fd h := by simp [fdIsClosing_eq, hg, markIn] at h
  single g k fd h := by simp [hpc] at h
  running t h := absurd (hpc _) h
  deserted w hw := by simp [hl] at hw
  seated g h := absurd (hpc g) h

/-- Nobody begins or ends a close. -/
theorem Closers.of_same (h : s.Closers) (hm : SameMarks s.rt s'.rt) (hd : s'.rt.Deserted)
    (hpc : ∀ g, (s'.pc g).closes = (s.pc g).closes)
    (hrun : ∀ t w, (s.pc (.task t)).closes ≠ none → s.workers w = .running t →
      s'.workers w = .running t)
    (hinit : s'.rt.initialized = s.rt.initialized ∨ ∀ g, (s.pc g).closes = none) :
    s'.Closers where
  unique := hm.unique h.unique
  marked g fd hg := by
    rw [hm.mark h.unique]
    exact h.marked g fd (hpc g ▸ hg)
  held fd hfd := by
    rw [hm.mark h.unique] at hfd
    obtain ⟨g, hg⟩ := h.held fd hfd
    exact ⟨g, (hpc g).trans hg⟩
  single g k fd hg hk := h.single g k fd (hpc g ▸ hg) (hpc k ▸ hk)
  running t ht := by
    rw [hpc] at ht
    obtain ⟨w, hw⟩ := h.running t ht
    exact ⟨w, hrun t w ht hw⟩
  deserted := hd
  seated g hg := by
    rw [hpc] at hg
    rcases hinit with hinit | hnone
    · exact hinit.trans (h.seated g hg)
    · exact absurd (hnone g) hg

/-- Nobody is closing anything when the runtime is shut down. -/
theorem Closers.alone {n : Nat} {c : CallId} (h : s.Closers) (hok : s.Ok)
    (hpc : s.pc (.ext n) = .called c .shutdown) (hr : s.rt.running = false)
    (halone : s.Alone (.ext n)) (g : Agent) : (s.pc g).closes = none := by
  cases g with
  | task t =>
      by_contra hne
      obtain ⟨w, hw⟩ := h.running t hne
      simp [hok.workers_off hr w] at hw
  | ext m =>
      by_cases hm : Agent.ext m = .ext n
      · rw [hm, hpc]
        rfl
      · rw [halone m hm]
        rfl

theorem Closers.prepared {s₀ : Sys} (h : s.Closers) (hok : s.Ok) (hp : s.Prepared s₀) :
    s₀.Closers := by
  rcases hp.cases hok with ⟨tape, rfl⟩ | ⟨hinit, -, rt, hb, rfl⟩
  · exact h.of_same (.of_eq rfl) (h.deserted.of_marks (fun _ => rfl) fun w hw _ => ⟨hw, rfl⟩)
      (fun _ => rfl) (fun _ _ _ hw => hw) (.inl rfl)
  · refine .of_none hb.fdGenerations hb.off.fdWaiters fun g => ?_
    by_contra hne
    have := h.seated g hne
    simp [hinit] at this

/-- A step that is no section of `mt_fd_close`. -/
theorem Case.closers {act : Act} (hc : Case s act s') (hok : s.Ok) (h : s.Closers)
    (hnot : ∀ a env, act = .cont a env → (∀ c fd, s.pc a.agent ≠ .called c (.fdClose fd)) ∧
      (s.pc a.agent).closes = none ∧ (s'.pc a.agent).closes = none) : s'.Closers := by
  have hpc : ∀ g, (s'.pc g).closes = (s.pc g).closes := fun g => by
    by_cases hg : act.agent? = some g
    · by_cases hcont : ∃ a env, act = .cont a env
      · obtain ⟨a, env, rfl⟩ := hcont
        cases hg
        obtain ⟨-, h1, h2⟩ := hnot a env rfl
        rw [h1, h2]
      · exact hc.closes_eq (fun a env heq => hcont ⟨a, env, heq⟩) g
    · exact hc.closes_kept hg
  have hrun : ∀ t w, (s.pc (.task t)).closes ≠ none → s.workers w = .running t →
      s'.workers w = .running t := fun t w ht hw => by
    rcases hc.running_kept hok hw with ⟨a, env, rfl, hagent⟩ | huser | hw'
    · rw [← hagent, (hnot a env rfl).2.1] at ht
      exact absurd rfl ht
    · rw [huser] at ht
      exact absurd rfl ht
    · exact hw'
  rcases (hc.watch hok).sameMarks hok.rest.inv
      (fun a env heq => ⟨(hnot a env heq).1, (hnot a env heq).2.1⟩) h.unique h.deserted with
    ⟨hm, hd⟩ | ⟨hl, hg, n, c, hcall, hr, halone⟩
  · refine h.of_same hm hd hpc hrun ?_
    rcases hc.initialized_kept hok with hinit | ⟨n, c, hcall, hr, halone⟩
    · exact .inl hinit
    · exact .inr (h.alone hok hcall hr halone)
  · exact .of_none hg hl fun g => (hpc g).trans (h.alone hok hcall hr halone g)

/-- An agent begins to close a descriptor that nobody closes. -/
theorem Closers.opened {g₀ : Agent} (h : s.Closers) (hopen : s.rt.fdIsClosing fd = false)
    (hself : (s'.pc g₀).closes = some fd) (hfree : (s.pc g₀).closes = none)
    (hother : ∀ g, g ≠ g₀ → s'.pc g = s.pc g) (hworkers : s'.workers = s.workers)
    (hrun : ∀ t, g₀ = .task t → ∃ w, s.workers w = .running t)
    (hinit : s'.rt.initialized = true) (hu : Unique s'.rt.fdGenerations) (hd : s'.rt.Deserted)
    (hmarks : ∀ fd', s'.rt.fdIsClosing fd' = if fd' = fd then true else s.rt.fdIsClosing fd') :
    s'.Closers := by
  have hnew : ∀ g, (s.pc g).closes ≠ some fd := fun g hg => by
    rw [h.marked g fd hg] at hopen
    cases hopen
  refine ⟨hu, fun g fd' hg => ?_, fun fd' hfd => ?_, fun g k fd' hg hk => ?_, fun t ht => ?_, hd,
    fun _ _ => hinit⟩
  · rw [hmarks]
    split
    · rfl
    · next hne =>
        by_cases hgg : g = g₀
        · subst hgg
          rw [hself] at hg
          exact absurd (Option.some.inj hg).symm hne
        · rw [hother g hgg] at hg
          exact h.marked g fd' hg
  · rw [hmarks] at hfd
    split at hfd
    · next heq =>
        subst heq
        exact ⟨g₀, hself⟩
    · obtain ⟨g, hg⟩ := h.held fd' hfd
      have hgg : g ≠ g₀ := fun heq => by
        rw [heq, hfree] at hg
        cases hg
      exact ⟨g, by rw [hother g hgg, hg]⟩
  · by_cases hgg : g = g₀ <;> by_cases hkk : k = g₀
    · rw [hgg, hkk]
    · rw [hgg, hself] at hg
      rw [hother k hkk, ← hg] at hk
      exact absurd hk (hnew k)
    · rw [hkk, hself] at hk
      rw [hother g hgg, ← hk] at hg
      exact absurd hg (hnew g)
    · rw [hother g hgg] at hg
      rw [hother k hkk] at hk
      exact h.single g k fd' hg hk
  · rw [hworkers]
    by_cases htg : g₀ = .task t
    · exact hrun t htg
    · rw [hother _ (Ne.symm htg)] at ht
      exact h.running t ht

/-- The agent that closes a descriptor is done with it. -/
theorem Closers.closed {g₀ : Agent} (h : s.Closers) (hfd : (s.pc g₀).closes = some fd)
    (hself : (s'.pc g₀).closes = none) (hother : ∀ g, g ≠ g₀ → s'.pc g = s.pc g)
    (hworkers : s'.workers = s.workers) (hinit : s'.rt.initialized = s.rt.initialized)
    (hu : Unique s'.rt.fdGenerations) (hd : s'.rt.Deserted)
    (hmarks : ∀ fd', s'.rt.fdIsClosing fd' = if fd' = fd then false else s.rt.fdIsClosing fd') :
    s'.Closers := by
  have hne : ∀ g fd', (s'.pc g).closes = some fd' → g ≠ g₀ := fun g fd' hg heq => by
    rw [heq, hself] at hg
    cases hg
  have hback : ∀ g fd', (s'.pc g).closes = some fd' → (s.pc g).closes = some fd' :=
    fun g fd' hg => hother g (hne g fd' hg) ▸ hg
  refine ⟨hu, fun g fd' hg => ?_, fun fd' hfd' => ?_, fun g k fd' hg hk => ?_, fun t ht => ?_, hd,
    fun g hg => ?_⟩
  · rw [hmarks, if_neg fun heq => ?_]
    · exact h.marked g fd' (hback g fd' hg)
    · subst heq
      exact hne g fd' hg (h.single g g₀ fd' (hback g fd' hg) hfd)
  · rw [hmarks] at hfd'
    split at hfd'
    · cases hfd'
    · next hneq =>
        obtain ⟨g, hg⟩ := h.held fd' hfd'
        have hgg : g ≠ g₀ := fun heq => by
          rw [heq, hfd] at hg
          exact hneq (Option.some.inj hg).symm
        exact ⟨g, by rw [hother g hgg, hg]⟩
  · exact h.single g k fd' (hback g fd' hg) (hback k fd' hk)
  · obtain ⟨fd', hfd'⟩ := Option.ne_none_iff_exists'.mp ht
    rw [hworkers]
    exact h.running t (by simp [hback _ fd' hfd'])
  · obtain ⟨fd', hfd'⟩ := Option.ne_none_iff_exists'.mp hg
    exact hinit.trans (h.seated g (by simp [hback g fd' hfd']))

/-- The first section of `mt_fd_close`. -/
theorem Closers.begins (h : s.Closers) (hok : s.Ok) (hen : s.enabled a = true)
    (hpc : s.pc a.agent = .called c (.fdClose fd)) (hinit : s.rt.initialized = true) (env : Env) :
    (s.callApi a c env (.fdClose fd)).Closers := by
  obtain ⟨hi, hd, hu, hcases⟩ := hok.rest.inv.fdCloseBegin_marks h.unique h.deserted fd
  have hfree : (s.pc a.agent).closes = none := by
    rw [hpc]
    rfl
  simp only [callApi]
  generalize s.rt.fdCloseBegin fd = r at hi hd hu hcases
  obtain ⟨rc, rt⟩ := r
  simp only at hi hd hu hcases
  rcases hcases with ⟨hrc, hmarks⟩ | ⟨rfl, hopen, hmarks⟩
  · have hret : (s.ret a c .neither rc rt).Closers := by
      refine h.of_same ⟨fun _ => hu, fun _ => hmarks⟩
        (hd.of_marks (fun _ => rfl) fun w hw _ => ⟨hw, rfl⟩) (fun g => ?_) (fun _ _ _ hw => hw)
        (.inl hi)
      by_cases hg : g = a.agent
      · subst hg
        rw [closes_ret, hfree]
      · simp [ret, setPc, hg]
    cases rc with
    | ok => exact absurd rfl hrc
    | _ => exact hret
  · have hself : ((({ s with rt := rt } : Sys).setPc a.agent
        (.fdClosing c fd (s.os.inst fd))).pc a.agent).closes = some fd := closes_setPc ..
    refine h.opened hopen hself hfree (fun g hg => ?_) rfl
      (fun t ht => ?_) (hi.trans hinit) hu hd hmarks
    · simp [setPc, hg]
    · cases a with
      | ext n => cases ht
      | task w u =>
          cases ht
          exact ⟨w, enabled_task.mp hen⟩

/-- The last section of `mt_fd_close`. -/
theorem Closers.ends (h : s.Closers) {rc : Rc} (hpc : s.pc a.agent = .fdClosed c fd rc) :
    (s.ret a c .neither rc (s.rt.fdCloseEnd fd)).Closers := by
  have hfd : (s.pc a.agent).closes = some fd := by
    rw [hpc]
    rfl
  obtain ⟨hu, hd, hi, hmarks⟩ := fdCloseEnd_marks h.unique h.deserted (h.marked _ _ hfd)
  refine h.closed hfd (closes_ret ..) (fun g hg => ?_) rfl hi hu
    (hd.of_marks (fun _ => rfl) fun w hw _ => ⟨hw, rfl⟩) hmarks
  simp [ret, setPc, hg]

/-- The OS `close` in between. -/
theorem Closers.closes (h : s.Closers) {i : Option Nat} (hpc : s.pc a.agent = .fdClosing c fd i)
    (env : Env) : (s.closeStep a c fd env).Closers := by
  have hfd : (s.pc a.agent).closes = some fd := by
    rw [hpc]
    rfl
  have key : ∀ (b : Sys) rc, b.rt.fdGenerations = s.rt.fdGenerations →
      b.rt.fdWaiters = s.rt.fdWaiters → b.rt.fdw = s.rt.fdw →
      b.rt.initialized = s.rt.initialized → b.workers = s.workers → b.pc = s.pc →
      (b.setPc a.agent (.fdClosed c fd rc)).Closers := fun b rc hg hl hw hi hwork hb => by
    have hmarks : SameMarks s.rt b.rt := .of_eq hg
    refine h.of_same hmarks (h.deserted.of_marks (hmarks.mark h.unique) fun w hmem _ => ?_)
      (fun g => ?_) (fun t v _ hrun => ?_) (.inl hi)
    · exact ⟨hl ▸ hmem, congrFun hw w⟩
    · by_cases hga : g = a.agent
      · subst hga
        rw [closes_setPc, hfd]
        rfl
      · simp [setPc, hga, hb]
    · change b.workers v = .running t
      rw [hwork, hrun]
  unfold closeStep
  split
  · exact key s _ rfl rfl rfl rfl rfl rfl
  · exact key _ _ rfl rfl rfl rfl rfl rfl

theorem Closers.tick (h : s.Closers) (tape : List Bool) : (s.tick tape).Closers :=
  h.of_same (.of_eq rfl) (h.deserted.of_marks (fun _ => rfl) fun _ hw _ => ⟨hw, rfl⟩)
    (fun _ => rfl) (fun _ _ _ hw => hw) (.inl rfl)

/-- The invariant of the closing marks. -/
theorem Closers.step {act : Act} (h : s.Closers) (hok : s.Ok) (hcon : s.Contract act)
    (hseat : s.Seated act) (hs : machine.step s act = some s') : s'.Closers := by
  obtain ⟨s₀, hp, hcase⟩ := hok.step_cases hcon hs
  have hpc₀ := hp.pc_eq
  by_cases hcont : ∃ a env, act = .cont a env
  · obtain ⟨a, env, rfl⟩ := hcont
    have hen := enabled_of_step hs
    rcases close_sections hs with ⟨c, fd, hpc, rfl⟩ | ⟨c, fd, i, hpc, rfl⟩ | ⟨c, fd, rc, hpc, rfl⟩ |
      ⟨hcall, h1, h2⟩
    · have hinit : s.rt.initialized = true := by simpa [Seated, hpc] using hseat
      exact (h.tick env.tape).begins (hok.tick env.tape) hen hpc hinit env
    · exact (h.tick env.tape).closes hpc env
    · exact (h.tick env.tape).ends hpc
    · refine hcase.closers (hp.ok hok) (h.prepared hok hp) fun b env' heq => ?_
      cases heq
      rw [hpc₀]
      exact ⟨hcall, h1, h2⟩
  · exact hcase.closers (hp.ok hok) (h.prepared hok hp) fun a env heq => absurd ⟨a, env, heq⟩ hcont

theorem closers_of_reach (h : machine.Reach (Under Seated) s) : s.Closers := by
  refine h.invariant (fun s hs => ?_) fun s act s' hr ih hact hs =>
    ih.step (ok_of_under hr) hact.1 hact.2 hs
  obtain ⟨kind, rfl⟩ := hs
  refine .of_none rfl rfl fun g => ?_
  cases g with
  | task t => rfl
  | ext n => rfl

end Sys

/-! ## What a mark answers -/

namespace Rt

variable (s : Rt) (fd : Nat)

theorem fdAdopt_closed_iff (flags : Nat) :
    (s.fdAdopt fd flags).1 = .closed ↔ s.fdIsClosing fd = true := by
  unfold fdAdopt
  cases s.fdIsClosing fd with
  | true => simp
  | false =>
      rw [if_neg (by simp)]
      refine iff_of_false ?_ (by simp)
      split
      · simp
      · split
        · split
          · simp
          · simp
        · simp

theorem fdCloseBegin_state_iff : (s.fdCloseBegin fd).1 = .state ↔ s.fdIsClosing fd = true := by
  unfold fdCloseBegin
  cases s.fdIsClosing fd with
  | true => simp
  | false =>
      rw [if_neg (by simp)]
      refine iff_of_false ?_ (by simp)
      split
      · simp
      · simp

theorem registerError_ne_closed : s.registerError.1 ≠ .closed := by
  unfold registerError
  split
  · simp
  · simp

theorem fdWaiterAdd_ne_closed (w : FdWaiterId) : (s.fdWaiterAdd w).1 ≠ .closed := by
  have hadd : (s.ioBackendAdd w).1 ≠ .closed := by
    unfold ioBackendAdd
    split
    · simp only [epollBackendAdd]
      split
      · simp
      · exact registerError_ne_closed _
    · simp only [kqueueBackendAdd]
      split
      · simp
      · exact registerError_ne_closed _
    · simp
  unfold fdWaiterAdd
  split
  · simp
  · next rc a _ heq => simpa [heq] using hadd

theorem fdWaitRegister_ne_closed (t : TaskId) (w : FdWaiterId) (timeoutMs nowNs : Nat) :
    (s.fdWaitRegister t w timeoutMs nowNs).1 ≠ .ret .closed := by
  have hadd := s.fdWaiterAdd_ne_closed w
  unfold fdWaitRegister
  generalize s.fdWaiterAdd w = r at hadd
  obtain ⟨rc, a⟩ := r
  cases rc with
  | ok =>
      simp only
      split
      · simp
      · simp
  | closed => exact absurd rfl hadd
  | _ => simp

theorem fdWaitPark_ne_closed (t : TaskId) (events timeoutMs nowNs : Nat) (inst : Option Nat) :
    (s.fdWaitPark t fd events timeoutMs nowNs inst).1 ≠ .ret .closed := by
  unfold fdWaitPark
  split
  · simp
  · simp only
    apply fdWaitRegister_ne_closed

theorem fdWait_closed_iff (t : TaskId) (events timeoutMs nowNs : Nat) (poll : PollResult)
    (inst : Option Nat) : (s.fdWait t fd events timeoutMs nowNs poll inst).1 = .ret .closed ↔
      s.fdIsClosing fd = true := by
  unfold fdWait
  cases s.fdIsClosing fd with
  | true => simp
  | false =>
      rw [if_neg (by simp)]
      refine iff_of_false ?_ (by simp)
      split
      · simp
      · cases poll with
        | failed ebadf => cases ebadf <;> simp
        | revents bits =>
            simp only
            split
            · split
              · simp
              · simp
            · split
              · simp
              · exact s.fdWaitPark_ne_closed fd t events timeoutMs nowNs inst

end Rt

/-- In every run in which `mt_fd_close` is called in an initialised runtime, a descriptor is
marked exactly while one agent is between the sections of its `mt_fd_close`, and only one can
be. Nobody waits for it then. `mt_fd_adopt` and `mt_fd_wait` answer with `MT_ERR_CLOSED`, and
another `mt_fd_close` with `MT_ERR_STATE`, exactly then, whatever descriptor the number stands
for by that time. -/
theorem closing_marks_exact {s : Sys} (h : machine.Reach (Sys.Under Sys.Seated) s) :
    (∀ fd, s.rt.fdIsClosing fd = true ↔ ∃! g, (s.pc g).closes = some fd) ∧
    (∀ g t, g = .task t → (s.pc g).closes ≠ none → s.rt.Runs t) ∧
    (∀ w ∈ s.rt.fdWaiters, (s.rt.fdw w).state = .active →
      ∀ g, (s.pc g).closes ≠ some (s.rt.fdw w).fd) ∧
    (∀ fd flags, (s.rt.fdAdopt fd flags).1 = .closed ↔ ∃ g, (s.pc g).closes = some fd) ∧
    (∀ t fd events ms nowNs poll inst,
      (s.rt.fdWait t fd events ms nowNs poll inst).1 = .ret .closed ↔
        ∃ g, (s.pc g).closes = some fd) ∧
    ∀ fd, (s.rt.fdCloseBegin fd).1 = .state ↔ ∃ g, (s.pc g).closes = some fd := by
  have hc := Sys.closers_of_reach h
  have hok := Sys.ok_of_under h
  have hmark : ∀ fd, s.rt.fdIsClosing fd = true ↔ ∃ g, (s.pc g).closes = some fd := fun fd =>
    ⟨hc.held fd, fun ⟨g, hg⟩ => hc.marked g fd hg⟩
  refine ⟨fun fd => ?_, fun g t hg ht => ?_, fun w hw hact g hg => ?_, fun fd flags => ?_,
    fun t fd events ms nowNs poll inst => ?_, fun fd => ?_⟩
  · rw [hmark]
    refine ⟨fun hex => ?_, fun hex => hex.exists⟩
    obtain ⟨g, hg⟩ := hex
    exact ⟨g, hg, fun k hk => hc.single k g fd hk hg⟩
  · subst hg
    exact (hok.runs t).mpr (hc.running t ht)
  · have hopen := hc.deserted w hw hact
    rw [hc.marked g _ hg] at hopen
    cases hopen
  · exact (s.rt.fdAdopt_closed_iff fd flags).trans (hmark fd)
  · exact (s.rt.fdWait_closed_iff fd t events ms nowNs poll inst).trans (hmark fd)
  · exact (s.rt.fdCloseBegin_state_iff fd).trans (hmark fd)

/-- Thread 0 has closed descriptor 5, thread 1 has opened another one with that number. It
cannot adopt it before thread 0 has taken its mark away. -/
theorem closing_marks_exact_reopened : ∃ s : Sys, machine.Reach Sys.Contract s ∧
    s.pc (.ext 0) = .fdClosed 1 5 .ok ∧ s.os.inst 5 = some 1 ∧
    s.pc (.ext 1) = .fdAdopting 2 5 0 .adopt ∧ (s.rt.fdAdopt 5 0).1 = .closed := by
  obtain ⟨s, hs, hp⟩ := reach_of_trace_under Sys.Seated .poll (List.flatten
      [[.osOpen (.ext 0) 5 0], invoke (.ext 0) (.go true 0 false), invoke (.ext 0) (.fdClose 5) 2,
        [.osOpen (.ext 1) 5 0], invoke (.ext 1) (.fdAdopt 5)]) (fun s =>
      s.pc (.ext 0) == .fdClosed 1 5 .ok && s.os.inst 5 == some 1 &&
        s.pc (.ext 1) == .fdAdopting 2 5 0 .adopt) (by decide +kernel)
  simp only [Bool.and_eq_true, beq_iff_eq] at hp
  have hcloses : (s.pc (.ext 0)).closes = some 5 := by
    rw [hp.1.1]
    rfl
  exact ⟨s, hs.mono fun _ _ hc => hc.1, hp.1.1, hp.1.2, hp.2,
    ((closing_marks_exact hs).2.2.2.1 5 0).mpr ⟨_, hcloses⟩⟩

end Microthread
