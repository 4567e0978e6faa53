import Microthread.Properties.Backends
import Microthread.System.Watch

/-!
# Waiters and generations

A descriptor has one entry in the generation table, and the entry is made by whoever asks
for it first. The generation of a descriptor moves only when `mt_fd_close` ends the waits
for it, and the entry is removed only when nobody waits, so the generation that a waiter
was filled with stays the current one for as long as it is active. The one exception is a
waiter that was filled while there was no memory for the entry.
-/

namespace Microthread

open Foundation Rt

/-! ## The table -/

/-- At most one entry for each descriptor. -/
def Unique (gens : List FdGeneration) : Prop := (gens.map (·.fd)).Nodup

/-- The current generation of a descriptor, if it has an entry. -/
def generationIn (gens : List FdGeneration) (fd : Nat) : Option Nat :=
  (gens.find? (·.fd == fd)).map (·.generation)

section Table

variable {gens : List FdGeneration} {fd : Nat}

theorem find_modGeneration {f : FdGeneration → FdGeneration} (hf : ∀ g, (f g).fd = g.fd)
    (gens : List FdGeneration) (fd fd' : Nat) :
    (modGeneration fd f gens).find? (·.fd == fd') =
      if fd' = fd then (gens.find? (·.fd == fd')).map f else gens.find? (·.fd == fd') := by
  induction gens with
  | nil => simp [modGeneration]
  | cons g gens ih =>
      by_cases hg : g.fd = fd
      · subst hg
        by_cases hne : fd' = g.fd
        · subst hne
          simp [modGeneration, hf]
        · simp [modGeneration, hf, hne, Ne.symm hne]
      · by_cases hg' : g.fd = fd'
        · subst hg'
          simp [modGeneration, hg]
        · simp [modGeneration, hg, hg', ih]

theorem map_fd_modGeneration {f : FdGeneration → FdGeneration} (hf : ∀ g, (f g).fd = g.fd)
    (gens : List FdGeneration) (fd : Nat) :
    (modGeneration fd f gens).map (·.fd) = gens.map (·.fd) := by
  induction gens with
  | nil => rfl
  | cons g gens ih =>
      by_cases hg : g.fd = fd
      · simp [modGeneration, hg, hf]
      · simp [modGeneration, hg, ih]

theorem find_eraseP_of_ne {fd fd' : Nat} (hne : fd' ≠ fd) (gens : List FdGeneration) :
    (gens.eraseP (·.fd == fd)).find? (·.fd == fd') = gens.find? (·.fd == fd') := by
  induction gens with
  | nil => rfl
  | cons g gens ih =>
      by_cases hg : g.fd = fd
      · subst hg
        simp [Ne.symm hne]
      · by_cases hg' : g.fd = fd'
        · subst hg'
          simp [hg]
        · simp [hg, hg', ih]

theorem Unique.cons {g : FdGeneration} (h : Unique gens) (hg : gens.find? (·.fd == g.fd) = none) :
    Unique (g :: gens) := by
  rw [Unique, List.map_cons, List.nodup_cons]
  refine ⟨fun hmem => ?_, h⟩
  obtain ⟨g', hg', heq⟩ := List.mem_map.mp hmem
  have := List.find?_eq_none.mp hg g' hg'
  simp [heq] at this

end Table

namespace Rt

variable {s s' a : Rt} {t : TaskId} {w : FdWaiterId} {P : Nat → Prop} {fd : Nat}

def generationOf (s : Rt) (fd : Nat) : Option Nat := generationIn s.fdGenerations fd

/-- Only the table has changed; it still has no double entries, and the generations of the
descriptors in `P` are those of before. -/
structure Regenerates (P : Nat → Prop) (s s' : Rt) : Prop where
  regen : Regen s s'
  unique : Unique s.fdGenerations → Unique s'.fdGenerations
  keeps : ∀ fd, P fd → ∀ n, s.generationOf fd = some n → s'.generationOf fd = some n

theorem Regenerates.tape (s : Rt) (tape : List Bool) : Regenerates P s { s with tape := tape } :=
  ⟨.tape s tape, id, fun _ _ _ h => h⟩

theorem Regenerates.refl (s : Rt) : Regenerates P s s := .tape s s.tape

theorem Regenerates.trans (h : Regenerates P s a) (h' : Regenerates P a s') :
    Regenerates P s s' :=
  ⟨h.regen.trans h'.regen, fun hu => h'.unique (h.unique hu),
    fun fd hfd n hn => h'.keeps fd hfd n (h.keeps fd hfd n hn)⟩

theorem Regenerates.insert {g : FdGeneration} (hg : s.fdGenerationFind g.fd = none)
    (tape : List Bool) :
    Regenerates P s { s with fdGenerations := g :: s.fdGenerations, tape := tape } := by
  refine ⟨⟨_, _, rfl⟩, fun hu => hu.cons hg, fun fd _ n hn => ?_⟩
  have hne : g.fd ≠ fd := by
    rintro rfl
    have hn : (s.fdGenerations.find? (·.fd == g.fd)).map (·.generation) = some n := hn
    rw [show s.fdGenerations.find? (·.fd == g.fd) = none from hg] at hn
    cases hn
  have : generationIn (g :: s.fdGenerations) fd = generationIn s.fdGenerations fd := by
    simp [generationIn, hne]
  exact this.trans hn

theorem Regenerates.modify {f : FdGeneration → FdGeneration} (hf : ∀ g, (f g).fd = g.fd)
    (hp : ∀ fd', P fd' → fd' = fd → ∀ g, (f g).generation = g.generation) :
    Regenerates P s { s with fdGenerations := modGeneration fd f s.fdGenerations } := by
  refine ⟨⟨_, _, rfl⟩, fun hu => ?_, fun fd' hfd n hn => ?_⟩
  · rw [Unique, map_fd_modGeneration hf]
    exact hu
  · rw [generationOf, generationIn, find_modGeneration hf]
    split
    · next heq =>
        rw [Option.map_map, ← hn]
        exact congrArg (fun k => Option.map k _) (funext fun g => hp fd' hfd heq g)
    · exact hn

theorem Current.regenerates {gen : Nat} {gens : List FdGeneration} (h : Current s fd gen gens)
    (tape : List Bool) : Regenerates P s { s with fdGenerations := gens, tape := tape } := by
  cases h with
  | found => exact .tape s tape
  | failed => exact .tape s tape
  | entered hg => exact .insert hg tape

theorem fdSetClosing_regenerates (s : Rt) (fd : Nat) (closing : Bool) :
    Regenerates P s (s.fdSetClosing fd closing).2 := by
  unfold fdSetClosing
  split
  · exact .modify (fun _ => rfl) fun _ _ _ _ => rfl
  · next hg =>
      obtain ⟨ok, tape, h⟩ := s.ask_eq
      rw [h]
      cases ok with
      | false => exact .tape s tape
      | true => exact .insert (g := { fd := fd, generation := 1, closing := closing }) hg tape

theorem fdGenerationBump_regenerates (s : Rt) (fd : Nat) :
    Regenerates (· ≠ fd) s (s.fdGenerationBump fd) := by
  unfold fdGenerationBump
  split
  · exact .modify (fun _ => rfl) fun fd' hne heq => absurd heq hne
  · next hg =>
      obtain ⟨ok, tape, h⟩ := s.ask_eq
      rw [h]
      cases ok with
      | false => exact .tape s tape
      | true =>
          exact .insert (g := { fd := fd, generation := 2, originalFlags := -1 }) hg tape

theorem fdAdopt_regenerates (s : Rt) (fd flags : Nat) : Regenerates P s (s.fdAdopt fd flags).2 := by
  unfold fdAdopt
  split
  · exact .refl s
  · obtain ⟨gen, gens, tape, hcur, heq⟩ := s.fdGenerationCurrent_eq fd
    have hr := hcur.regenerates (P := P) tape
    rw [heq]
    split
    · next a hz =>
        cases hz
        exact hr
    · next n a _ hz =>
        cases hz
        split
        · split
          · exact hr
          · exact hr.trans (.modify (fun _ => rfl) fun _ _ _ _ => rfl)
        · exact hr

theorem fdRelease_regenerates (s : Rt) (fd : Nat) :
    Regenerates (· ≠ fd) s (s.fdRelease fd).2.2 := by
  unfold fdRelease
  split
  · exact .refl s
  · simp only [fdGenerationRemove]
    split
    · refine ⟨⟨_, _, rfl⟩, fun hu => ?_, fun fd' hne n hn => ?_⟩
      · exact hu.sublist (List.Sublist.map _ List.eraseP_sublist)
      · rw [generationOf, generationIn, find_eraseP_of_ne hne]
        exact hn
    · exact .refl s

/-! ## Active waiters are of the current generation -/

/-- The active waiters at the descriptors in `P` are of the current generations. -/
def UpToDateOn (P : Nat → Prop) (s : Rt) : Prop :=
  ∀ w ∈ s.fdWaiters, (s.fdw w).state = .active → P (s.fdw w).fd →
    s.generationOf (s.fdw w).fd = some (s.fdw w).generation

theorem UpToDateOn.mono {Q : Nat → Prop} (h : s.UpToDateOn P) (hq : ∀ fd, Q fd → P fd) :
    s.UpToDateOn Q := fun w hw ha hfd => h w hw ha (hq _ hfd)

/-- Nobody waits at the descriptor that was left out. -/
theorem UpToDateOn.all (h : s.UpToDateOn (· ≠ fd))
    (hidle : ∀ w ∈ s.fdWaiters, (s.fdw w).state = .active → (s.fdw w).fd ≠ fd) :
    s.UpToDateOn fun _ => True := fun w hw ha _ => h w hw ha (hidle w hw ha)

theorem UpToDateOn.regenerates (h : s.UpToDateOn P) (hr : Regenerates P s s') :
    s'.UpToDateOn P := by
  obtain ⟨⟨gens, tape, rfl⟩, -, hkeeps⟩ := hr
  exact fun w hw ha hfd => hkeeps _ hfd _ (h w hw ha hfd)

theorem UpToDateOn.of_same (h : s.UpToDateOn P) (hs : FdSame s s') : s'.UpToDateOn P := by
  intro w hw ha hfd
  rw [hs.list] at hw
  rw [hs.record w hw] at ha hfd ⊢
  rw [generationOf, hs.generations]
  exact h w hw ha hfd

theorem UpToDateOn.drift (h : s.UpToDateOn P) (hd : Drift s s') : s'.UpToDateOn P := by
  cases hd with
  | same hs => exact h.of_same hs
  | insert g hg => exact h.regenerates (.insert hg s.tape)
  | wake w hw _ =>
      intro v hv ha hfd
      by_cases hvw : v = w
      · subst hvw
        simp [reserve] at ha
      · have hrec : (s.reserve w).fdw v = s.fdw v := Function.update_of_ne hvw _ _
        rw [hrec] at ha hfd ⊢
        exact h v hv ha hfd
  | unlink w => exact fun v hv => h v (List.mem_of_mem_erase hv)

theorem UpToDateOn.drifts (h : s.UpToDateOn P) (hd : Drifts s s') : s'.UpToDateOn P := by
  induction hd with
  | refl => exact h
  | tail _ hd ih => exact ih.drift hd

/-- The waits that have been selected are over. -/
theorem Inv.fdWakeSelected_idle (h : s.Inv) (pick : FdWaiter → Bool) (rc : Rc)
    {ws : List FdWaiterId} (hws : ws ⊆ s.fdWaiters) :
    (s.fdWakeSelected pick rc ws).fdWaiters = s.fdWaiters ∧
      ∀ w, ((s.fdWakeSelected pick rc ws).fdw w).state = .active →
        (s.fdWakeSelected pick rc ws).fdw w = s.fdw w ∧ (w ∈ ws → pick (s.fdw w) = false) := by
  unfold Rt.fdWakeSelected
  induction ws generalizing s with
  | nil => exact ⟨rfl, fun w _ => ⟨rfl, nofun⟩⟩
  | cons v ws ih =>
      rw [List.foldl_cons]
      obtain ⟨hv, hws⟩ := List.cons_subset.mp hws
      by_cases hact : (s.fdWaiterIsActive v && pick (s.fdw v)) = true
      · rw [if_pos hact]
        simp only [Bool.and_eq_true, fdWaiterIsActive, beq_iff_eq] at hact
        obtain ⟨items, hp, heq⟩ := h.fdReadyWaiter hv hact.1 rc 0
        rw [heq]
        have hinv : ((s.unwatch v).wakeFd v items rc 0).Inv :=
          Shifts.inv (.tail (.single (.quiet s.fdGenerations s.ioPolling _ _ s.tape))
            (.wakeFd v items rc 0 hv hact.1 (hp.congr rfl rfl))) h
        obtain ⟨hl, hrest⟩ := ih hinv hws
        refine ⟨hl, fun w ha => ?_⟩
        obtain ⟨hrec, hpick⟩ := hrest w ha
        by_cases hwv : w = v
        · subst hwv
          rw [hrec] at ha
          simp [Rt.wakeFd] at ha
        · have hsame : ((s.unwatch v).wakeFd v items rc 0).fdw w =
              s.fdw w := Function.update_of_ne hwv _ _
          rw [hsame] at hrec hpick
          exact ⟨hrec, fun hmem => hpick ((List.mem_cons.mp hmem).resolve_left hwv)⟩
      · rw [if_neg hact]
        obtain ⟨hl, hrest⟩ := ih h hws
        refine ⟨hl, fun w ha => ?_⟩
        obtain ⟨hrec, hpick⟩ := hrest w ha
        refine ⟨hrec, fun hmem => ?_⟩
        rcases List.mem_cons.mp hmem with rfl | hmem
        · rw [hrec] at ha
          simpa [fdWaiterIsActive, ha] using hact
        · exact hpick hmem

/-- Closing moves the generation of the descriptor and ends the waits for it, or does
nothing at all. -/
theorem Inv.fdCloseBegin_cases (h : s.Inv) (fd : Nat) :
    ((s.fdCloseBegin fd).1 ≠ .ok ∧ Regenerates (fun _ => True) s (s.fdCloseBegin fd).2) ∨
      ∃ a, Regenerates (· ≠ fd) s a ∧ FdShifts (.close fd) a (s.fdCloseBegin fd).2 ∧
        ∀ w ∈ (s.fdCloseBegin fd).2.fdWaiters, ((s.fdCloseBegin fd).2.fdw w).state = .active →
          ((s.fdCloseBegin fd).2.fdw w).fd ≠ fd := by
  unfold Rt.fdCloseBegin
  split
  · exact .inl ⟨by simp, .refl s⟩
  · split
    · next a heq =>
        have hclosing := s.fdSetClosing_regenerates (P := (· ≠ fd)) fd true
        rw [heq] at hclosing
        have hr := hclosing.trans (a.fdGenerationBump_regenerates fd)
        have hb : (a.fdGenerationBump fd).Inv := hr.regen.quiet.inv h
        obtain ⟨hl, hidle⟩ := hb.fdWakeSelected_idle (·.fd == fd) .closed
          (List.Subset.refl (a.fdGenerationBump fd).fdWaiters)
        refine .inr ⟨_, hr, hb.fdWakeSelected (k := .close fd) (·.fd == fd) .closed
          (fun _ x hx => ⟨by simpa using hx, rfl, rfl⟩) (List.Subset.refl _), fun w hw ha => ?_⟩
        obtain ⟨hrec, hpick⟩ := hidle w ha
        have hmem : w ∈ (a.fdGenerationBump fd).fdWaiters := hl ▸ hw
        have hne := hpick hmem
        change ((Rt.fdWakeSelected _ _ _ _).fdw w).fd ≠ fd
        rw [hrec]
        simpa using hne
    · next rc a _ heq =>
        have hr := s.fdSetClosing_regenerates (P := fun _ => True) fd true
        rw [heq] at hr
        exact .inl ⟨by simp, hr⟩

/-! ## Waiters at one descriptor wait for different events -/

/-- The waiters of `s'` are waiters of `s` that wait for the same events there, if they do
not wait any more. -/
theorem Exclusive.of_kept (h : s.Exclusive) (hl : s'.fdWaiters.Sublist s.fdWaiters)
    (hw : ∀ w ∈ s'.fdWaiters, (s'.fdw w).fd = (s.fdw w).fd ∧
      (s'.fdw w).events = (s.fdw w).events ∧
      (s'.fdWaiterReservesConflict w = true → s.fdWaiterReservesConflict w = true)) :
    s'.Exclusive := by
  refine ⟨h.nodup.sublist hl, fun w hmem => ?_, fun v hv w hmem hne hcv hcw hfd => ?_⟩
  · rw [(hw w hmem).2.1]
    exact h.valid w (hl.subset hmem)
  · obtain ⟨h1, h2, h3⟩ := hw v hv
    obtain ⟨k1, k2, k3⟩ := hw w hmem
    rw [h2, k2]
    rw [h1, k1] at hfd
    exact h.disjoint v (hl.subset hv) w (hl.subset hmem) hne (h3 hcv) (k3 hcw) hfd

theorem Exclusive.of_same (h : s.Exclusive) (hs : FdSame s s') : s'.Exclusive := by
  refine h.of_kept (hs.list ▸ .refl _) fun w hw => ?_
  rw [hs.list] at hw
  rw [fdWaiterReservesConflict, fdWaiterReservesConflict, hs.record w hw]
  exact ⟨rfl, rfl, id⟩

theorem Exclusive.drift (h : s.Exclusive) (hd : Drift s s') : s'.Exclusive := by
  cases hd with
  | same hs => exact h.of_same hs
  | insert g => exact h.of_kept (.refl _) fun _ _ => ⟨rfl, rfl, id⟩
  | wake w hw ha =>
      refine h.of_kept (.refl _) fun v hv => ?_
      by_cases hvw : v = w
      · subst hvw
        simp [reserve, fdWaiterReservesConflict, ha]
      · simp [reserve, fdWaiterReservesConflict, hvw]
  | unlink w => exact h.of_kept List.erase_sublist fun _ _ => ⟨rfl, rfl, id⟩

theorem Exclusive.drifts (h : s.Exclusive) (hd : Drifts s s') : s'.Exclusive := by
  induction hd with
  | refl => exact h
  | tail _ hd ih => exact ih.drift hd

theorem Exclusive.regen (h : s.Exclusive) (hr : Regen s s') : s'.Exclusive := by
  obtain ⟨gens, tape, rfl⟩ := hr
  exact h.of_kept (.refl _) fun _ _ => ⟨rfl, rfl, id⟩

/-- A waiter without conflicts is linked. -/
theorem Exclusive.link (h : s.Exclusive) {x : FdWaiter} (hfresh : w ∉ s.fdWaiters)
    (hl : s'.fdWaiters = w :: s.fdWaiters) (hr : ∀ v ∈ s.fdWaiters, s'.fdw v = s.fdw v)
    (hx : s'.fdw w = x) (hv : fdValidateEvents x.events = true)
    (hc : s.fdWaiterConflicts x.fd x.events = false) : s'.Exclusive := by
  have hnew : ∀ v ∈ s.fdWaiters, s'.fdWaiterReservesConflict v = true → (s.fdw v).fd = x.fd →
      (s.fdw v).events &&& x.events = 0 := fun v hv hcv hfd => by
    have := List.any_eq_false.mp hc v hv
    rw [fdWaiterReservesConflict, hr v hv, ← fdWaiterReservesConflict] at hcv
    simpa [hcv, hfd] using this
  refine ⟨?_, fun v hmem => ?_, fun u hu v hmem hne hcu hcv hfd => ?_⟩
  · rw [hl]
    exact List.nodup_cons.mpr ⟨hfresh, h.nodup⟩
  · rw [hl] at hmem
    rcases List.mem_cons.mp hmem with rfl | hmem
    · rwa [hx]
    · rw [hr v hmem]
      exact h.valid v hmem
  · rw [hl] at hu hmem
    rcases List.mem_cons.mp hu with heq | hu' <;> rcases List.mem_cons.mp hmem with heq' | hv'
    · exact absurd (heq.trans heq'.symm) hne
    · rw [heq, hx, hr v hv'] at hfd ⊢
      rw [Nat.and_comm]
      exact hnew v hv' hcv hfd.symm
    · rw [heq', hx, hr u hu'] at hfd ⊢
      exact hnew u hu' hcu hfd
    · rw [hr u hu', hr v hv'] at hfd ⊢
      rw [fdWaiterReservesConflict, hr u hu', ← fdWaiterReservesConflict] at hcu
      rw [fdWaiterReservesConflict, hr v hv', ← fdWaiterReservesConflict] at hcv
      exact h.disjoint u hu' v hv' hne hcu hcv hfd

/-! ## All of it -/

/-- The waiters and the table are in order. -/
structure Orderly (s : Rt) : Prop where
  exclusive : s.Exclusive
  unique : Unique s.fdGenerations
  upToDate : s.UpToDateOn fun _ => True

theorem Orderly.of_same (h : s.Orderly) (hs : FdSame s s') : s'.Orderly :=
  ⟨h.exclusive.of_same hs, hs.generations ▸ h.unique, h.upToDate.of_same hs⟩

theorem Orderly.congr (h : s.Orderly) (hl : s'.fdWaiters = s.fdWaiters)
    (hr : ∀ w ∈ s.fdWaiters, s'.fdw w = s.fdw w) (hg : s'.fdGenerations = s.fdGenerations) :
    s'.Orderly := by
  have h' : { s with interest := s'.interest, ioBackendKind := s'.ioBackendKind }.Orderly :=
    ⟨⟨h.exclusive.nodup, h.exclusive.valid, h.exclusive.disjoint⟩, h.unique, h.upToDate⟩
  exact h'.of_same ⟨rfl, hl, hr, hg, rfl⟩

theorem Unique.drifts (h : Unique s.fdGenerations) (hd : Drifts s s') :
    Unique s'.fdGenerations := by
  induction hd with
  | refl => exact h
  | tail _ hd ih =>
      cases hd with
      | same hs => exact hs.generations ▸ ih
      | insert g hg => exact ih.cons hg
      | wake | unlink => exact ih

theorem Orderly.drifts (h : s.Orderly) (hd : Drifts s s') : s'.Orderly :=
  ⟨h.exclusive.drifts hd, Unique.drifts h.unique hd, h.upToDate.drifts hd⟩

theorem Orderly.of_nil (hl : s.fdWaiters = []) (hg : s.fdGenerations = []) : s.Orderly :=
  ⟨⟨by simp [hl], by simp [hl], by simp [hl]⟩, by simp [Unique, hg], by simp [UpToDateOn, hl]⟩

theorem Orderly.regenerates (h : s.Orderly) (hr : Regenerates (fun _ => True) s s') : s'.Orderly :=
  ⟨h.exclusive.regen hr.regen, hr.unique h.unique, h.upToDate.regenerates hr⟩

/-- An entry is removed only when nobody waits. -/
theorem Orderly.fdRelease (h : s.Orderly) (fd : Nat) : ((s.fdRelease fd).2.2).Orderly := by
  have hr := s.fdRelease_regenerates fd
  refine ⟨h.exclusive.regen hr.regen, hr.unique h.unique, ?_⟩
  by_cases hc : (s.fdIsClosing fd || s.fdWaiterConflicts fd (fdRead ||| fdWrite)) = true
  · have heq : (s.fdRelease fd).2.2 = s := by simp only [Rt.fdRelease, if_pos hc]
    rw [heq]
    exact h.upToDate
  · refine ((h.upToDate.mono (fun _ _ => trivial)).regenerates hr).all fun w hw ha => ?_
    obtain ⟨gens, tape, heq⟩ := hr.regen
    rw [heq] at hw ha ⊢
    rintro rfl
    have hc : s.fdWaiterConflicts (s.fdw w).fd (fdRead ||| fdWrite) = false := by
      simp only [Bool.or_eq_true, not_or, Bool.not_eq_true] at hc
      exact hc.2
    have := List.any_eq_false.mp hc w hw
    have ha : (s.fdw w).state = .active := ha
    simp only [fdWaiterReservesConflict, ha, beq_self_eq_true, Bool.true_or, Bool.true_and,
      bne_iff_ne, ne_eq, Decidable.not_not] at this
    rcases valid_cases (h.exclusive.valid w hw) with he | he | he <;>
      simp [he, fdRead, fdWrite] at this

theorem Orderly.fdCloseBegin (h : s.Orderly) (hinv : s.Inv) (fd : Nat) :
    ((s.fdCloseBegin fd).2).Orderly := by
  rcases hinv.fdCloseBegin_cases fd with ⟨-, hr⟩ | ⟨a, hr, hm, hidle⟩
  · exact h.regenerates hr
  · have hd := FdShifts.drifts hm
    exact ⟨(h.exclusive.regen hr.regen).drifts hd, Unique.drifts (hr.unique h.unique) hd,
      (((h.upToDate.mono (fun _ _ => trivial)).regenerates hr).drifts hd).all hidle⟩

theorem Orderly.op {does : Op → Prop} (h : s.Orderly) (hinv : s.Inv) (ho : FdOp does s s') :
    s'.Orderly := by
  cases ho with
  | tape tape => exact h.regenerates (.tape s tape)
  | adopt fd flags => exact h.regenerates (s.fdAdopt_regenerates fd flags)
  | release fd => exact h.fdRelease fd
  | close fd => exact h.fdCloseBegin hinv fd
  | unmark fd => exact h.regenerates (s.fdSetClosing_regenerates fd false)
  | forget fd => exact h.congr rfl (fun _ _ => rfl) rfl

/-- The table once its entry for `fd` has been looked up. -/
theorem Orderly.current (h : s.Orderly) {gen : Nat} {gens : List FdGeneration} {tape : List Bool}
    (hcur : Current { s with tape := tape } fd gen gens) :
    { s with fdGenerations := gens, tape := tape }.Orderly :=
  (h.regenerates (.tape s tape)).regenerates (hcur.regenerates tape)

theorem Orderly.refused {inst : Option Nat} {events : Nat} {rc : Rc} (h : s.Orderly)
    (hfresh : s.nextAddr ∉ s.fdWaiters) (hw : FdWaits s t fd events inst (.ret rc) s') :
    s'.Orderly := by
  cases hw with
  | answered _ tape => exact h.regenerates (.tape s tape)
  | refused _ gen gens interest filters tape _ hcur =>
      exact (h.current hcur).congr rfl
        (fun v hv => Function.update_of_ne (ne_of_mem_of_not_mem hv hfresh) _ _) rfl

/-- The entry that a lookup has found or made is the current one. -/
theorem Current.generationIn_eq {gen : Nat} {gens : List FdGeneration} (hcur : Current s fd gen gens)
    (hfed : s.fdGenerationFind fd = none → s.tape.head? ≠ some false) :
    generationIn gens fd = some gen := by
  cases hcur with
  | found g hg =>
      rw [generationIn, ← fdGenerationFind, hg]
      rfl
  | failed hg hf => exact absurd hf (hfed hg)
  | entered => simp [generationIn]

/-- A waiter that was filled with the current generation is linked. -/
theorem Orderly.parked {inst : Option Nat} {events : Nat} (h : s.Orderly)
    (hfresh : s.nextAddr ∉ s.fdWaiters) (hv : fdValidateEvents events = true)
    (hfed : s.fdGenerationFind fd = none → s.tape.tail.head? ≠ some false)
    (hw : FdWaits s t fd events inst .park s') : s'.Orderly := by
  cases hw with
  | parked gen gens tape timers wakeNs hcur _ hconf =>
      have hc := h.current hcur
      have hrec : ∀ v ∈ s.fdWaiters, Function.update s.fdw s.nextAddr
          { waiterFor t fd events gen inst with task := t, state := .active } v = s.fdw v :=
        fun v hv => Function.update_of_ne (ne_of_mem_of_not_mem hv hfresh) _ _
      refine ⟨h.exclusive.link hfresh rfl hrec (Function.update_self ..) hv hconf, hc.unique,
        fun v hmem ha _ => ?_⟩
      rcases List.mem_cons.mp hmem with heq | hv'
      · subst heq
        simp only [Rt.parkFd, Function.update_self]
        exact hcur.generationIn_eq hfed
      · simp only [Rt.parkFd, hrec v hv'] at ha ⊢
        exact hc.upToDate v hv' ha trivial

end Rt

namespace Sys

variable {s s' : Sys}

/-- No `mt_fd_wait` finds the allocator without memory for a generation entry. -/
def Fed (s : Sys) : Act → Prop
  | .cont a env =>
    match (s.pc a.agent).waitsFor with
    | some (fd, _) => (s.rt.fdGenerationFind fd).isNone = true → env.tape.tail.head? ≠ some false
    | none => True
  | _ => True

instance (s : Sys) (act : Act) : Decidable (s.Fed act) := by
  induction act using Act.casesOn with
  | cont a env =>
      dsimp only [Fed]
      generalize (s.pc a.agent).waitsFor = request
      induction request using Option.casesOn with
      | none => exact instDecidableTrue
      | some request => exact inferInstanceAs (Decidable (_ → _))
  | _ => exact instDecidableTrue

theorem Pc.waitsFor_valid {p : Pc} {fd events : Nat} (h : p.waitsFor = some (fd, events)) :
    fdValidateEvents events = true := by
  unfold Pc.waitsFor at h
  split at h
  · split at h
    · next hv =>
        cases h
        exact hv
    · cases h
  · next op =>
      cases h
      unfold IoOp.events fdRead fdWrite
      split <;> decide
  · cases h

/-- In every run in which the generation entries of waiters are made, the waiters and the
table are in order. -/
theorem orderly_of_reach (h : machine.Reach (Under Fed) s) : s.rt.Orderly := by
  -- nobody waits before the first run, so `mt_init` cannot lose an entry that matters
  refine watch_invariant (C := fun s act => (∃ w, s.workers w ≠ .off) → s.Fed act)
    (fun r r' hs ho => ho.of_same hs) (fun r hl hg _ => .of_nil hl hg)
    (fun s s₀ a hok hp hc => ?_) (fun s act r hok hc ho hw => ?_)
    (h.mono fun s act hc => ⟨hc.1, fun _ => hc.2⟩)
  · rcases hp.cases hok with ⟨tape, rfl⟩ | ⟨hinit, -, rt, hb, rfl⟩
    · exact hc
    · rintro ⟨w, hw⟩
      have hrun := (hok.run.bound w hw).2
      simp [(hok.off hinit).2] at hrun
  · have hfresh := hok.rest.inv.fd_fresh
    cases hw with
    | drifts hd _ => exact ho.drifts hd
    | op a env _ h1 hs _ => exact (ho.op hok.rest.inv h1).of_same hs
    | refuse w t env fd events inst rc _ _ _ hw hs => exact (ho.refused hfresh hw).of_same hs
    | park w t env fd events inst hact hrun htape hp hw hs =>
        refine (ho.parked hfresh (Pc.waitsFor_valid hp) (fun hnone => ?_) hw).of_same hs
        have hfed := hc ⟨w, by simp [hrun]⟩
        subst hact
        simp only [Fed, Actor.agent, hp] at hfed
        rw [htape]
        exact hfed (by simp [hnone])
    | osClose a fd _ hs => exact ho.congr hs.list hs.record hs.generations
    | reset hl hg _ => exact .of_nil hl hg

end Sys

namespace Rt

variable {s : Rt}

/-- An outdated waiter is never found. -/
theorem UpToDateOn.fdFindWaiter_eq (h : s.UpToDateOn fun _ => True) (fd ready : Nat) :
    s.fdFindWaiter fd ready = ((s.activeOn fd).find? (s.Concerns ready), s) := by
  rw [find?_activeOn]
  unfold fdFindWaiter
  cases hfind : s.fdWaiters.find? fun w =>
      s.fdWaiterIsActive w && (s.fdw w).fd == fd && ((s.fdw w).events &&& ready) != 0 with
  | none => rfl
  | some w =>
      have hp := List.find?_some hfind
      simp only [Bool.and_eq_true, fdWaiterIsActive, beq_iff_eq] at hp
      have hgen := h w (List.mem_of_find?_eq_some hfind) hp.1.1 trivial
      rw [hp.1.2] at hgen
      obtain ⟨g, hg, hgw⟩ := Option.map_eq_some_iff.mp hgen
      have hcur : s.fdGenerationCurrent fd = (g.generation, s) := by
        unfold fdGenerationCurrent fdGenerationFind
        rw [hg]
      simp only [hcur, hgw, if_true]

/-- Two waiters at one descriptor that have a direction in common are the same. -/
theorem Exclusive.eq_of_common (h : s.Exclusive) {v w : FdWaiterId} {bit : Nat}
    (hbit : bit = fdRead ∨ bit = fdWrite) (hv : v ∈ s.fdWaiters) (hw : w ∈ s.fdWaiters)
    (hsv : (s.fdw v).state ≠ .removed) (hsw : (s.fdw w).state ≠ .removed)
    (hfd : (s.fdw v).fd = (s.fdw w).fd) (hbv : (s.fdw v).events &&& bit ≠ 0)
    (hbw : (s.fdw w).events &&& bit ≠ 0) : v = w := by
  have hreserves : ∀ u, (s.fdw u).state ≠ .removed → s.fdWaiterReservesConflict u = true := by
    intro u hu
    unfold fdWaiterReservesConflict
    cases hs : (s.fdw u).state with
    | removed => exact absurd hs hu
    | active | readyReserved => rfl
  by_contra hne
  have hdisj := h.disjoint v hv w hw hne (hreserves v hsv) (hreserves w hsw) hfd
  rcases valid_cases (h.valid v hv) with h1 | h1 | h1 <;>
    rcases valid_cases (h.valid w hw) with h2 | h2 | h2 <;> rcases hbit with rfl | rfl <;>
    simp [h1, h2, fdRead, fdWrite] at hdisj hbv hbw

end Rt

/-- In every run in which the generation entries of waiters are made, and so in every state
with the lock free, a descriptor has at most one active or reserved waiter for each
direction, every linked waiter is the waiter of a registered task, a descriptor has at most
one generation entry, and every active waiter is of the current generation of its
descriptor, so that looking for a waiter never finds an outdated one. -/
theorem fd_waiters_exclusive {s : Sys} (h : machine.Reach (Sys.Under Sys.Fed) s) :
    (∀ fd bit, bit = fdRead ∨ bit = fdWrite → ∀ v ∈ s.rt.fdWaiters, ∀ w ∈ s.rt.fdWaiters,
      (s.rt.fdw v).state ≠ .removed → (s.rt.fdw w).state ≠ .removed →
      (s.rt.fdw v).fd = fd → (s.rt.fdw w).fd = fd → (s.rt.fdw v).events &&& bit ≠ 0 →
      (s.rt.fdw w).events &&& bit ≠ 0 → v = w) ∧
    s.rt.fdWaiters.Nodup ∧
    (∀ w ∈ s.rt.fdWaiters, (s.rt.fdw w).task ∈ s.rt.allTasks ∧
      (s.rt.task (s.rt.fdw w).task).fdWaiter = some w) ∧
    (s.rt.fdGenerations.map (·.fd)).Nodup ∧
    (∀ w ∈ s.rt.fdWaiters, (s.rt.fdw w).state = .active →
      ∃ g, s.rt.fdGenerationFind (s.rt.fdw w).fd = some g ∧ g.generation = (s.rt.fdw w).generation) ∧
    ∀ fd ready, (s.rt.fdFindWaiter fd ready).2 = s.rt := by
  have ho := Sys.orderly_of_reach h
  have hinv := (Sys.ok_of_under h).rest.inv
  refine ⟨fun fd bit hbit v hv w hw hsv hsw hfv hfw hbv hbw => ?_, ho.exclusive.nodup, fun w hw => ?_,
    ho.unique, fun w hw ha => ?_, fun fd ready =>
      congrArg Prod.snd (ho.upToDate.fdFindWaiter_eq fd ready)⟩
  · exact ho.exclusive.eq_of_common hbit hv hw hsv hsw (hfv.trans hfw.symm) hbv hbw
  · obtain ⟨h1, h2, -, -⟩ := hinv.fd.owner w hw
    exact ⟨h1, h2⟩
  · exact Option.map_eq_some_iff.mp (ho.upToDate w hw ha trivial)

/-- A reader and a writer wait at one descriptor. -/
theorem fd_waiters_exclusive_duplex : ∃ s, machine.Reach (Sys.Under Sys.Fed) s ∧
    s.rt.fdWaiters.length = 2 ∧ ∀ fd ready, (s.rt.fdFindWaiter fd ready).2 = s.rt := by
  obtain ⟨s, hs, hp⟩ := reach_of_trace_under Sys.Fed .epoll duplexTrace
    (fun s => s.rt.fdWaiters.length == 2) (by decide +kernel)
  exact ⟨s, hs, by simpa using hp, (fd_waiters_exclusive hs).2.2.2.2.2⟩

end Microthread
