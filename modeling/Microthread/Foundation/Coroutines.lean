import Microthread.Foundation.Machine
import Microthread.Foundation.Saving

/-!
# Contexts that take turns on processors

A `Control` is a machine that says which context is on which processor. `Control.cores` runs
it with the registers of the processors and the memory: where a step of the control puts one
context in another's place, the processor executes the code of the switch, and between the
steps of the control everything may be computed that leaves the suspended contexts alone. In
every run the registers with which a suspended context comes back are those that its record
held when it was suspended, on whichever processor that happens.
-/

namespace Foundation

/-- Code that switches contexts, and code that prepares one. -/
structure Switcher (R : Type) [DecidableEq R] extends Saving R where
  /-- the registers that the code uses itself -/
  scratch : List R
  /-- called with two records and a return address -/
  run : Word → Word → Word → Core R → ByteMemory → Core R × ByteMemory
  scratch_free : ∀ r ∈ scratch, ∀ o, (r, o) ∉ slots
  run_mem : ∀ src dst ret c m, (run src dst ret c m).2 = (toSaving.leave src ret c m).2
  run_pc : ∀ src dst ret c m, (run src dst ret c m).1.pc =
    (toSaving.enter dst (toSaving.leave src ret c m).2 (toSaving.leave src ret c m).1).pc
  run_reg : ∀ src dst ret c m, ∀ r ∉ scratch, (run src dst ret c m).1.reg r =
    (toSaving.enter dst (toSaving.leave src ret c m).2 (toSaving.leave src ret c m).1).reg r

/-- Where a context is kept, and the argument that it starts with. -/
structure Place where
  record : Word
  stack : Extent
  arg : Word

namespace Saving

variable {R : Type} (f : Saving R)

/-- The bytes of a place. -/
def Owns (p : Place) (x : Word) : Prop := (f.record p.record).Has x ∨ p.stack.Has x

/-- A place that a context can be made in; neither address is null. -/
structure Fine (minStack : Nat) (p : Place) : Prop where
  record_ne : p.record ≠ 0
  stack_ne : p.stack.base ≠ 0
  apart : (f.record p.record).Apart p.stack
  size : minStack ≤ p.stack.size
  bound : p.stack.base.toNat + p.stack.size < 2 ^ 64

end Saving

/-- A switcher, and code that makes a context. -/
structure Maker (R : Type) [DecidableEq R] extends Switcher R where
  minStack : Nat
  make : Place → ByteMemory → ByteMemory
  make_of_outside : ∀ p m x, toSaving.Fine minStack p → ¬toSaving.Owns p x → make p m x = m x
  make_foot : ∀ p m x, toSaving.Fine minStack p → toSaving.Foot p.record (make p m) x →
    toSaving.Owns p x

/-- A machine that moves contexts `C` between processors `V`. -/
structure Control (σ α V C : Type) extends Machine σ α where
  on : σ → V → Option C
  live : σ → C → Bool
  /-- the contexts that a step makes -/
  born : σ → σ → List C
  /-- the processor that an action may switch on -/
  acting : α → Option V

namespace Control

variable {σ α V C : Type} (K : Control σ α V C)

/-- A live context on no processor. -/
def Suspended (s : σ) (c : C) : Prop := K.live s c = true ∧ ∀ v, K.on s v ≠ some c

/-- What a control must keep to. A processor takes up a live context that is on none, in
place of another, and its action says so. A context that is left or on no processor stays
live, or it is gone for good. -/
structure Lawful (ok : σ → α → Prop) (gone : σ → C → Prop) : Prop where
  init : ∀ s, K.init s → ∀ c, K.live s c = false
  live : ∀ s, K.Reach ok s → ∀ v c, K.on s v = some c → K.live s c = true
  acts : ∀ s a t, K.Reach ok s → ok s a → K.step s a = some t → ∀ v c d,
    K.on s v = some c → K.on t v = some d → c ≠ d → K.acting a = some v
  enters : ∀ s a t, K.Reach ok s → ok s a → K.step s a = some t → ∀ v c, K.Suspended s c →
    K.on t v = some c → ∃ d, K.on s v = some d
  leaves : ∀ s a t, K.Reach ok s → ok s a → K.step s a = some t → ∀ v c d,
    K.on s v = some c → K.on t v = some d → c ≠ d → K.live t c = true ∨ gone t c
  lasts : ∀ s a t, K.Reach ok s → ok s a → K.step s a = some t → ∀ c, K.Suspended s c →
    K.live t c = true ∨ gone t c
  stays : ∀ s a t, K.Reach ok s → ok s a → K.step s a = some t → ∀ c, gone s c → gone t c
  away : ∀ s, K.Reach ok s → ∀ v c, gone s c → K.on s v ≠ some c
  born : ∀ s a t, K.Reach ok s → ok s a → K.step s a = some t → ∀ c ∈ K.born s t,
    K.live s c = false ∧ K.live t c = true

end Control

/-- The control with the processors and the memory. -/
structure Cores (σ V C R : Type) where
  control : σ
  core : V → Core R
  mem : ByteMemory
  place : C → Place

/-- A step of the control, with the return address of a switch and the places of new
contexts, or a computation on the processors. -/
inductive CoresAct (α V C R : Type) where
  | control (a : α) (ret : Word) (place : C → Place)
  | compute (core : V → Core R) (mem : ByteMemory)

section Cores

variable {σ α V C R : Type} (K : Control σ α V C)

namespace Cores

variable (s : Cores σ V C R)

/-- The places after a step; those of live contexts stay. -/
def places (place : C → Place) (c : C) : Place :=
  if K.live s.control c then s.place c else place c

variable {K s} {place : C → Place} {c : C}

theorem places_live (h : K.live s.control c = true) : s.places K place c = s.place c := if_pos h

theorem places_new (h : K.live s.control c = false) : s.places K place c = place c :=
  if_neg (by simp [h])

end Cores

variable [DecidableEq R] (M : Maker R)

namespace Maker

variable {M : Maker R} {x : Word} {p : C → Place} {l : List C} {m : ByteMemory} {c : C}

theorem makes_of_outside (h : ∀ c ∈ l, M.Fine M.minStack (p c) ∧ ¬M.Owns (p c) x) :
    l.foldl (fun m c => M.make (p c) m) m x = m x := by
  induction l generalizing m with
  | nil => rfl
  | cons c l ih =>
      obtain ⟨hfine, howns⟩ := h c List.mem_cons_self
      have hrest := ih (m := M.make (p c) m) fun d hd => h d (List.mem_cons_of_mem _ hd)
      exact hrest.trans (M.make_of_outside _ _ _ hfine howns)

/-- Of several contexts that are made in separate places each is as if made alone. -/
theorem makes_one (hc : c ∈ l) (h : ∀ d ∈ l, M.Fine M.minStack (p d) ∧
    (d ≠ c → ∀ x, M.Owns (p c) x → ¬M.Owns (p d) x)) : ∃ m', ∀ x, M.Owns (p c) x →
      l.foldl (fun m c => M.make (p c) m) m x = M.make (p c) m' x := by
  induction l generalizing m with
  | nil => cases hc
  | cons b l ih =>
      have hl := fun d hd => h d (List.mem_cons_of_mem b hd)
      by_cases hmem : c ∈ l
      · exact ih hmem hl
      · obtain rfl : c = b := (List.mem_cons.mp hc).resolve_right hmem
        refine ⟨m, fun x hx => makes_of_outside (l := l) (m := M.make (p c) m) fun d hd => ?_⟩
        have hne : d ≠ c := fun heq => hmem (heq ▸ hd)
        exact ⟨(hl d hd).1, (hl d hd).2 hne x hx⟩

end Maker

namespace Cores

variable (s : Cores σ V C R)

/-- The contexts that a step to `t` makes are prepared. -/
def prepare (place : C → Place) (t : σ) : ByteMemory :=
  (K.born s.control t).foldl (fun m c => M.make (s.places K place c) m) s.mem

/-- The bytes that a context needs to be entered. -/
def Foot (c : C) : Word → Prop := M.Foot (s.place c).record s.mem

/-- The memory that a run may rely on. New places are fine and overlap no others, a context
that is left has room for the return address, and no computation writes what a suspended
context needs. -/
def Obeys (ok : σ → α → Prop) (s : Cores σ V C R) : CoresAct α V C R → Prop
  | .control a _ place => ok s.control a ∧ ∀ t, K.step s.control a = some t →
      (∀ c, K.live s.control c = false → K.live t c = true → M.Fine M.minStack (place c) ∧
        ∀ d, d ≠ c → K.live s.control d = true ∨ K.live t d = true → ∀ x,
          M.Owns (place c) x → ¬M.Owns (s.places K place d) x) ∧
      ∀ v c d, K.on s.control v = some c → K.on t v = some d → c ≠ d → M.link = none →
        ∀ x, (wordAt ((s.core v).reg M.sp - 8)).Has x → (s.place c).stack.Has x
  | .compute _ mem => ∀ c, K.Suspended s.control c → ∀ x, s.Foot M c x → mem x = s.mem x

variable [DecidableEq V] [DecidableEq C]

/-- The processor that the action is about switches, if its context changes. -/
def switch (a : α) (ret : Word) (place : C → Place) (t : σ) : Cores σ V C R :=
  let m := s.prepare K M place t
  let p := s.places K place
  let still : Cores σ V C R := ⟨t, s.core, m, p⟩
  match K.acting a with
  | none => still
  | some v =>
    match K.on s.control v, K.on t v with
    | some c, some d =>
      if c = d then still
      else
        let r := M.run (p c).record (p d).record ret (s.core v) m
        ⟨t, Function.update s.core v r.1, r.2, p⟩
    | _, _ => still

def step : CoresAct α V C R → Option (Cores σ V C R)
  | .control a ret place => (K.step s.control a).map fun t => s.switch K M a ret place t
  | .compute core mem => some { s with core := core, mem := mem }

end Cores

variable [DecidableEq V] [DecidableEq C]

/-- The control run together with the processors. -/
def Control.cores : Machine (Cores σ V C R) (CoresAct α V C R) where
  init s := K.init s.control
  step s := s.step K M

namespace Cores

variable {K M} {ok : σ → α → Prop} {gone : σ → C → Prop} {s s' s₁ s₂ : Cores σ V C R} {t : σ}
  {a : α} {ret x : Word} {place : C → Place} {v : V} {c d : C}

/-- The contexts that are live at one time have fine places that do not overlap. -/
structure Spread (K : Control σ α V C) (M : Maker R) (s : Cores σ V C R) : Prop where
  fine : ∀ c, K.live s.control c = true → M.Fine M.minStack (s.place c)
  apart : ∀ c d, c ≠ d → K.live s.control c = true → K.live s.control d = true →
    ∀ x, M.Owns (s.place c) x → ¬M.Owns (s.place d) x

theorem switch_control : (s.switch K M a ret place t).control = t := by
  unfold switch
  split
  · rfl
  · split
    · split <;> rfl
    · rfl

theorem switch_place : (s.switch K M a ret place t).place = s.places K place := by
  unfold switch
  split
  · rfl
  · split
    · split <;> rfl
    · rfl

/-- A processor on which the context changes executes the switch. -/
theorem switch_eq (ha : K.acting a = some v) (hc : K.on s.control v = some c)
    (hd : K.on t v = some d) (hne : c ≠ d) : s.switch K M a ret place t =
      let r := M.run (s.places K place c).record (s.places K place d).record ret (s.core v)
        (s.prepare K M place t)
      ⟨t, Function.update s.core v r.1, r.2, s.places K place⟩ := by
  simp only [switch, ha, hc, hd, if_neg hne]

theorem switch_mem (s : Cores σ V C R) (a : α) (ret : Word) (place : C → Place) (t : σ) :
    (s.switch K M a ret place t).mem = s.prepare K M place t ∨
    ∃ v c d, K.on s.control v = some c ∧ K.on t v = some d ∧ c ≠ d ∧
      (s.switch K M a ret place t).mem = (M.leave (s.places K place c).record ret (s.core v)
        (s.prepare K M place t)).2 := by
  cases ha : K.acting a with
  | none => exact .inl (by simp only [switch, ha])
  | some v =>
      cases hc : K.on s.control v with
      | none => exact .inl (by simp only [switch, ha, hc])
      | some c =>
          cases hd : K.on t v with
          | none => exact .inl (by simp only [switch, ha, hc, hd])
          | some d =>
              by_cases hne : c = d
              · exact .inl (by simp only [switch, ha, hc, hd, if_pos hne])
              · refine .inr ⟨v, c, d, hc, hd, hne, ?_⟩
                rw [switch_eq ha hc hd hne]
                exact M.run_mem ..

theorem reach_control (h : (K.cores M).Reach (Obeys K M ok) s) : K.Reach ok s.control := by
  induction h with
  | init hi => exact .init hi
  | @step s act t _ hok hs ih =>
      cases act with
      | compute core mem =>
          cases hs
          exact ih
      | control a ret place =>
          obtain ⟨u, hu, rfl⟩ := Option.map_eq_some_iff.mp hs
          rw [switch_control]
          exact .step ih hok.1 hu

theorem spread_of_reach (hlaw : K.Lawful ok gone) (h : (K.cores M).Reach (Obeys K M ok) s) :
    s.Spread K M := by
  refine h.invariant (fun s hi => ?_) fun s act t hr ih hok hs => ?_
  · have hnone := hlaw.init s.control hi
    exact ⟨fun c hc => by simp [hnone] at hc, fun c _ _ hc => by simp [hnone] at hc⟩
  · cases act with
    | compute core mem =>
        cases hs
        exact ⟨ih.fine, ih.apart⟩
    | control a ret place =>
        obtain ⟨u, hu, rfl⟩ := Option.map_eq_some_iff.mp hs
        obtain ⟨-, hplaces⟩ := hok
        have hnew := (hplaces u hu).1
        constructor
        · intro c hc
          rw [switch_control] at hc
          rw [switch_place]
          cases hold : K.live s.control c with
          | true =>
              rw [places_live hold]
              exact ih.fine c hold
          | false =>
              rw [places_new hold]
              exact (hnew c hold hc).1
        · intro c d hne hc hd x hx hxd
          rw [switch_control] at hc hd
          rw [switch_place] at hx hxd
          cases hold : K.live s.control c with
          | true =>
              cases hold' : K.live s.control d with
              | true =>
                  rw [places_live hold] at hx
                  rw [places_live hold'] at hxd
                  exact ih.apart c d hne hold hold' x hx hxd
              | false =>
                  rw [places_new hold'] at hxd
                  exact (hnew d hold' hd).2 c hne (.inr hc) x hxd hx
          | false =>
              rw [places_new hold] at hx
              exact (hnew c hold hc).2 d (Ne.symm hne) (.inr hd) x hx hxd

/-- Apart from the contexts it makes, a step of the control writes only where contexts are
that it takes from their processors. -/
theorem switch_of_outside (hlaw : K.Lawful ok gone) (hr : (K.cores M).Reach (Obeys K M ok) s)
    (hok : Obeys K M ok s (.control a ret place)) (hu : K.step s.control a = some t)
    (hx : ∀ v d, K.on s.control v = some d → ¬M.Owns (s.place d) x) :
    (s.switch K M a ret place t).mem x = s.prepare K M place t x := by
  rcases switch_mem (K := K) (M := M) s a ret place t with heq | ⟨v, d, e, hd, he, hde, heq⟩
  · rw [heq]
  · have hlive := hlaw.live _ (reach_control hr) v d hd
    obtain ⟨hrec, hstack⟩ := not_or.mp (hx v d hd)
    rw [heq, places_live hlive]
    exact Saving.leave_of_outside hrec fun hl hxsp =>
      hstack ((hok.2 t hu).2 v d e hd he hde hl x hxsp)

/-- A step of the control changes no byte of a context that is suspended. -/
theorem step_keeps (hlaw : K.Lawful ok gone) (hr : (K.cores M).Reach (Obeys K M ok) s)
    (hok : Obeys K M ok s (.control a ret place)) (hu : K.step s.control a = some t)
    (hsus : K.Suspended s.control c) (hx : M.Owns (s.place c) x) :
    (s.switch K M a ret place t).mem x = s.mem x := by
  have hcontrol := reach_control hr
  have hspread := spread_of_reach hlaw hr
  refine (switch_of_outside hlaw hr hok hu fun v d hd => ?_).trans ?_
  · have hne : c ≠ d := fun hcd => hsus.2 v (hcd ▸ hd)
    exact hspread.apart c d hne hsus.1 (hlaw.live _ hcontrol v d hd) x hx
  · refine Maker.makes_of_outside fun b hb => ?_
    obtain ⟨hold, hb'⟩ := hlaw.born _ _ _ hcontrol hok.1 hu b hb
    have hne : c ≠ b := fun heq => by simp [← heq, hsus.1] at hold
    obtain ⟨hfine, hapart⟩ := (hok.2 t hu).1 b hold hb'
    rw [places_new hold]
    refine ⟨hfine, fun hxb => hapart c hne (.inl hsus.1) x hxb ?_⟩
    rwa [places_live hsus.1]

/-- A run in which a context is on no processor leaves it as it is, or it is gone. -/
theorem path_keeps (hlaw : K.Lawful ok gone) (hr : (K.cores M).Reach (Obeys K M ok) s₁)
    (hlive : K.live s₁.control c = true ∨ gone s₁.control c)
    (hfoot : ∀ x, s₁.Foot M c x → M.Owns (s₁.place c) x)
    (hp : (K.cores M).Path (fun s act => Obeys K M ok s act ∧ ∀ v, K.on s.control v ≠ some c)
      s₁ s₂) : gone s₂.control c ∨ (K.live s₂.control c = true ∧ s₂.place c = s₁.place c ∧
        ∀ x, s₁.Foot M c x → s₂.mem x = s₁.mem x) := by
  induction hp with
  | refl =>
      rcases hlive with hlive | hgone
      · exact .inr ⟨hlive, rfl, fun _ _ => rfl⟩
      · exact .inl hgone
  | @step s act t hp hok hs ih =>
      obtain ⟨hok, haway⟩ := hok
      have hrs := hr.path (hp.mono fun _ _ h => h.1)
      have hcontrol := reach_control hrs
      cases act with
      | compute core mem =>
          cases hs
          rcases ih with hgone | ⟨hlive, hplace, hmem⟩
          · exact .inl hgone
          · refine .inr ⟨hlive, hplace, fun x hx => ?_⟩
            have hx' : s.Foot M c x := by
              unfold Foot
              rw [hplace, Saving.foot_congr hmem]
              exact hx
            exact (hok c ⟨hlive, haway⟩ x hx').trans (hmem x hx)
      | control a ret place =>
          obtain ⟨u, hu, rfl⟩ := Option.map_eq_some_iff.mp hs
          rw [switch_control, switch_place]
          rcases ih with hgone | ⟨hlive, hplace, hmem⟩
          · exact .inl (hlaw.stays _ _ _ hcontrol hok.1 hu c hgone)
          · rcases hlaw.lasts _ _ _ hcontrol hok.1 hu c ⟨hlive, haway⟩ with hlive' | hgone
            · refine .inr ⟨hlive', (places_live hlive).trans hplace, fun x hx => ?_⟩
              have hx' : M.Owns (s.place c) x := hplace ▸ hfoot x hx
              exact (step_keeps hlaw hrs hok hu ⟨hlive, haway⟩ hx').trans (hmem x hx)
            · exact .inl hgone

/-- A context that comes back, on whichever processor, has the registers and the address that
its bytes gave when it was suspended. -/
theorem enters_kept {act : CoresAct α V C R} {s₃ : Cores σ V C R} (hlaw : K.Lawful ok gone)
    (hr : (K.cores M).Reach (Obeys K M ok) s₁)
    (hlive₁ : K.live s₁.control c = true ∨ gone s₁.control c)
    (hfoot : ∀ x, s₁.Foot M c x → M.Owns (s₁.place c) x)
    (hp : (K.cores M).Path (fun s act => Obeys K M ok s act ∧ ∀ v, K.on s.control v ≠ some c)
      s₁ s₂)
    (hok : Obeys K M ok s₂ act) (haway : ∀ v, K.on s₂.control v ≠ some c)
    (hs : (K.cores M).step s₂ act = some s₃) (hon : K.on s₃.control v = some c) :
    (s₃.core v).pc = (M.enter (s₁.place c).record s₁.mem (s₂.core v)).pc ∧
      ∀ r ∉ M.scratch, (s₃.core v).reg r =
        (M.enter (s₁.place c).record s₁.mem (s₂.core v)).reg r := by
  have hrs := hr.path (hp.mono fun _ _ h => h.1)
  have hcontrol := reach_control hrs
  cases act with
  | compute core mem =>
      cases hs
      exact absurd hon (haway v)
  | control a ret place =>
      obtain ⟨u, hu, rfl⟩ := Option.map_eq_some_iff.mp hs
      rw [switch_control] at hon
      rcases path_keeps hlaw hr hlive₁ hfoot hp with hgone | ⟨hlive, hplace, hmem⟩
      · have hgone' := hlaw.stays _ _ _ hcontrol hok.1 hu c hgone
        exact absurd hon (hlaw.away _ (.step hcontrol hok.1 hu) v c hgone')
      · obtain ⟨d, hd⟩ := hlaw.enters _ _ _ hcontrol hok.1 hu v c ⟨hlive, haway⟩ hon
        have hdc : d ≠ c := fun heq => haway v (heq ▸ hd)
        have hact := hlaw.acts _ _ _ hcontrol hok.1 hu v d c hd hon hdc
        -- the switch leaves the other context before it enters this one
        have hleft : ∀ x, s₁.Foot M c x → (M.leave (s₂.places K place d).record ret (s₂.core v)
            (s₂.prepare K M place u)).2 x = s₁.mem x := by
          intro x hx
          have hkeep : (s₂.switch K M a ret place u).mem x = s₂.mem x :=
            step_keeps hlaw hrs hok hu ⟨hlive, haway⟩ (hplace ▸ hfoot x hx)
          rw [switch_eq hact hd hon hdc] at hkeep
          rw [← M.run_mem]
          exact hkeep.trans (hmem x hx)
        have henter : M.enter (s₂.places K place c).record (M.leave (s₂.places K place d).record
            ret (s₂.core v) (s₂.prepare K M place u)).2 (M.leave (s₂.places K place d).record ret
            (s₂.core v) (s₂.prepare K M place u)).1 =
              M.enter (s₁.place c).record s₁.mem (s₂.core v) := by
          rw [places_live hlive, hplace]
          exact Saving.enter_congr hleft fun r hr => Saving.leave_reg hr
        rw [switch_eq hact hd hon hdc, ← henter]
        simp only [Function.update_self]
        exact ⟨M.run_pc .., fun r hr => M.run_reg _ _ _ _ _ r hr⟩

/-- A context that a processor leaves and that comes back, on whichever processor, continues
at the return address of its switch with the registers that it had there. The registers that
no record has are those of the context it takes over from. -/
theorem resumes {act : CoresAct α V C R} {s₀ s₃ : Cores σ V C R} {u : V}
    (hlaw : K.Lawful ok gone) (hr : (K.cores M).Reach (Obeys K M ok) s₀)
    (hok₀ : Obeys K M ok s₀ (.control a ret place))
    (hs₀ : (K.cores M).step s₀ (.control a ret place) = some s₁)
    (hc : K.on s₀.control u = some c) (hd : K.on s₁.control u = some d) (hne : c ≠ d)
    (hp : (K.cores M).Path (fun s act => Obeys K M ok s act ∧ ∀ v, K.on s.control v ≠ some c)
      s₁ s₂)
    (hok : Obeys K M ok s₂ act) (haway : ∀ v, K.on s₂.control v ≠ some c)
    (hs : (K.cores M).step s₂ act = some s₃) (hon : K.on s₃.control v = some c) :
    (s₃.core v).pc = ret ∧
      (∀ r, M.Restored r → (s₃.core v).reg r = (s₀.core u).reg r) ∧
      ∀ r ∉ M.scratch, (∀ o, (r, o) ∉ M.slots) → (s₃.core v).reg r = (s₂.core v).reg r := by
  have hcontrol := reach_control hr
  have hr₁ : (K.cores M).Reach (Obeys K M ok) s₁ := .step hr hok₀ hs₀
  obtain ⟨t, ht, rfl⟩ := Option.map_eq_some_iff.mp hs₀
  rw [switch_control] at hd
  have hlive := hlaw.live _ hcontrol u c hc
  have hact := hlaw.acts _ _ _ hcontrol hok₀.1 ht u c d hc hd hne
  have hkept := hlaw.leaves _ _ _ hcontrol hok₀.1 ht u c d hc hd hne
  have hroom := (hok₀.2 t ht).2 u c d hc hd hne
  have hfine := (spread_of_reach hlaw hr).fine c hlive
  rw [switch_eq hact hc hd hne, places_live hlive] at hp hr₁
  have henter := enters_kept hlaw hr₁ (by simpa using hkept) (fun x hx => ?_) hp hok haway hs hon
  · simp only [M.run_mem, places_live hlive] at henter
    obtain ⟨hpc, hreg⟩ := henter
    have hback := Saving.enter_leave (s₀.place c).record ret (s₀.core u) (s₀.prepare K M place t)
      (s₂.core v) fun hl x hx hxr => hfine.apart x hxr (hroom hl x hx)
    obtain ⟨hpc', hrestored, hother⟩ := hback
    refine ⟨hpc.trans hpc', fun r hr => ?_, fun r hscratch hr => ?_⟩
    · have hfree : r ∉ M.scratch := fun hscratch => by
        obtain ⟨⟨o, ho⟩, -⟩ := hr
        exact M.scratch_free r hscratch o ho
      exact (hreg r hfree).trans (hrestored r hr)
    · exact (hreg r hscratch).trans (hother r hr)
  · simp only [Foot, M.run_mem, places_live hlive] at hx ⊢
    rcases Saving.leave_foot hx with hx | ⟨hl, hx⟩
    · exact .inl hx
    · exact .inr (hroom hl x hx)

/-- A context that a step makes, when it is first entered, finds what its making has left. -/
theorem begins {act : CoresAct α V C R} {s₀ s₃ : Cores σ V C R} (hlaw : K.Lawful ok gone)
    (hr : (K.cores M).Reach (Obeys K M ok) s₀)
    (hok₀ : Obeys K M ok s₀ (.control a ret place))
    (hs₀ : (K.cores M).step s₀ (.control a ret place) = some s₁)
    (hc : c ∈ K.born s₀.control s₁.control)
    (hp : (K.cores M).Path (fun s act => Obeys K M ok s act ∧ ∀ v, K.on s.control v ≠ some c)
      s₁ s₂)
    (hok : Obeys K M ok s₂ act) (haway : ∀ v, K.on s₂.control v ≠ some c)
    (hs : (K.cores M).step s₂ act = some s₃) (hon : K.on s₃.control v = some c) :
    M.Fine M.minStack (place c) ∧ ∃ m,
      (s₃.core v).pc = (M.enter (place c).record (M.make (place c) m) (s₂.core v)).pc ∧
      ∀ r ∉ M.scratch, (s₃.core v).reg r =
        (M.enter (place c).record (M.make (place c) m) (s₂.core v)).reg r := by
  have hcontrol := reach_control hr
  have hr₁ : (K.cores M).Reach (Obeys K M ok) s₁ := .step hr hok₀ hs₀
  obtain ⟨t, ht, rfl⟩ := Option.map_eq_some_iff.mp hs₀
  rw [switch_control] at hc
  obtain ⟨hnot, hlive⟩ := hlaw.born _ _ _ hcontrol hok₀.1 ht c hc
  obtain ⟨hnew, hroom⟩ := hok₀.2 t ht
  obtain ⟨hfine, hapart⟩ := hnew c hnot hlive
  have hplace : (s₀.switch K M a ret place t).place c = place c := by
    rw [switch_place, places_new hnot]
  obtain ⟨m, hm⟩ := Maker.makes_one (M := M) (p := s₀.places K place) (m := s₀.mem) hc fun d hd => by
    obtain ⟨hnot', hlive'⟩ := hlaw.born _ _ _ hcontrol hok₀.1 ht d hd
    rw [places_new hnot, places_new hnot']
    refine ⟨(hnew d hnot' hlive').1, fun hne x hx hxd => ?_⟩
    refine hapart d hne (.inr hlive') x hx ?_
    rwa [places_new hnot']
  rw [places_new hnot] at hm
  have hmem : ∀ x, M.Owns (place c) x →
      (s₀.switch K M a ret place t).mem x = M.make (place c) m x := by
    intro x hx
    refine (switch_of_outside hlaw hr hok₀ ht fun v d hd => ?_).trans (hm x hx)
    have hdlive := hlaw.live _ hcontrol v d hd
    have hne : d ≠ c := fun heq => by simp [heq, hnot] at hdlive
    have hout := hapart d hne (.inl hdlive) x hx
    rwa [places_live hdlive] at hout
  have hmade : ∀ x, M.Foot (place c).record (M.make (place c) m) x →
      (s₀.switch K M a ret place t).mem x = M.make (place c) m x :=
    fun x hx => hmem x (M.make_foot _ m x hfine hx)
  have hfoot : ∀ x, (s₀.switch K M a ret place t).Foot M c x →
      M.Owns ((s₀.switch K M a ret place t).place c) x := by
    intro x hx
    unfold Foot at hx
    rw [hplace, Saving.foot_congr hmade] at hx
    rw [hplace]
    exact M.make_foot _ m x hfine hx
  have hlive₁ : K.live (s₀.switch K M a ret place t).control c = true := by
    rw [switch_control]
    exact hlive
  have henter := enters_kept hlaw hr₁ (.inl hlive₁) hfoot hp hok haway hs hon
  rw [hplace, Saving.enter_congr hmade fun _ _ => rfl] at henter
  exact ⟨hfine, m, henter⟩

end Cores

end Cores

end Foundation
