import Mathlib.Data.List.Nodup
import Mathlib.Logic.Function.Basic
import Microthread.Foundation.Words

/-!
# Saving and restoring a context

A context is a computation with a stack of its own. A switch leaves one context and enters
another: it saves registers in a record of the first and loads them from a record of the
second, and the return address of the call is saved with them, in a link register or in the
word at the stack pointer. `Saving` describes what is saved where. Whatever happens in
between, a context that is entered again finds what was saved when it was left, provided that
its record and its return address are still there.
-/

namespace Foundation

/-- The registers of a processor, and the address at which it executes. -/
structure Core (R : Type) where
  reg : R → Word
  pc : Word

/-- What a switch saves, and where. -/
structure Saving (R : Type) where
  sp : R
  /-- the register with the return address, or the word at `sp` has it -/
  link : Option R
  /-- the registers in a record, each with its offset -/
  slots : List (R × Nat)
  size : Nat
  order : slots.Pairwise fun p q => p.1 ≠ q.1 ∧ p.2 + 8 ≤ q.2
  inside : ∀ p ∈ slots, p.2 + 8 ≤ size
  size_lt : size < 2 ^ 64
  sp_slot : ∃ o, (sp, o) ∈ slots
  link_slot : ∀ l, link = some l → l ≠ sp ∧ ∃ o, (l, o) ∈ slots

namespace Saving

variable {R : Type} (f : Saving R)

/-- The registers of a core are stored in a record, slot by slot. -/
def store (rec : Word) (c : Core R) (slots : List (R × Nat)) (m : ByteMemory) : ByteMemory :=
  slots.foldl (fun m p => writeWord m (rec + BitVec.ofNat 64 p.2) (c.reg p.1)) m

def save (rec : Word) (c : Core R) (m : ByteMemory) : ByteMemory := store rec c f.slots m

/-- The record at an address. -/
def record (rec : Word) : Extent := ⟨rec, f.size⟩

section Store

variable {f} {rec x : Word} {m : ByteMemory} {c : Core R} {r : R} {o : Nat}

/-- The word of a slot lies in the record. -/
theorem slot_inside (h : (r, o) ∈ f.slots) (hx : (wordAt (rec + BitVec.ofNat 64 o)).Has x) :
    (f.record rec).Has x := by
  have hin := f.inside _ h
  have hsize := f.size_lt
  refine Extent.has_of_part (p := wordAt (rec + BitVec.ofNat 64 o)) ?_ hx
  have heq : rec + BitVec.ofNat 64 o - rec = BitVec.ofNat 64 o := by
    rw [BitVec.add_comm, BitVec.add_sub_cancel]
  simp only [wordAt, record, heq, BitVec.toNat_ofNat] at *
  omega

theorem words_apart {o o' : Nat} (ho : o + 8 ≤ o') (ho' : o' + 8 < 2 ^ 64) :
    (wordAt (rec + BitVec.ofNat 64 o)).Apart (wordAt (rec + BitVec.ofNat 64 o')) := by
  intro x hx hx'
  simp only [Extent.Has, wordAt] at hx hx'
  bv_omega

theorem readWord_writeWord_slot {o o' : Nat} (v : Word) (h : o + 8 ≤ o' ∨ o' + 8 ≤ o)
    (ho : o + 8 < 2 ^ 64) (ho' : o' + 8 < 2 ^ 64) :
    readWord (writeWord m (rec + BitVec.ofNat 64 o') v) (rec + BitVec.ofNat 64 o) =
      readWord m (rec + BitVec.ofNat 64 o) := by
  refine readWord_writeWord_of_apart v ?_
  rcases h with h | h
  · exact words_apart h ho'
  · exact (words_apart h ho).symm

theorem store_of_outside {slots : List (R × Nat)}
    (h : ∀ p ∈ slots, ¬(wordAt (rec + BitVec.ofNat 64 p.2)).Has x) :
    store rec c slots m x = m x := by
  induction slots generalizing m with
  | nil => rfl
  | cons p slots ih =>
      have hrest := ih (m := writeWord m (rec + BitVec.ofNat 64 p.2) (c.reg p.1))
        fun q hq => h q (List.mem_cons_of_mem _ hq)
      exact hrest.trans (writeWord_of_not_has _ (h p List.mem_cons_self))

theorem save_of_outside (h : ¬(f.record rec).Has x) : f.save rec c m x = m x :=
  store_of_outside fun _ hp hx => h (slot_inside hp hx)

theorem readWord_store {slots : List (R × Nat)}
    (horder : slots.Pairwise fun p q => p.1 ≠ q.1 ∧ p.2 + 8 ≤ q.2)
    (hin : ∀ p ∈ slots, p.2 + 8 < 2 ^ 64) (h : (r, o) ∈ slots) :
    readWord (store rec c slots m) (rec + BitVec.ofNat 64 o) = c.reg r := by
  induction slots generalizing m with
  | nil => cases h
  | cons p slots ih =>
      obtain ⟨hp, horder⟩ := List.pairwise_cons.mp horder
      have hin' : ∀ q ∈ slots, q.2 + 8 < 2 ^ 64 := fun q hq => hin q (List.mem_cons_of_mem _ hq)
      rcases List.mem_cons.mp h with rfl | h
      · calc readWord (store rec c slots (writeWord m (rec + BitVec.ofNat 64 o) (c.reg r))) _
            = readWord (writeWord m (rec + BitVec.ofNat 64 o) (c.reg r))
                (rec + BitVec.ofNat 64 o) := by
              refine readWord_congr fun x hx => store_of_outside fun q hq hxq => ?_
              exact words_apart (hp q hq).2 (hin' q hq) x hx hxq
          _ = c.reg r := readWord_writeWord _ _ _
      · exact ih horder hin' h

/-- A saved register is found in its slot. -/
theorem readWord_save (h : (r, o) ∈ f.slots) :
    readWord (f.save rec c m) (rec + BitVec.ofNat 64 o) = c.reg r :=
  readWord_store f.order (fun p hp => lt_of_le_of_lt (f.inside p hp) f.size_lt) h

end Store

variable [DecidableEq R]

/-- The offset of a register in a record. -/
def slot (r : R) : Option Nat := (f.slots.find? fun p => p.1 = r).map (·.2)

/-- A register as the record has it, if it has it. -/
def load (rec : Word) (m : ByteMemory) (c : Core R) (r : R) : Word :=
  match f.slot r with
  | some o => readWord m (rec + BitVec.ofNat 64 o)
  | none => c.reg r

/-- A call with return address `ret`. -/
def call (ret : Word) (c : Core R) (m : ByteMemory) : Core R × ByteMemory :=
  match f.link with
  | some l => ({ c with reg := Function.update c.reg l ret }, m)
  | none => ({ c with reg := Function.update c.reg f.sp (c.reg f.sp - 8) },
      writeWord m (c.reg f.sp - 8) ret)

/-- The first half of a switch: the call, and the registers are saved. -/
def leave (rec ret : Word) (c : Core R) (m : ByteMemory) : Core R × ByteMemory :=
  ((f.call ret c m).1, f.save rec (f.call ret c m).1 (f.call ret c m).2)

/-- The second half: registers are loaded, and the switch returns. -/
def enter (rec : Word) (m : ByteMemory) (c : Core R) : Core R :=
  match f.link with
  | some l => ⟨f.load rec m c, f.load rec m c l⟩
  | none => ⟨Function.update (f.load rec m c) f.sp (f.load rec m c f.sp + 8),
      readWord m (f.load rec m c f.sp)⟩

/-- A register that a switch restores. -/
def Restored (r : R) : Prop := (∃ o, (r, o) ∈ f.slots) ∧ f.link ≠ some r

/-- The saved stack pointer. -/
def savedSp (rec : Word) (m : ByteMemory) : Word := f.load rec m ⟨fun _ => 0, 0⟩ f.sp

/-- The bytes that entering a context reads. -/
def Foot (rec : Word) (m : ByteMemory) (x : Word) : Prop :=
  (f.record rec).Has x ∨ (f.link = none ∧ (wordAt (f.savedSp rec m)).Has x)

variable {f} {rec ret x : Word} {m m' : ByteMemory} {c c' : Core R} {r : R} {o : Nat}

/-! ## Slots -/

theorem find?_slot {slots : List (R × Nat)}
    (horder : slots.Pairwise fun p q => p.1 ≠ q.1 ∧ p.2 + 8 ≤ q.2) (h : (r, o) ∈ slots) :
    (slots.find? fun p => p.1 = r) = some (r, o) := by
  induction slots with
  | nil => cases h
  | cons p slots ih =>
      obtain ⟨hp, horder⟩ := List.pairwise_cons.mp horder
      rcases List.mem_cons.mp h with rfl | h
      · simp
      · have hne : p.1 ≠ r := (hp _ h).1
        rw [List.find?_cons_of_neg (by simpa using hne)]
        exact ih horder h

theorem slot_eq (h : (r, o) ∈ f.slots) : f.slot r = some o := by
  unfold slot
  rw [find?_slot f.order h]
  rfl

theorem slot_none (h : ∀ o, (r, o) ∉ f.slots) : f.slot r = none := by
  have hnone : (f.slots.find? fun p => p.1 = r) = none := by
    apply List.find?_eq_none.mpr
    intro p hp hpr
    obtain rfl : p.1 = r := by simpa using hpr
    exact h p.2 hp
  unfold slot
  rw [hnone]
  rfl

theorem load_congr (h : ∀ x, (f.record rec).Has x → m x = m' x) (hr : ∃ o, (r, o) ∈ f.slots) :
    f.load rec m c r = f.load rec m' c' r := by
  obtain ⟨o, ho⟩ := hr
  unfold load
  rw [slot_eq ho]
  exact readWord_congr fun x hx => h x (slot_inside ho hx)

theorem load_save (hr : ∃ o, (r, o) ∈ f.slots) : f.load rec (f.save rec c m) c' r = c.reg r := by
  obtain ⟨o, ho⟩ := hr
  unfold load
  rw [slot_eq ho]
  exact readWord_save ho

theorem load_other (hr : ∀ o, (r, o) ∉ f.slots) : f.load rec m c r = c.reg r := by
  unfold load
  rw [slot_none hr]

theorem load_sp : f.load rec m c f.sp = f.savedSp rec m := load_congr (fun _ _ => rfl) f.sp_slot

/-! ## A switch, seen from both sides -/

theorem savedSp_congr (h : ∀ x, (f.record rec).Has x → m x = m' x) :
    f.savedSp rec m = f.savedSp rec m' := load_congr h f.sp_slot

theorem foot_congr (h : ∀ x, f.Foot rec m x → m' x = m x) : f.Foot rec m' = f.Foot rec m := by
  funext x
  unfold Foot
  rw [savedSp_congr fun y hy => h y (.inl hy)]

/-- Entering a context depends on its bytes, and on the core only where nothing is restored. -/
theorem enter_congr (h : ∀ x, f.Foot rec m x → m' x = m x)
    (hc : ∀ r, (∀ o, (r, o) ∉ f.slots) → c'.reg r = c.reg r) :
    f.enter rec m' c' = f.enter rec m c := by
  have hload : f.load rec m' c' = f.load rec m c := by
    funext r
    by_cases hr : ∃ o, (r, o) ∈ f.slots
    · exact load_congr (fun x hx => h x (.inl hx)) hr
    · have hr' := not_exists.mp hr
      rw [load_other hr', load_other hr', hc r hr']
  unfold enter
  rw [hload]
  cases hl : f.link with
  | some l => rfl
  | none =>
      have hpc : readWord m' (f.load rec m c f.sp) = readWord m (f.load rec m c f.sp) := by
        refine readWord_congr fun x hx => h x (.inr ⟨hl, ?_⟩)
        rwa [load_sp] at hx
      simp only [hpc]

theorem call_reg (hr : r ≠ f.sp) (hl : f.link ≠ some r) : (f.call ret c m).1.reg r = c.reg r := by
  unfold call
  cases h : f.link with
  | some l =>
      have hne : r ≠ l := fun heq => hl (heq ▸ h)
      exact Function.update_of_ne hne _ _
  | none => exact Function.update_of_ne hr _ _

theorem leave_reg (hr : ∀ o, (r, o) ∉ f.slots) : (f.leave rec ret c m).1.reg r = c.reg r := by
  apply call_reg
  · rintro rfl
    obtain ⟨o, ho⟩ := f.sp_slot
    exact hr o ho
  · intro hl
    obtain ⟨-, o, ho⟩ := f.link_slot r hl
    exact hr o ho

/-- Leaving a context writes its record and the word below the stack pointer. -/
theorem leave_of_outside (hrec : ¬(f.record rec).Has x)
    (hsp : f.link = none → ¬(wordAt (c.reg f.sp - 8)).Has x) : (f.leave rec ret c m).2 x = m x := by
  have hsave := save_of_outside (f := f) (c := (f.call ret c m).1) (m := (f.call ret c m).2) hrec
  refine hsave.trans ?_
  unfold call
  cases hl : f.link with
  | some l => rfl
  | none => exact writeWord_of_not_has ret (hsp hl)

theorem leave_savedSp : f.savedSp rec (f.leave rec ret c m).2 = (f.call ret c m).1.reg f.sp :=
  load_save f.sp_slot

/-- The bytes that coming back reads are those that leaving has written. -/
theorem leave_foot (hx : f.Foot rec (f.leave rec ret c m).2 x) :
    (f.record rec).Has x ∨ (f.link = none ∧ (wordAt (c.reg f.sp - 8)).Has x) := by
  rcases hx with hx | ⟨hl, hx⟩
  · exact .inl hx
  · refine .inr ⟨hl, ?_⟩
    rw [leave_savedSp] at hx
    simpa [call, hl] using hx

/-- A context that was left and is entered again: the switch returns to its caller, and the
caller finds the registers that are restored as they were. -/
theorem enter_leave (rec ret : Word) (c : Core R) (m : ByteMemory) (c' : Core R)
    (hroom : f.link = none → (wordAt (c.reg f.sp - 8)).Apart (f.record rec)) :
    (f.enter rec (f.leave rec ret c m).2 c').pc = ret ∧
      (∀ r, f.Restored r → (f.enter rec (f.leave rec ret c m).2 c').reg r = c.reg r) ∧
      ∀ r, (∀ o, (r, o) ∉ f.slots) →
        (f.enter rec (f.leave rec ret c m).2 c').reg r = c'.reg r := by
  have hload : ∀ r, (∃ o, (r, o) ∈ f.slots) →
      f.load rec (f.leave rec ret c m).2 c' r = (f.call ret c m).1.reg r := fun _ hr => load_save hr
  cases hl : f.link with
  | some l =>
      obtain ⟨hlsp, hlslot⟩ := f.link_slot l hl
      simp only [enter, hl]
      refine ⟨?_, fun r hr => ?_, fun r hr => load_other hr⟩
      · rw [hload l hlslot]
        simp [call, hl]
      · rw [hload r hr.1]
        have hne : r ≠ l := fun heq => hr.2 (heq ▸ hl)
        simp [call, hl, hne]
  | none =>
      have hsp : f.load rec (f.leave rec ret c m).2 c' f.sp = c.reg f.sp - 8 := by
        rw [hload _ f.sp_slot]
        simp [call, hl]
      simp only [enter, hl]
      refine ⟨?_, fun r hr => ?_, fun r hr => ?_⟩
      · rw [hsp]
        calc readWord (f.leave rec ret c m).2 (c.reg f.sp - 8)
            = readWord (writeWord m (c.reg f.sp - 8) ret) (c.reg f.sp - 8) := by
              refine readWord_congr fun x hx => (save_of_outside (hroom hl x hx)).trans ?_
              simp [call, hl]
          _ = ret := readWord_writeWord _ _ _
      · by_cases hrsp : r = f.sp
        · subst hrsp
          rw [Function.update_self, hsp, BitVec.sub_add_cancel]
        · rw [Function.update_of_ne hrsp, hload r hr.1]
          exact call_reg hrsp (by simp [hl])
      · have hrsp : r ≠ f.sp := by
          rintro rfl
          obtain ⟨o, ho⟩ := f.sp_slot
          exact hr o ho
        rw [Function.update_of_ne hrsp]
        exact load_other hr

end Saving

end Foundation
