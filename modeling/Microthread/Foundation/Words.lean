import Mathlib.Data.BitVec

/-!
# Words in a memory of bytes

A memory maps 64-bit addresses to bytes and holds words with the low byte first. An address
may wrap around: a word takes the eight bytes that follow its address modulo `2 ^ 64`, and the
extent of a region is that distance from its base. A read depends on its eight bytes, a write
changes no other byte, and every fact about reads after writes comes from these two.
-/

namespace Foundation

/-- A 64-bit word, which is also an address. -/
abbrev Word := BitVec 64

/-- A memory of bytes. -/
abbrev ByteMemory := Word → BitVec 8

/-- The word at `a`, low byte first. -/
@[irreducible] def readWord (m : ByteMemory) (a : Word) : Word :=
  m (a + 7) ++ m (a + 6) ++ m (a + 5) ++ m (a + 4) ++ m (a + 3) ++ m (a + 2) ++ m (a + 1) ++ m a

@[irreducible] def writeWord (m : ByteMemory) (a v : Word) : ByteMemory := fun x =>
  if (x - a).toNat < 8 then v.extractLsb' (8 * (x - a).toNat) 8 else m x

/-- The bytes from a base on. -/
structure Extent where
  base : Word
  size : Nat
  deriving DecidableEq, Repr

/-- The eight bytes of the word at `a`. -/
def wordAt (a : Word) : Extent := ⟨a, 8⟩

namespace Extent

variable {r r' : Extent} {x : Word}

def Has (r : Extent) (x : Word) : Prop := (x - r.base).toNat < r.size

instance (r : Extent) (x : Word) : Decidable (r.Has x) := inferInstanceAs (Decidable (_ < _))

/-- No byte lies in both. -/
def Apart (r r' : Extent) : Prop := ∀ x, r.Has x → ¬r'.Has x

theorem Apart.symm (h : r.Apart r') : r'.Apart r := fun x hx' hx => h x hx hx'

/-- A part of an extent, given by where it begins and where it ends in it. -/
theorem has_of_part {p : Extent} (hp : (p.base - r.base).toNat + p.size ≤ r.size) (hx : p.Has x) :
    r.Has x := by
  unfold Has at *
  have hsum : (x - r.base).toNat ≤ (x - p.base).toNat + (p.base - r.base).toNat := by
    have heq : x - r.base = (x - p.base) + (p.base - r.base) := by simp [BitVec.sub_eq_add_neg]
    rw [heq, BitVec.toNat_add]
    exact Nat.mod_le _ _
  omega

end Extent

section Words

variable {m m' : ByteMemory} {a b x : Word}

theorem readWord_congr (h : ∀ x, (wordAt a).Has x → m x = m' x) : readWord m a = readWord m' a := by
  have hbyte : ∀ i : Word, i.toNat < 8 → m (a + i) = m' (a + i) := fun i hi => by
    apply h
    have heq : a + i - a = i := by rw [BitVec.add_comm, BitVec.add_sub_cancel]
    unfold wordAt Extent.Has
    rw [heq]
    exact hi
  have h0 : m a = m' a := by simpa using hbyte 0 (by decide)
  unfold readWord
  rw [hbyte 7 (by decide), hbyte 6 (by decide), hbyte 5 (by decide), hbyte 4 (by decide),
    hbyte 3 (by decide), hbyte 2 (by decide), hbyte 1 (by decide), h0]

theorem writeWord_of_not_has (v : Word) (h : ¬(wordAt a).Has x) : writeWord m a v x = m x := by
  unfold writeWord
  exact if_neg h

theorem readWord_writeWord (m : ByteMemory) (a v : Word) : readWord (writeWord m a v) a = v := by
  have hbyte : ∀ i : Word, i.toNat < 8 → writeWord m a v (a + i) = v.extractLsb' (8 * i.toNat) 8 :=
    fun i hi => by
      have heq : a + i - a = i := by rw [BitVec.add_comm, BitVec.add_sub_cancel]
      unfold writeWord
      rw [heq, if_pos hi]
  have h0 : writeWord m a v a = v.extractLsb' 0 8 := by simpa using hbyte 0 (by decide)
  unfold readWord
  rw [hbyte 7 (by decide), hbyte 6 (by decide), hbyte 5 (by decide), hbyte 4 (by decide),
    hbyte 3 (by decide), hbyte 2 (by decide), hbyte 1 (by decide), h0]
  -- the bytes join to longer and longer parts of the word
  have join : ∀ k n : Nat, v.extractLsb' (k + 8) n ++ v.extractLsb' k 8 = v.extractLsb' k (n + 8) :=
    fun _ _ => BitVec.extractLsb'_append_extractLsb'_eq_extractLsb' rfl
  change v.extractLsb' 56 8 ++ v.extractLsb' 48 8 ++ v.extractLsb' 40 8 ++ v.extractLsb' 32 8 ++
    v.extractLsb' 24 8 ++ v.extractLsb' 16 8 ++ v.extractLsb' 8 8 ++ v.extractLsb' 0 8 = v
  rw [join 48 8, join 40 16, join 32 24, join 24 32, join 16 40, join 8 48, join 0 56]
  exact BitVec.extractLsb'_eq_self

theorem readWord_writeWord_of_apart (v : Word) (h : (wordAt a).Apart (wordAt b)) :
    readWord (writeWord m b v) a = readWord m a :=
  readWord_congr fun x hx => writeWord_of_not_has v (h x hx)

end Words

end Foundation
