import Mathlib.Tactic.FinCases
import Microthread.Model.Context
import Microthread.System.Contexts
import Microthread.System.Trace

/-!
# A switched context comes back as it was

The assembly of both processors does what `Saving.leave` and `Saving.enter` say, and a context
that `mt_ctx_make` has prepared starts at `mt_ctx_start`. With the rules that the scheduler
keeps to, every switch of every run is a call that returns: with the general registers and the
stack pointer that it was made with, on whichever worker the task goes on. The control bits of
the floating-point units and the callee-saved vector registers are not saved; they are those
of the thread.
-/

namespace Microthread

open Foundation

variable {y : Symbols} {src dst ret x : Word} {m : ByteMemory} {p : Place}

/-! ## The top of a stack -/

theorem alignDown_toNat (v : Word) : (alignDown v 16).toNat = v.toNat - v.toNat % 16 := by
  have hshift : alignDown v 16 = v >>> 4 <<< 4 := by
    ext i hi
    simp only [alignDown, BitVec.getElem_and, BitVec.getElem_not, BitVec.getElem_shiftLeft]
    have hones : (16 - 1 : Word).getLsbD i = decide (i < 4) := by
      have heq : (16 - 1 : Word) = BitVec.ofNat 64 (2 ^ 4 - 1) := by decide
      rw [heq, BitVec.getLsbD_ofNat, Nat.testBit_two_pow_sub_one]
      simp [hi]
    rw [← BitVec.getLsbD_eq_getElem, ← BitVec.getLsbD_eq_getElem, hones]
    by_cases h4 : i < 4
    · simp [h4]
    · simp [h4, show 4 + (i - 4) = i by omega]
  rw [hshift, BitVec.toNat_shiftLeft, BitVec.toNat_ushiftRight, Nat.shiftRight_eq_div_pow,
    Nat.shiftLeft_eq]
  have hlt := v.isLt
  omega

/-- The aligned top of a stack is in its last sixteen bytes, or just above them. -/
theorem top_bounds {f : Saving R} (h : f.Fine 64 p) :
    let top := alignDown (p.stack.base + BitVec.ofNat 64 p.stack.size) 16
    top.toNat % 16 = 0 ∧ p.stack.base.toNat + p.stack.size < top.toNat + 16 ∧
      top.toNat ≤ p.stack.base.toNat + p.stack.size := by
  have hbound := h.bound
  have hsum : (p.stack.base + BitVec.ofNat 64 p.stack.size).toNat =
      p.stack.base.toNat + p.stack.size := by
    rw [BitVec.toNat_add, BitVec.toNat_ofNat]
    omega
  simp only [alignDown_toNat, hsum]
  omega

/-- A word below the top of a stack. -/
theorem stack_has {f : Saving R} (h : f.Fine 64 p) {k : Nat} (hk : 8 ≤ k) (hk' : k ≤ 48)
    (hx : (wordAt (alignDown (p.stack.base + BitVec.ofNat 64 p.stack.size) 16 -
      BitVec.ofNat 64 k)).Has x) : p.stack.Has x := by
  obtain ⟨-, hlow, hhigh⟩ := top_bounds h
  have hsize := h.size
  refine Extent.has_of_part ?_ hx
  generalize alignDown (p.stack.base + BitVec.ofNat 64 p.stack.size) 16 = top at *
  simp only [wordAt]
  bv_omega

/-! ## Making a context -/

theorem ctxMakeWith_eq {f : Saving R} (h : f.Fine 64 p) (fill : ByteMemory → ByteMemory) :
    ctxMakeWith f.size fill p.record p.stack.base p.stack.size y.taskEntry m =
      (0, fill (zeroed (f.record p.record) m)) := by
  have hsize : ¬p.stack.size < 64 := Nat.not_lt.mpr h.size
  simp only [ctxMakeWith, h.record_ne, h.stack_ne, hsize, y.taskEntry_ne, or_self, if_false]
  rfl

theorem zeroed_of_outside {r : Extent} (h : ¬r.Has x) : zeroed r m x = m x := if_neg h

theorem readWord_zeroed {f : Saving R} {r : R} {o : Nat} (h : (r, o) ∈ f.slots) (rec : Word) :
    readWord (zeroed (f.record rec) m) (rec + BitVec.ofNat 64 o) = 0 := by
  have hzero : ∀ a : Word, readWord (fun _ => 0) a = 0 := fun _ => by
    unfold readWord
    simp
  rw [← hzero (rec + BitVec.ofNat 64 o)]
  exact readWord_congr fun x hx => if_pos (Saving.slot_inside h hx)

namespace X64

theorem ctxSwitch_mem {c : Core Reg} :
    (ctxSwitch y src dst ret c m).2 = (context.leave src ret c m).2 := by
  rfl

theorem ctxSwitch_pc {c : Core Reg} : (ctxSwitch y src dst ret c m).1.pc =
    (context.enter dst (context.leave src ret c m).2 (context.leave src ret c m).1).pc := by
  rfl

theorem ctxSwitch_reg {c : Core Reg} {r : Reg} (hr : r ∉ argRegs) :
    (ctxSwitch y src dst ret c m).1.reg r =
      (context.enter dst (context.leave src ret c m).2 (context.leave src ret c m).1).reg r := by
  cases r with
  | rdi | rsi => simp [argRegs] at hr
  | _ => rfl

/-- The registers that a new context starts with. -/
def boot (y : Symbols) (p : Place) : Reg → Word
  | .rsp => alignDown (p.stack.base + BitVec.ofNat 64 p.stack.size) 16 - 16
  | .r12 => y.taskEntry
  | .r13 => p.arg
  | _ => 0

def make (y : Symbols) (p : Place) (m : ByteMemory) : ByteMemory :=
  (ctxMake y p.record p.stack.base p.stack.size y.taskEntry p.arg m).2

theorem make_eq (h : context.Fine 64 p) : make y p m =
    let sp := boot y p .rsp
    let m := writeWord (zeroed (context.record p.record) m) sp y.ctxStart
    let m := writeWord m (p.record + .ofNat 64 0) sp
    let m := writeWord m (p.record + .ofNat 64 32) y.taskEntry
    writeWord m (p.record + .ofNat 64 24) p.arg :=
  congrArg Prod.snd (ctxMakeWith_eq h _)

theorem make_of_outside (h : context.Fine 64 p) (hx : ¬context.Owns p x) : make y p m x = m x := by
  obtain ⟨hrec, hstack⟩ := not_or.mp hx
  have hslot : ∀ {r o}, (r, o) ∈ context.slots →
      ¬(wordAt (p.record + BitVec.ofNat 64 o)).Has x := fun ho hx => hrec (Saving.slot_inside ho hx)
  have hsp : ¬(wordAt (boot y p .rsp)).Has x := fun hx =>
    hstack (stack_has h (k := 16) (by decide) (by decide) hx)
  rw [make_eq h]
  simp only
  rw [writeWord_of_not_has _ (hslot (r := .r13) (by decide)),
    writeWord_of_not_has _ (hslot (r := .r12) (by decide)),
    writeWord_of_not_has _ (hslot (r := .rsp) (by decide)),
    writeWord_of_not_has _ hsp]
  exact zeroed_of_outside hrec

theorem make_slot (h : context.Fine 64 p) {r : Reg} {o : Nat} (ho : (r, o) ∈ context.slots) :
    readWord (make y p m) (p.record + BitVec.ofNat 64 o) = boot y p r := by
  have hstack : ∀ v, readWord (writeWord (zeroed (context.record p.record) m) (boot y p .rsp) v)
      (p.record + BitVec.ofNat 64 o) = 0 := fun v => by
    rw [readWord_writeWord_of_apart]
    · exact readWord_zeroed ho _
    · exact fun x hx hsp => h.apart x (Saving.slot_inside ho hx)
        (stack_has h (k := 16) (by decide) (by decide) hsp)
  rw [make_eq h]
  simp only [context, List.mem_cons, Prod.mk.injEq, List.not_mem_nil, or_false] at ho
  rcases ho with ⟨rfl, rfl⟩ | ⟨rfl, rfl⟩ | ⟨rfl, rfl⟩ | ⟨rfl, rfl⟩ | ⟨rfl, rfl⟩ | ⟨rfl, rfl⟩ |
    ⟨rfl, rfl⟩
  all_goals
    simp (disch := decide) only [Saving.readWord_writeWord_slot, readWord_writeWord, hstack] <;> rfl

/-- The word at the stack pointer is the address of `mt_ctx_start`. -/
theorem make_ret (h : context.Fine 64 p) : readWord (make y p m) (boot y p .rsp) = y.ctxStart := by
  have hout : ∀ {r o}, (r, o) ∈ context.slots →
      (wordAt (boot y p .rsp)).Apart (wordAt (p.record + BitVec.ofNat 64 o)) :=
    fun ho x hsp hx => h.apart x (Saving.slot_inside ho hx)
      (stack_has h (k := 16) (by decide) (by decide) hsp)
  rw [make_eq h]
  simp only
  rw [readWord_writeWord_of_apart _ (hout (r := .r13) (by decide)),
    readWord_writeWord_of_apart _ (hout (r := .r12) (by decide)),
    readWord_writeWord_of_apart _ (hout (r := .rsp) (by decide))]
  exact readWord_writeWord ..

theorem make_load (h : context.Fine 64 p) (c : Core Reg) {r : Reg}
    (hr : ∃ o, (r, o) ∈ context.slots) : context.load p.record (make y p m) c r = boot y p r := by
  obtain ⟨o, ho⟩ := hr
  unfold Saving.load
  rw [Saving.slot_eq ho]
  exact make_slot h ho

theorem make_foot (h : context.Fine 64 p) (hx : context.Foot p.record (make y p m) x) :
    context.Owns p x := by
  rcases hx with hx | ⟨-, hx⟩
  · exact .inl hx
  · have hsp : context.savedSp p.record (make y p m) = boot y p .rsp :=
      make_load h _ context.sp_slot
    rw [hsp] at hx
    exact .inr (stack_has h (k := 16) (by decide) (by decide) hx)

def maker (y : Symbols) : Maker Reg where
  toSaving := context
  scratch := argRegs
  run := ctxSwitch y
  scratch_free r hr := by
    simp only [argRegs, List.mem_cons, List.not_mem_nil, or_false] at hr
    rcases hr with rfl | rfl <;> simp [context]
  run_mem _ _ _ _ _ := ctxSwitch_mem
  run_pc _ _ _ _ _ := ctxSwitch_pc
  run_reg _ _ _ _ _ _ hr := ctxSwitch_reg hr
  minStack := 64
  make := make y
  make_of_outside _ _ _ h hx := make_of_outside h hx
  make_foot _ _ _ h hx := make_foot h hx

theorem general_restored {r : Reg} (hr : r ∈ general) : (maker y).Restored r := by
  simp only [general, List.mem_cons, List.not_mem_nil, or_false] at hr
  rcases hr with rfl | rfl | rfl | rfl | rfl | rfl | rfl <;>
    simp [maker, context, Saving.Restored]

theorem float_free {r : Reg} (hr : r ∈ float) :
    r ∉ (maker y).scratch ∧ ∀ o, (r, o) ∉ (maker y).slots := by
  simp only [float, List.mem_cons, List.not_mem_nil, or_false] at hr
  rcases hr with rfl | rfl <;> simp [maker, argRegs, context]

/-- A processor at the entry of `mt_ctx_entry`: the arguments are `mt_task_entry` and the task,
the stack is aligned as at a call and empty but for the return address, and nothing else has
been written since `s`. -/
structure AtEntry (y : Symbols) (p : Place) (s s' : State) : Prop where
  pc : s'.1.pc = y.ctxEntry
  entry : s'.1.reg .rdi = y.taskEntry
  arg : s'.1.reg .rsi = p.arg
  aligned : (s'.1.reg .rsp + 8).toNat % 16 = 0
  below : (s'.1.reg .rsp).toNat < p.stack.base.toNat + p.stack.size
  room : p.stack.base.toNat + p.stack.size ≤ (s'.1.reg .rsp).toNat + 40
  trap : readWord s'.2 (s'.1.reg .rsp) = y.trap
  mem : ∀ x, ¬(wordAt (s'.1.reg .rsp)).Has x → s'.2 x = s.2 x
  inside : ∀ x, (wordAt (s'.1.reg .rsp)).Has x → p.stack.Has x

theorem ctxStart_spec (h : context.Fine 64 p) {c c' : Core Reg} {m' : ByteMemory}
    (hpc : c.pc = (context.enter p.record (make y p m) c').pc)
    (hreg : ∀ r ∉ argRegs, c.reg r = (context.enter p.record (make y p m) c').reg r) :
    c.pc = y.ctxStart ∧ AtEntry y p (c, m') (exec (c, m') (ctxStart y)) := by
  have hload := fun r hr => make_load (y := y) (m := m) h c' (r := r) hr
  have hsp : c.reg .rsp = boot y p .rsp + 8 := by
    rw [hreg .rsp (by decide), ← hload .rsp context.sp_slot]
    rfl
  have hr12 : c.reg .r12 = y.taskEntry :=
    (hreg .r12 (by decide)).trans (hload .r12 ⟨32, by decide⟩)
  have hr13 : c.reg .r13 = p.arg := (hreg .r13 (by decide)).trans (hload .r13 ⟨24, by decide⟩)
  have hret : c.pc = y.ctxStart := by
    change c.pc = readWord (make y p m) (context.load p.record (make y p m) c' .rsp) at hpc
    rw [hpc, hload .rsp context.sp_slot, make_ret h]
  refine ⟨hret, ?_⟩
  have hrsp : (exec (c, m') (ctxStart y)).1.reg .rsp =
      alignDown (p.stack.base + BitVec.ofNat 64 p.stack.size) 16 - BitVec.ofNat 64 24 := by
    change c.reg .rsp - 8 - 8 = _
    rw [hsp]
    simp only [boot]
    generalize alignDown _ _ = top
    bv_omega
  obtain ⟨haligned, hlow, hhigh⟩ := top_bounds h
  have hsize := h.size
  constructor
  · rfl
  · exact hr12
  · exact hr13
  · rw [hrsp]
    generalize alignDown _ _ = top at *
    bv_omega
  · rw [hrsp]
    generalize alignDown _ _ = top at *
    bv_omega
  · rw [hrsp]
    generalize alignDown _ _ = top at *
    bv_omega
  · exact readWord_writeWord ..
  · exact fun x hx => writeWord_of_not_has _ hx
  · intro x hx
    rw [hrsp] at hx
    exact stack_has h (by decide) (by decide) hx

end X64

namespace Arm64

theorem ctxSwitch_mem {c : Core Reg} :
    (ctxSwitch y src dst ret c m).2 = (context.leave src ret c m).2 := by
  rfl

theorem ctxSwitch_pc {c : Core Reg} : (ctxSwitch y src dst ret c m).1.pc =
    (context.enter dst (context.leave src ret c m).2 (context.leave src ret c m).1).pc := by
  rfl

theorem ctxSwitch_reg {c : Core Reg} {r : Reg} (hr : r ∉ argRegs) :
    (ctxSwitch y src dst ret c m).1.reg r =
      (context.enter dst (context.leave src ret c m).2 (context.leave src ret c m).1).reg r := by
  cases r with
  | sp | d n => rfl
  | x n => fin_cases n <;> first | rfl | simp [argRegs] at hr

/-- The registers that a new context starts with. -/
def boot (y : Symbols) (p : Place) : Reg → Word
  | .sp => alignDown (p.stack.base + BitVec.ofNat 64 p.stack.size) 16
  | .x 19 => y.taskEntry
  | .x 20 => p.arg
  | .x 30 => y.ctxStart
  | _ => 0

def make (y : Symbols) (p : Place) (m : ByteMemory) : ByteMemory :=
  (ctxMake y p.record p.stack.base p.stack.size y.taskEntry p.arg m).2

theorem make_eq (h : context.Fine 64 p) : make y p m =
    let m := writeWord (zeroed (context.record p.record) m) (p.record + .ofNat 64 0) (boot y p .sp)
    let m := writeWord m (p.record + .ofNat 64 8) y.taskEntry
    let m := writeWord m (p.record + .ofNat 64 16) p.arg
    writeWord m (p.record + .ofNat 64 96) y.ctxStart :=
  congrArg Prod.snd (ctxMakeWith_eq h _)

theorem make_of_outside (h : context.Fine 64 p) (hx : ¬context.Owns p x) : make y p m x = m x := by
  obtain ⟨hrec, -⟩ := not_or.mp hx
  have hslot : ∀ {r o}, (r, o) ∈ context.slots →
      ¬(wordAt (p.record + BitVec.ofNat 64 o)).Has x := fun ho hx => hrec (Saving.slot_inside ho hx)
  rw [make_eq h]
  simp only
  rw [writeWord_of_not_has _ (hslot (r := .x 30) (by decide)),
    writeWord_of_not_has _ (hslot (r := .x 20) (by decide)),
    writeWord_of_not_has _ (hslot (r := .x 19) (by decide)),
    writeWord_of_not_has _ (hslot (r := .sp) (by decide))]
  exact zeroed_of_outside hrec

theorem make_slot (h : context.Fine 64 p) {r : Reg} {o : Nat} (ho : (r, o) ∈ context.slots) :
    readWord (make y p m) (p.record + BitVec.ofNat 64 o) = boot y p r := by
  have hzero : readWord (zeroed (context.record p.record) m) (p.record + BitVec.ofNat 64 o) = 0 :=
    readWord_zeroed ho _
  rw [make_eq h]
  simp only [context, List.mem_cons, Prod.mk.injEq, List.not_mem_nil, or_false] at ho
  rcases ho with ⟨rfl, rfl⟩ | ⟨rfl, rfl⟩ | ⟨rfl, rfl⟩ | ⟨rfl, rfl⟩ | ⟨rfl, rfl⟩ | ⟨rfl, rfl⟩ |
    ⟨rfl, rfl⟩ | ⟨rfl, rfl⟩ | ⟨rfl, rfl⟩ | ⟨rfl, rfl⟩ | ⟨rfl, rfl⟩ | ⟨rfl, rfl⟩ | ⟨rfl, rfl⟩
  all_goals
    simp (disch := decide) only [Saving.readWord_writeWord_slot, readWord_writeWord, hzero] <;> rfl

theorem make_load (h : context.Fine 64 p) (c : Core Reg) {r : Reg}
    (hr : ∃ o, (r, o) ∈ context.slots) : context.load p.record (make y p m) c r = boot y p r := by
  obtain ⟨o, ho⟩ := hr
  unfold Saving.load
  rw [Saving.slot_eq ho]
  exact make_slot h ho

def maker (y : Symbols) : Maker Reg where
  toSaving := context
  scratch := argRegs
  run := ctxSwitch y
  scratch_free r hr := by
    simp only [argRegs, List.mem_cons, List.not_mem_nil, or_false] at hr
    rcases hr with rfl | rfl | rfl <;> simp [context]
  run_mem _ _ _ _ _ := ctxSwitch_mem
  run_pc _ _ _ _ _ := ctxSwitch_pc
  run_reg _ _ _ _ _ _ hr := ctxSwitch_reg hr
  minStack := 64
  make := make y
  make_of_outside _ _ _ h hx := make_of_outside h hx
  make_foot _ _ _ _ hx := .inl (hx.resolve_right fun h => nomatch h.1)

theorem general_restored {r : Reg} (hr : r ∈ general) : (maker y).Restored r := by
  simp only [general, List.mem_cons, List.not_mem_nil, or_false] at hr
  rcases hr with rfl | rfl | rfl | rfl | rfl | rfl | rfl | rfl | rfl | rfl | rfl | rfl <;>
    simp [maker, context, Saving.Restored]

theorem float_free {r : Reg} (hr : r ∈ float) :
    r ∉ (maker y).scratch ∧ ∀ o, (r, o) ∉ (maker y).slots := by
  simp only [float, List.mem_cons, List.not_mem_nil, or_false] at hr
  rcases hr with rfl | rfl | rfl | rfl | rfl | rfl | rfl | rfl <;>
    simp [maker, argRegs, context]

/-- A processor at the entry of `mt_ctx_entry`: the arguments are `mt_task_entry` and the task,
the stack is aligned and empty, and nothing has been written since `s`. -/
structure AtEntry (y : Symbols) (p : Place) (s s' : State) : Prop where
  pc : s'.1.pc = y.ctxEntry
  entry : s'.1.reg (.x 0) = y.taskEntry
  arg : s'.1.reg (.x 1) = p.arg
  aligned : (s'.1.reg .sp).toNat % 16 = 0
  below : (s'.1.reg .sp).toNat ≤ p.stack.base.toNat + p.stack.size
  room : p.stack.base.toNat + p.stack.size < (s'.1.reg .sp).toNat + 16
  trap : s'.1.reg (.x 30) = y.trap
  mem : s'.2 = s.2

theorem ctxStart_spec (h : context.Fine 64 p) {c c' : Core Reg} {m' : ByteMemory}
    (hpc : c.pc = (context.enter p.record (make y p m) c').pc)
    (hreg : ∀ r ∉ argRegs,
      c.reg r = (context.enter p.record (make y p m) c').reg r) :
    c.pc = y.ctxStart ∧ AtEntry y p (c, m') (exec (c, m') (ctxStart y)) := by
  have hload := fun r hr => make_load (y := y) (m := m) h c' (r := r) hr
  have hsp : c.reg .sp = boot y p .sp := (hreg .sp (by decide)).trans (hload .sp context.sp_slot)
  have hx19 : c.reg (.x 19) = y.taskEntry :=
    (hreg (.x 19) (by decide)).trans (hload (.x 19) ⟨8, by decide⟩)
  have hx20 : c.reg (.x 20) = p.arg :=
    (hreg (.x 20) (by decide)).trans (hload (.x 20) ⟨16, by decide⟩)
  have hret : c.pc = y.ctxStart := hpc.trans (hload (.x 30) ⟨96, by decide⟩)
  have hrsp : (exec (c, m') (ctxStart y)).1.reg .sp =
      alignDown (p.stack.base + BitVec.ofNat 64 p.stack.size) 16 := hsp
  obtain ⟨haligned, hlow, hhigh⟩ := top_bounds h
  refine ⟨hret, rfl, hx19, hx20, ?_, ?_, ?_, rfl, rfl⟩
  · rwa [hrsp]
  · rwa [hrsp]
  · rwa [hrsp]

end Arm64

/-! ## Both processors -/

/-- The processors that the assembly is for. -/
inductive Arch where
  | x86_64 | aarch64
  deriving DecidableEq, Repr

namespace Arch

abbrev Reg : Arch → Type
  | x86_64 => X64.Reg
  | aarch64 => Arm64.Reg

instance : (arch : Arch) → DecidableEq arch.Reg
  | x86_64 => inferInstanceAs (DecidableEq X64.Reg)
  | aarch64 => inferInstanceAs (DecidableEq Arm64.Reg)

def maker (y : Symbols) : (arch : Arch) → Maker arch.Reg
  | x86_64 => X64.maker y
  | aarch64 => Arm64.maker y

/-- The general registers that a call keeps by the calling convention. -/
def general : (arch : Arch) → List arch.Reg
  | x86_64 => X64.general
  | aarch64 => Arm64.general

/-- What else a call keeps by the calling convention: the control bits of the floating-point
units, and the lower halves of eight vector registers. -/
def float : (arch : Arch) → List arch.Reg
  | x86_64 => X64.float
  | aarch64 => Arm64.float

/-- The processor is about to execute `mt_ctx_start`, which leads to `mt_ctx_entry` on the
stack of the place. -/
def Begins (y : Symbols) (p : Place) : (arch : Arch) → Core arch.Reg × ByteMemory → Prop
  | x86_64, s => s.1.pc = y.ctxStart ∧ X64.AtEntry y p s (X64.exec s (X64.ctxStart y))
  | aarch64, s => s.1.pc = y.ctxStart ∧ Arm64.AtEntry y p s (Arm64.exec s (Arm64.ctxStart y))

variable {arch : Arch} {r : arch.Reg}

theorem general_restored (hr : r ∈ arch.general) : (arch.maker y).Restored r := by
  cases arch with
  | x86_64 => exact X64.general_restored hr
  | aarch64 => exact Arm64.general_restored hr

theorem float_free (hr : r ∈ arch.float) :
    r ∉ (arch.maker y).scratch ∧ ∀ o, (r, o) ∉ (arch.maker y).slots := by
  cases arch with
  | x86_64 => exact X64.float_free hr
  | aarch64 => exact Arm64.float_free hr

end Arch

/-- The runtime on threads that execute the switches. -/
def hardware (arch : Arch) (y : Symbols) :
    Machine (Cores Sys Nat Ctx arch.Reg) (CoresAct Act Nat Ctx arch.Reg) :=
  contexts.cores (arch.maker y)

/-- The API contract, and the memory that a switch relies on. -/
def Sound (arch : Arch) (y : Symbols) :
    Cores Sys Nat Ctx arch.Reg → CoresAct Act Nat Ctx arch.Reg → Prop :=
  Cores.Obeys contexts (arch.maker y) Sys.Contract

/-- The same, while no thread is in the context `c`. -/
def SoundWithout (arch : Arch) (y : Symbols) (c : Ctx) (s : Cores Sys Nat Ctx arch.Reg)
    (act : CoresAct Act Nat Ctx arch.Reg) : Prop :=
  Sound arch y s act ∧ ∀ w, s.control.ctx w ≠ some c

/-! ## One task on one worker -/

section Lone

def taskPlace : Place := ⟨0x1000, ⟨0x10000, 0x4000⟩, 0x1000⟩

def loopPlace : Place := ⟨0x2000, ⟨0x20000, 0x4000⟩, 0⟩

def lonePlace : Ctx → Place
  | .task _ => taskPlace
  | .sched _ => loopPlace

def loneSymbols : Symbols := ⟨0x100, 0x200, 0x300, 0x210, 0x400, by decide⟩

/-- There is no task but task 0, and no worker but worker 0. -/
def Sys.lone (s : Sys) : Bool := s.rt.allTasks.all (· == 0) && decide (s.rt.workerCount ≤ 1)

def Sys.loneStep (s : Sys) (a : Act) : Bool :=
  s.promised a && s.lone && (machine.step s a).all Sys.lone

/-- The same, while worker 0 is not in the context `c`. -/
def Sys.loneAway (c : Ctx) (s : Sys) (a : Act) : Bool := s.loneStep a && s.ctx 0 != some c

variable {s s' : Sys} {a : Act} {c : Ctx} {p : Cores Sys Nat Ctx (Arch.Reg .aarch64)}

theorem lone_live (h : s.Ok) (hl : s.lone = true) (hc : s.ctxLive c = true) :
    c = .task 0 ∨ c = .sched 0 := by
  simp only [Sys.lone, Bool.and_eq_true, List.all_eq_true, beq_iff_eq, decide_eq_true_eq] at hl
  obtain ⟨htasks, hworkers⟩ := hl
  cases c with
  | task t => exact .inl (congrArg Ctx.task (htasks t (of_decide_eq_true hc)))
  | sched w =>
      have hw : s.workers w ≠ .off := fun hoff => by simp [Sys.ctxLive, Sys.ctx, hoff, WorkerPc.ctx] at hc
      have hlt := (h.run.bound w hw).1
      exact .inr (congrArg Ctx.sched (by omega))

theorem lonePlace_fine (c : Ctx) : Arm64.context.Fine 64 (lonePlace c) := by
  have htask : Arm64.context.Fine 64 taskPlace := by
    refine ⟨by decide, by decide, fun x hx hs => ?_, by decide, by decide⟩
    simp only [Extent.Has, Saving.record, Arm64.context, taskPlace] at hx hs
    bv_omega
  have hloop : Arm64.context.Fine 64 loopPlace := by
    refine ⟨by decide, by decide, fun x hx hs => ?_, by decide, by decide⟩
    simp only [Extent.Has, Saving.record, Arm64.context, loopPlace] at hx hs
    bv_omega
  cases c with
  | task t => exact htask
  | sched w => exact hloop

theorem lonePlace_apart {x : Word} (ht : Arm64.context.Owns taskPlace x) :
    ¬Arm64.context.Owns loopPlace x := by
  intro hs
  simp only [Saving.Owns, Extent.Has, Saving.record, Arm64.context, taskPlace, loopPlace] at ht hs
  bv_omega

theorem lone_sound (hr : machine.Reach Sys.Contract p.control) (hp : p.place = lonePlace)
    (ha : p.control.loneStep a = true) (ret : Word) :
    Sound .aarch64 loneSymbols p (.control a ret lonePlace) := by
  simp only [Sys.loneStep, Bool.and_eq_true] at ha
  obtain ⟨⟨hprom, hlone⟩, hall⟩ := ha
  have hok := Sys.contract_of_promised hprom
  refine ⟨hok, fun t ht => ⟨fun c hold hnew => ⟨lonePlace_fine c, ?_⟩, ?_⟩⟩
  · intro d hne hd x hx
    have hlone' : t.lone = true := by
      have hstep : machine.step p.control a = some t := ht
      simpa [hstep] using hall
    have hinv := Sys.ok_of_reach (fun _ _ hc => hc) hr
    have hinv' := Sys.ok_of_reach (fun _ _ hc => hc) (.step hr hok ht)
    have hd' : d = .task 0 ∨ d = .sched 0 :=
      hd.elim (lone_live hinv hlone) (lone_live hinv' hlone')
    have hplace : p.places contexts lonePlace d = lonePlace d := by
      unfold Cores.places
      rw [hp, ite_self]
    rw [hplace]
    rcases lone_live hinv' hlone' hnew with rfl | rfl
    · obtain rfl := hd'.resolve_left hne
      exact lonePlace_apart hx
    · obtain rfl := hd'.resolve_right hne
      exact fun hxd => lonePlace_apart hxd hx
  · intro v c d _ _ _ hlink
    cases hlink

theorem lone_away (hr : machine.Reach Sys.Contract s) (ha : s.loneAway c a = true) (w : Nat) :
    s.ctx w ≠ some c := by
  intro hc
  have hinv := Sys.ok_of_reach (fun _ _ hc => hc) hr
  simp only [Sys.loneAway, Sys.loneStep, Sys.lone, Bool.and_eq_true, decide_eq_true_eq,
    bne_iff_ne] at ha
  obtain ⟨⟨⟨-, -, hcount⟩, -⟩, haway⟩ := ha
  have hw : s.workers w ≠ .off := fun hoff => by
    rw [Sys.ctx_eq hoff] at hc
    cases hc
  obtain rfl : w = 0 := by
    have hlt := (hinv.run.bound w hw).1
    omega
  exact haway hc

/-- A step of such a run is a step of the hardware. -/
theorem lone_step (hr : machine.Reach Sys.Contract p.control) (hp : p.place = lonePlace)
    (ha : p.control.loneStep a = true) (hs : machine.step p.control a = some s) (ret : Word) :
    Sound .aarch64 loneSymbols p (.control a ret lonePlace) ∧ ∃ q,
      (hardware .aarch64 loneSymbols).step p (.control a ret lonePlace) = some q ∧
      q.control = s ∧ q.place = lonePlace := by
  refine ⟨lone_sound hr hp ha ret, p.switch contexts _ a ret lonePlace s,
    congrArg (Option.map _) hs, Cores.switch_control, ?_⟩
  funext c
  rw [Cores.switch_place]
  unfold Cores.places
  rw [hp, ite_self]

theorem lone_reach (h : machine.Reach (fun s a => s.loneStep a = true) s) :
    machine.Reach Sys.Contract s ∧ ∃ q : Cores Sys Nat Ctx (Arch.Reg .aarch64),
      (hardware .aarch64 loneSymbols).Reach (Sound .aarch64 loneSymbols) q ∧ q.control = s ∧
      q.place = lonePlace := by
  induction h with
  | @init s hi =>
      exact ⟨.init hi, ⟨s, fun _ => ⟨fun _ => 0, 0⟩, fun _ => 0, lonePlace⟩, .init hi, rfl, rfl⟩
  | step _ ha hs ih =>
      obtain ⟨hr, q, hq, rfl, hplace⟩ := ih
      obtain ⟨hsound, q', hstep, hcontrol, hplace'⟩ := lone_step hr hplace ha hs 0
      exact ⟨.step hr hsound.1 hs, q', .step hq hsound hstep, hcontrol, hplace'⟩

theorem lone_path (hr : machine.Reach Sys.Contract p.control) (hp : p.place = lonePlace)
    (h : machine.Path (fun s a => s.loneAway c a = true) p.control s) :
    machine.Reach Sys.Contract s ∧ ∃ q : Cores Sys Nat Ctx (Arch.Reg .aarch64),
      (hardware .aarch64 loneSymbols).Path (SoundWithout .aarch64 loneSymbols c) p q ∧
      q.control = s ∧ q.place = lonePlace := by
  induction h with
  | refl => exact ⟨hr, p, .refl, rfl, hp⟩
  | step _ ha hs ih =>
      obtain ⟨hr, q, hq, rfl, hplace⟩ := ih
      have haway := lone_away hr ha
      simp only [Sys.loneAway, Bool.and_eq_true] at ha
      obtain ⟨hsound, q', hstep, hcontrol, hplace'⟩ := lone_step hr hplace ha.1 hs 0
      exact ⟨.step hr hsound.1 hs, q', hq.step ⟨hsound, haway⟩ hstep, hcontrol, hplace'⟩

/-- A computation on the processors that leaves the memory alone. -/
theorem compute_sound {core : Nat → Core (Arch.Reg .aarch64)} :
    Sound .aarch64 loneSymbols p (.compute core p.mem) := fun _ _ _ _ => rfl

end Lone

/-- Every switch is a call that returns. In any run, let a worker's thread leave the context
of a task or of its loop for another one, and let the context be entered again, on this thread
or on that of another worker, after any number of steps and of switches of others. The thread
then continues at the return address of the switch with the general registers that a call
keeps, the stack pointer among them. The floating-point control bits and the callee-saved
vector registers are those of the context that the thread has left. -/
theorem context_switch_returns {arch : Arch} {y : Symbols}
    {s₀ s₁ s₂ s₃ : Cores Sys Nat Ctx arch.Reg} {a : Act} {ret : Word} {place : Ctx → Place}
    {b : CoresAct Act Nat Ctx arch.Reg} {u v : Nat} {c d : Ctx}
    (h : (hardware arch y).Reach (Sound arch y) s₀)
    (hok₀ : Sound arch y s₀ (.control a ret place))
    (hs₀ : (hardware arch y).step s₀ (.control a ret place) = some s₁)
    (hc : s₀.control.ctx u = some c) (hd : s₁.control.ctx u = some d) (hne : c ≠ d)
    (hp : (hardware arch y).Path (SoundWithout arch y c) s₁ s₂)
    (hok : SoundWithout arch y c s₂ b) (hs : (hardware arch y).step s₂ b = some s₃)
    (hon : s₃.control.ctx v = some c) :
    (s₃.core v).pc = ret ∧
      (∀ r ∈ arch.general, (s₃.core v).reg r = (s₀.core u).reg r) ∧
      ∀ r ∈ arch.float, (s₃.core v).reg r = (s₂.core v).reg r := by
  obtain ⟨hpc, hrestored, hother⟩ := Cores.resumes contexts_lawful h hok₀ hs₀ hc hd hne hp hok.1
    hok.2 hs hon
  refine ⟨hpc, fun r hr => hrestored r (Arch.general_restored hr), fun r hr => ?_⟩
  obtain ⟨hscratch, hslots⟩ := Arch.float_free (y := y) hr
  exact hother r hscratch hslots

/-- A task yields, and the worker takes it up again. In between its registers are used by
others. -/
theorem context_switch_returns_yield : ∃ s₀ s₂ s₃ : Cores Sys Nat Ctx (Arch.Reg .aarch64),
    s₀.control.workers 0 = .running 0 ∧ s₂.control.workers 0 = .pop ∧
    s₃.control.workers 0 = .running 0 ∧ (s₀.core 0).reg (.x 19) = 7 ∧
    (s₀.core 0).reg (.d 8) = 7 ∧ (s₂.core 0).reg (.x 19) = 9 ∧ (s₂.core 0).reg (.d 8) = 9 ∧
    (s₃.core 0).pc = 0x500 ∧ (s₃.core 0).reg (.x 19) = 7 ∧ (s₃.core 0).reg (.d 8) = 9 := by
  obtain ⟨z, hz, hp⟩ := reach_of_trace Sys.loneStep .poll (List.flatten [
      invoke (.ext 0) (.go true 0 false), invoke (.ext 0) (.run 1 true) 2, works 0 3,
      [.api (.task 0 0) .yield]])
    (fun z => z.loneStep (.cont (.task 0 0) {}) && z.workers 0 == .running 0 &&
      (machine.step z (.cont (.task 0 0) {})).any fun z₁ => z₁.ctx 0 == some (.sched 0) &&
        (machine.replay (Sys.loneAway (.task 0)) z₁ (works 0 1)).any fun (z₂ : Sys) =>
          z₂.loneAway (.task 0) (.worker 0 {}) && z₂.workers 0 == .pop &&
            (machine.step z₂ (.worker 0 {})).any fun (z₃ : Sys) => z₃.workers 0 == .running 0)
    (fun _ _ h => h) (by decide +kernel)
  simp only [Bool.and_eq_true, beq_iff_eq, Option.any_eq_true] at hp
  obtain ⟨⟨hlone, hrun⟩, z₁, hz₁, hsched, z₂, hrest, ⟨hlone₂, hpop⟩, z₃, hz₃, hrun₃⟩ := hp
  obtain ⟨hr, q, hq, rfl, hplace⟩ := lone_reach hz
  -- the task computes before it yields
  let s₀ : Cores Sys Nat Ctx (Arch.Reg .aarch64) := { q with core := fun _ => ⟨fun _ => 7, 0⟩ }
  have hs₀ := hq.step compute_sound (t := s₀) rfl
  obtain ⟨hok₀, s₁, hs₁, rfl, hplace₁⟩ := lone_step (p := s₀) hr hplace hlone hz₁ 0x500
  obtain ⟨hr₂, q₂, hpath, rfl, hplace₂⟩ := lone_path (.step hr hok₀.1 hz₁) hplace₁
    (Machine.Path.refl.replay (fun _ _ h => h) hrest)
  have haway := lone_away hr₂ hlone₂
  -- others compute while it is away
  let s₂ : Cores Sys Nat Ctx (Arch.Reg .aarch64) := { q₂ with core := fun _ => ⟨fun _ => 9, 0⟩ }
  have hpath₂ := hpath.step ⟨compute_sound, haway⟩ (u := s₂) rfl
  simp only [Sys.loneAway, Bool.and_eq_true] at hlone₂
  obtain ⟨hok₂, s₃, hs₃, rfl, -⟩ := lone_step (p := s₂) hr₂ hplace₂ hlone₂.1 hz₃ 0
  obtain ⟨hpc, hgeneral, hfloat⟩ := context_switch_returns hs₀ hok₀ hs₁ (Sys.ctx_of_running hrun)
    hsched (by decide) hpath₂ ⟨hok₂, haway⟩ hs₃ (Sys.ctx_of_running hrun₃)
  exact ⟨s₀, s₂, s₃, hrun, hpop, hrun₃, rfl, rfl, rfl, rfl, hpc, hgeneral (.x 19) (by decide),
    hfloat (.d 8) (by decide)⟩

/-- A task that a step creates starts, when a worker first takes it up, at `mt_ctx_start`, and
comes from there to `mt_ctx_entry` with `mt_task_entry` and itself as the arguments, on its
own stack, aligned as the calling convention asks. -/
theorem context_begins {arch : Arch} {y : Symbols}
    {s₀ s₁ s₂ s₃ : Cores Sys Nat Ctx arch.Reg} {a : Act} {ret : Word} {place : Ctx → Place}
    {b : CoresAct Act Nat Ctx arch.Reg} {v : Nat} {t : TaskId}
    (h : (hardware arch y).Reach (Sound arch y) s₀)
    (hok₀ : Sound arch y s₀ (.control a ret place))
    (hs₀ : (hardware arch y).step s₀ (.control a ret place) = some s₁)
    (hold : t ∉ s₀.control.rt.allTasks) (hnew : t ∈ s₁.control.rt.allTasks)
    (hp : (hardware arch y).Path (SoundWithout arch y (.task t)) s₁ s₂)
    (hok : SoundWithout arch y (.task t) s₂ b) (hs : (hardware arch y).step s₂ b = some s₃)
    (hon : s₃.control.workers v = .running t) :
    arch.Begins y (place (.task t)) (s₃.core v, s₃.mem) := by
  have hborn : Ctx.task t ∈ s₀.control.ctxBorn s₁.control :=
    List.mem_map_of_mem (List.mem_filter.mpr ⟨hnew, decide_eq_true hold⟩)
  obtain ⟨hfine, m, hpc, hreg⟩ := Cores.begins contexts_lawful h hok₀ hs₀ hborn hp hok.1 hok.2 hs
    (Sys.ctx_of_running hon)
  cases arch with
  | x86_64 => exact X64.ctxStart_spec hfine hpc hreg
  | aarch64 => exact Arm64.ctxStart_spec hfine hpc hreg


/-- A task is created, and later a worker starts it. -/
theorem context_begins_first : ∃ s₀ s₁ s₃ : Cores Sys Nat Ctx (Arch.Reg .aarch64),
    0 ∉ s₀.control.rt.allTasks ∧ 0 ∈ s₁.control.rt.allTasks ∧
    s₃.control.workers 0 = .running 0 ∧
    Arch.Begins loneSymbols taskPlace .aarch64 (s₃.core 0, s₃.mem) := by
  obtain ⟨z, hz, hp⟩ := reach_of_trace Sys.loneStep .poll [.api (.ext 0) (.go true 0 false)]
    (fun z => z.loneStep (.cont (.ext 0) {}) && decide (0 ∉ z.rt.allTasks) &&
      (machine.step z (.cont (.ext 0) {})).any fun (z₁ : Sys) => decide (0 ∈ z₁.rt.allTasks) &&
        (machine.replay (Sys.loneAway (.task 0)) z₁ (List.flatten [
          invoke (.ext 0) (.run 1 true) 2, works 0 2])).any fun (z₂ : Sys) =>
          z₂.loneAway (.task 0) (.worker 0 {}) &&
            (machine.step z₂ (.worker 0 {})).any fun (z₃ : Sys) => z₃.workers 0 == .running 0)
    (fun _ _ h => h) (by decide +kernel)
  simp only [Bool.and_eq_true, beq_iff_eq, Option.any_eq_true, decide_eq_true_eq] at hp
  obtain ⟨⟨hlone, hold⟩, z₁, hz₁, hnew, z₂, hrest, hlone₂, z₃, hz₃, hrun⟩ := hp
  obtain ⟨hr, s₀, hs₀, rfl, hplace⟩ := lone_reach hz
  obtain ⟨hok₀, s₁, hs₁, rfl, hplace₁⟩ := lone_step hr hplace hlone hz₁ 0
  obtain ⟨hr₂, s₂, hpath, rfl, hplace₂⟩ := lone_path (.step hr hok₀.1 hz₁) hplace₁
    (Machine.Path.refl.replay (fun _ _ h => h) hrest)
  have haway := lone_away hr₂ hlone₂
  simp only [Sys.loneAway, Bool.and_eq_true] at hlone₂
  obtain ⟨hok₂, s₃, hs₃, rfl, -⟩ := lone_step hr₂ hplace₂ hlone₂.1 hz₃ 0
  exact ⟨s₀, s₁, s₃, hold, hnew, hrun,
    context_begins hs₀ hok₀ hs₁ hold hnew hpath ⟨hok₂, haway⟩ hs₃ hrun⟩

end Microthread
