import Microthread.Foundation.Coroutines

/-!
# `context_asm.c` and `context_asm_macos.S`

The switch of contexts in assembly, for x86-64 and for AArch64: the instructions that it is
made of, what each does to the registers and the memory, and the preparation of a context
for its first entry. The code is straight, so an execution is a fold over a list; the address
that is executed matters at calls and returns only.

The registers are those that the calling conventions speak of: the general ones, and the
state of the floating-point unit that a callee has to keep. A null pointer is the word 0.
-/

namespace Microthread

open Foundation

/-- The addresses that the linker gives. -/
structure Symbols where
  ctxSwitchAsm : Word
  ctxStart : Word
  ctxEntry : Word
  /-- after the call in `mt_ctx_start`, where it traps -/
  trap : Word
  taskEntry : Word
  taskEntry_ne : taskEntry ≠ 0

def alignDown (value alignment : Word) : Word := value &&& ~~~(alignment - 1)

/-- `memset(ctx, 0, size)` -/
def zeroed (r : Extent) (m : ByteMemory) : ByteMemory := fun x => if r.Has x then 0 else m x

/-- The checks of `mt_ctx_make`, before it calls for the rest. -/
def ctxMakeWith (size : Nat) (fill : ByteMemory → ByteMemory) (ctx stack : Word) (stackSize : Nat)
    (entry : Word) (m : ByteMemory) : Int × ByteMemory :=
  if ctx = 0 ∨ stack = 0 ∨ stackSize < 64 ∨ entry = 0 then (-1, m)
  else (0, fill (zeroed ⟨ctx, size⟩ m))

/-! ## x86-64 -/

namespace X64

inductive Reg where
  | rax | rcx | rdx | rbx | rsp | rbp | rsi | rdi
  | r8 | r9 | r10 | r11 | r12 | r13 | r14 | r15
  /-- the control bits of the floating-point units -/
  | mxcsr | x87cw
  deriving DecidableEq, Repr

inductive Instr where
  /-- `movq %src, off(%base)` -/
  | store (src : Reg) (off : Nat) (base : Reg)
  /-- `movq off(%base), %dst` -/
  | load (off : Nat) (base dst : Reg)
  /-- `movq %src, %dst` -/
  | mov (src dst : Reg)
  /-- `subq $imm, %dst` -/
  | sub (imm : Nat) (dst : Reg)
  /-- `callq target`, with the address after it -/
  | call (target ret : Word)
  | ret
  deriving DecidableEq, Repr

abbrev State := Core Reg × ByteMemory

def State.set (s : State) (r : Reg) (v : Word) : State :=
  ({ s.1 with reg := Function.update s.1.reg r v }, s.2)

def step (s : State) : Instr → State
  | .store src off base => (s.1, writeWord s.2 (s.1.reg base + BitVec.ofNat 64 off) (s.1.reg src))
  | .load off base dst => s.set dst (readWord s.2 (s.1.reg base + BitVec.ofNat 64 off))
  | .mov src dst => s.set dst (s.1.reg src)
  | .sub imm dst => s.set dst (s.1.reg dst - BitVec.ofNat 64 imm)
  | .call target ret =>
    let sp := s.1.reg .rsp - 8
    (⟨Function.update s.1.reg .rsp sp, target⟩, writeWord s.2 sp ret)
  | .ret =>
    let sp := s.1.reg .rsp
    (⟨Function.update s.1.reg .rsp (sp + 8), readWord s.2 sp⟩, s.2)

def exec (s : State) (code : List Instr) : State := code.foldl step s

def ctxSwitchAsm : List Instr := [
  .store .rsp 0 .rdi, .store .r15 8 .rdi, .store .r14 16 .rdi, .store .r13 24 .rdi,
  .store .r12 32 .rdi, .store .rbx 40 .rdi, .store .rbp 48 .rdi,
  .load 0 .rsi .rsp, .load 8 .rsi .r15, .load 16 .rsi .r14, .load 24 .rsi .r13,
  .load 32 .rsi .r12, .load 40 .rsi .rbx, .load 48 .rsi .rbp, .ret]

def ctxStart (y : Symbols) : List Instr :=
  [.sub 8 .rsp, .mov .r12 .rdi, .mov .r13 .rsi, .call y.ctxEntry y.trap]

/-- `mt_ctx_switch`, called with a return address: the arguments go to `rdi` and `rsi`. -/
def ctxSwitch (y : Symbols) (src dst ret : Word) (c : Core Reg) (m : ByteMemory) : State :=
  exec ((State.set (c, m) .rdi src).set .rsi dst) (.call y.ctxSwitchAsm ret :: ctxSwitchAsm)

/-- `mt_context_t` -/
def context : Saving Reg where
  sp := .rsp
  link := none
  slots := [(.rsp, 0), (.r15, 8), (.r14, 16), (.r13, 24), (.r12, 32), (.rbx, 40), (.rbp, 48)]
  size := 56
  order := by decide
  inside := by decide
  size_lt := by decide
  sp_slot := ⟨0, by decide⟩
  link_slot := fun _ h => nomatch h

/-- The registers of the arguments, which the call writes. -/
def argRegs : List Reg := [.rdi, .rsi]

/-- The general registers that a call keeps by the calling convention. -/
def general : List Reg := [.rsp, .rbx, .rbp, .r12, .r13, .r14, .r15]

/-- What else a call keeps by the calling convention. -/
def float : List Reg := [.mxcsr, .x87cw]

def ctxMake (y : Symbols) (ctx stack : Word) (stackSize : Nat) (entry arg : Word)
    (m : ByteMemory) : Int × ByteMemory :=
  ctxMakeWith 56 (fun m =>
      let top := alignDown (stack + BitVec.ofNat 64 stackSize) 16
      let sp := top - 16
      let m := writeWord m sp y.ctxStart
      let m := writeWord m (ctx + .ofNat 64 0) sp
      let m := writeWord m (ctx + .ofNat 64 32) entry
      writeWord m (ctx + .ofNat 64 24) arg)
    ctx stack stackSize entry m

end X64

/-! ## AArch64 -/

namespace Arm64

inductive Reg where
  | x (n : Fin 31)
  | sp
  /-- the lower halves of the vector registers -/
  | d (n : Fin 32)
  deriving DecidableEq, Repr

inductive Instr where
  /-- `mov dst, src` -/
  | mov (dst src : Reg)
  /-- `str src, [base, #off]` -/
  | str (src base : Reg) (off : Nat)
  /-- `stp src, src', [base, #off]` -/
  | stp (src src' base : Reg) (off : Nat)
  /-- `ldr dst, [base, #off]` -/
  | ldr (dst base : Reg) (off : Nat)
  /-- `ldp dst, dst', [base, #off]` -/
  | ldp (dst dst' base : Reg) (off : Nat)
  /-- `bl target`, with the address after it -/
  | bl (target ret : Word)
  | ret
  deriving DecidableEq, Repr

abbrev State := Core Reg × ByteMemory

def State.set (s : State) (r : Reg) (v : Word) : State :=
  ({ s.1 with reg := Function.update s.1.reg r v }, s.2)

def step (s : State) : Instr → State
  | .mov dst src => s.set dst (s.1.reg src)
  | .str src base off => (s.1, writeWord s.2 (s.1.reg base + BitVec.ofNat 64 off) (s.1.reg src))
  | .stp src src' base off =>
    let m := writeWord s.2 (s.1.reg base + BitVec.ofNat 64 off) (s.1.reg src)
    (s.1, writeWord m (s.1.reg base + BitVec.ofNat 64 (off + 8)) (s.1.reg src'))
  | .ldr dst base off => s.set dst (readWord s.2 (s.1.reg base + BitVec.ofNat 64 off))
  | .ldp dst dst' base off =>
    (s.set dst (readWord s.2 (s.1.reg base + BitVec.ofNat 64 off))).set dst'
      (readWord s.2 (s.1.reg base + BitVec.ofNat 64 (off + 8)))
  | .bl target ret => (⟨Function.update s.1.reg (.x 30) ret, target⟩, s.2)
  | .ret => (⟨s.1.reg, s.1.reg (.x 30)⟩, s.2)

def exec (s : State) (code : List Instr) : State := code.foldl step s

def ctxSwitchAsm : List Instr := [
  .mov (.x 9) .sp, .str (.x 9) (.x 0) 0, .stp (.x 19) (.x 20) (.x 0) 8,
  .stp (.x 21) (.x 22) (.x 0) 24, .stp (.x 23) (.x 24) (.x 0) 40, .stp (.x 25) (.x 26) (.x 0) 56,
  .stp (.x 27) (.x 28) (.x 0) 72, .stp (.x 29) (.x 30) (.x 0) 88,
  .ldr (.x 9) (.x 1) 0, .ldp (.x 19) (.x 20) (.x 1) 8, .ldp (.x 21) (.x 22) (.x 1) 24,
  .ldp (.x 23) (.x 24) (.x 1) 40, .ldp (.x 25) (.x 26) (.x 1) 56, .ldp (.x 27) (.x 28) (.x 1) 72,
  .ldp (.x 29) (.x 30) (.x 1) 88, .mov .sp (.x 9), .ret]

def ctxStart (y : Symbols) : List Instr :=
  [.mov (.x 0) (.x 19), .mov (.x 1) (.x 20), .bl y.ctxEntry y.trap]

/-- `mt_ctx_switch`, called with a return address: the arguments go to `x0` and `x1`. -/
def ctxSwitch (y : Symbols) (src dst ret : Word) (c : Core Reg) (m : ByteMemory) : State :=
  exec ((State.set (c, m) (.x 0) src).set (.x 1) dst) (.bl y.ctxSwitchAsm ret :: ctxSwitchAsm)

/-- `mt_context_t` -/
def context : Saving Reg where
  sp := .sp
  link := some (.x 30)
  slots := [(.sp, 0), (.x 19, 8), (.x 20, 16), (.x 21, 24), (.x 22, 32), (.x 23, 40), (.x 24, 48),
    (.x 25, 56), (.x 26, 64), (.x 27, 72), (.x 28, 80), (.x 29, 88), (.x 30, 96)]
  size := 104
  order := by decide
  inside := by decide
  size_lt := by decide
  sp_slot := ⟨0, by decide⟩
  link_slot := fun l h => by
    cases h
    exact ⟨by decide, 96, by decide⟩

/-- The registers of the arguments, and the one through which the stack pointer goes. -/
def argRegs : List Reg := [.x 0, .x 1, .x 9]

/-- The general registers that a call keeps by the calling convention. -/
def general : List Reg :=
  [.sp, .x 19, .x 20, .x 21, .x 22, .x 23, .x 24, .x 25, .x 26, .x 27, .x 28, .x 29]

/-- What else a call keeps by the calling convention. -/
def float : List Reg := [.d 8, .d 9, .d 10, .d 11, .d 12, .d 13, .d 14, .d 15]

def ctxMake (y : Symbols) (ctx stack : Word) (stackSize : Nat) (entry arg : Word)
    (m : ByteMemory) : Int × ByteMemory :=
  ctxMakeWith 104 (fun m =>
      let top := alignDown (stack + BitVec.ofNat 64 stackSize) 16
      let m := writeWord m (ctx + .ofNat 64 0) top
      let m := writeWord m (ctx + .ofNat 64 8) entry
      let m := writeWord m (ctx + .ofNat 64 16) arg
      writeWord m (ctx + .ofNat 64 96) y.ctxStart)
    ctx stack stackSize entry m

end Arm64

end Microthread
