import Microthread.Model.Links
import Microthread.Model.Task

/-!
# `stack.c`

The sizes and addresses of the stacks of tasks, in `size_t` arithmetic. The page size and
the answers of `mmap`, `malloc` and `mprotect` are parameters. The fibers of Windows bring
their own stacks and are not part of this.
-/

namespace Microthread

inductive StackAllocKind where
  | none | mmap | malloc
  deriving DecidableEq, Repr

/-- `mt_stack_t`; a null pointer is `none`. -/
structure Stack where
  mapping : Option Nat := none
  mappingSize : Nat := 0
  usable : Option Nat := none
  usableSize : Nat := 0
  guardSize : Nat := 0
  allocKind : StackAllocKind := .none
  deriving DecidableEq, Repr

/-- With a guard page below the stack, or built with `MT_DISABLE_GUARD_PAGES`. -/
inductive GuardPages where
  | enabled | disabled
  deriving DecidableEq, Repr

/-- What the operating system answers: an address for a mapping that it grants, and whether
the guard page could be protected. -/
structure StackAnswers where
  address : Option Nat
  protectOk : Bool
  deriving DecidableEq, Repr

namespace Stack

def roundUp (value align : Nat) : Nat :=
  if align = 0 then value
  else
    let rem := value % align
    if rem = 0 then value else sizeAdd value (align - rem)

/-- `mmap` grants no mapping of length zero. -/
def mmap (os : StackAnswers) (length : Nat) : Option Nat := if length = 0 then none else os.address

/-- `malloc` may answer with an address for any length. -/
def malloc (os : StackAnswers) (_length : Nat) : Option Nat := os.address

/-- `mt_stack_alloc` for a record that is there. -/
def stackAlloc (guards : GuardPages) (page : Nat) (os : StackAnswers) (requestedSize : Nat) :
    Rc × Stack :=
  let requestedSize := if requestedSize = 0 then defaultStackSizeBytes else requestedSize
  if requestedSize < minStackSizeBytes then (.invalid, {})
  else
    let usable := roundUp requestedSize page
    match guards with
    | .disabled =>
      let total := usable
      match malloc os total with
      | none => (.nomem, {})
      | some mapping =>
        (.ok, { mapping := some mapping, mappingSize := total, usable := some mapping
                usableSize := usable, guardSize := 0, allocKind := .malloc })
    | .enabled =>
      let guard := page
      let total := sizeAdd usable guard
      match mmap os total with
      | none => (.nomem, {})
      | some mapping =>
        if os.protectOk then
          (.ok, { mapping := some mapping, mappingSize := total, usable := some (mapping + guard)
                  usableSize := usable, guardSize := guard, allocKind := .mmap })
        else (.err, {})

end Stack

end Microthread
