import Microthread.Foundation.Machine
import Microthread.Model.Channel
import Microthread.Model.Links

/-!
# The channel buffer in `size_t` arithmetic

`mt_chan_buffer_push` and `mt_chan_buffer_pop` once more, with every sum and product of
the source taken modulo `2 ^ 64` and with `memcpy` failing where it would leave the block
that `mt_chan_create` has allocated. The rest of the model works with the ring of
`Foundation.RingBuffer`.
-/

namespace Microthread

open Foundation

namespace ChanBuffer

/-- The sizes that `mt_chan_create` accepts. -/
def accepts (elemSize capacity : Nat) : Bool :=
  !(decide (elemSize = 0) || (decide (capacity > 0) && decide (elemSize > sizeMax / capacity)))

/-- The ring of a new channel. -/
def create (elemSize capacity : Nat) : RingBuffer Byte :=
  { elemSize := elemSize, capacity := capacity
    buffer := List.replicate (sizeMul elemSize capacity) 0 }

/-- `memcpy` into a block. -/
def copyIn (block : List Byte) (off : Nat) (value : List Byte) : Option (List Byte) :=
  if off + value.length ≤ block.length then some (RingBuffer.overwrite block off value) else none

/-- `memcpy` out of a block. -/
def copyOut (block : List Byte) (off n : Nat) : Option (List Byte) :=
  if off + n ≤ block.length then some (RingBuffer.slice block off n) else none

def chanBufferPush (ch : RingBuffer Byte) (value : List Byte) : Option (RingBuffer Byte) :=
  (copyIn ch.buffer (sizeMul ch.tail ch.elemSize) value).map fun buffer =>
    { ch with
      buffer := buffer
      tail := sizeAdd ch.tail 1 % ch.capacity
      len := sizeAdd ch.len 1 }

def chanBufferPop (ch : RingBuffer Byte) : Option (List Byte × RingBuffer Byte) :=
  (copyOut ch.buffer (sizeMul ch.head ch.elemSize) ch.elemSize).map fun value =>
    (value, { ch with head := sizeAdd ch.head 1 % ch.capacity, len := sizeDec ch.len })

inductive Op where
  | push (value : List Byte)
  | pop
  deriving DecidableEq, Repr

/-- A buffer with what has been copied into and out of it so far. -/
structure Session where
  ch : RingBuffer Byte
  pushed : List (List Byte) := []
  popped : List (List Byte) := []
  deriving DecidableEq, Repr

/-- The callers push `elem_size` bytes when there is room, and pop when there is something. -/
def Allowed (s : Session) : Op → Prop
  | .push value => value.length = s.ch.elemSize ∧ s.ch.len < s.ch.capacity
  | .pop => 0 < s.ch.len

instance (s : Session) (op : Op) : Decidable (Allowed s op) := by
  induction op using Op.casesOn with
  | push value => exact inferInstanceAs (Decidable (_ ∧ _))
  | pop => exact inferInstanceAs (Decidable (_ < _))

def step (s : Session) : Op → Option Session
  | .push value => (chanBufferPush s.ch value).map fun ch =>
      { s with ch := ch, pushed := s.pushed ++ [value] }
  | .pop => (chanBufferPop s.ch).map fun (value, ch) =>
      { s with ch := ch, popped := s.popped ++ [value] }

/-- All sequences of the two operations on the buffer of a new channel. -/
def machine (elemSize capacity : Nat) : Machine Session Op where
  init s := s = { ch := create elemSize capacity }
  step := step

end ChanBuffer

end Microthread
