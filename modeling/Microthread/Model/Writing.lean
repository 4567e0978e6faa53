import Microthread.Model.Io

/-!
# The write loops

`mt_fd_write` and `mt_net_write` with the bytes they move. A run of a loop reads one
`Round` per system call: what the operating system answered, and what the wait that
follows a refusal returned. A tape that ends before the loop does gives no result.
-/

namespace Microthread.Io

/-- `errno`, as far as `io.c` tells its values apart. -/
inductive Errno where
  | eintr | eagain | ewouldblock | ebadf | other
  deriving DecidableEq, Repr

/-- Answer of `write` or `send`. -/
inductive WriteAnswer where
  /-- the call takes this many of the bytes offered, or all if there are fewer -/
  | takes (n : Nat)
  | failed (err : Errno)
  deriving DecidableEq, Repr

/-- What one iteration of a write loop meets. -/
structure Round where
  answer : WriteAnswer
  /-- the clock of `mt_timeout_left_ms`, if the iteration waits -/
  nowNs : Nat := 0
  /-- `mt_fd_wait_write` as a function of the milliseconds it may take -/
  waitWrite : Nat → Rc := fun _ => .ok

/-- What a write loop leaves: its result, the bytes the operating system accepted, and
the rounds it did not use. -/
structure Written where
  result : Int
  accepted : List Byte
  rest : List Round

/-- `SSIZE_MAX` -/
def ssizeMax : Nat := 2 ^ 63 - 1

/-- The cast of a `size_t` to `ssize_t`. -/
def toSsize (n : Nat) : Int := Int.bmod n (2 ^ 64)

/-- `mt_io_error_from_errno` -/
def ioErrorFromErrno (invalidIfEbadf : Bool) (err : Errno) : Rc :=
  if invalidIfEbadf ∧ err = .ebadf then .invalid else .io

/-- The system call on the bytes offered: its value, and the bytes it accepted. -/
def osWrite (offered : List Byte) : WriteAnswer → Int × List Byte
  | .takes n => ((offered.take n).length, offered.take n)
  | .failed _ => (-1, [])

/-- `errno` after the system call; a call that succeeded leaves it to no use. -/
def WriteAnswer.errno : WriteAnswer → Errno
  | .takes _ => .other
  | .failed err => err

/-- The loop of `mt_fd_write`. -/
def fdWriteLoop (p : List Byte) (len deadlineNs : Nat) :
    (total : Nat) → (accepted : List Byte) → List Round → Option Written
  | total, accepted, [] =>
    if total < len then none else some ⟨toSsize total, accepted, []⟩
  | total, accepted, round :: rounds =>
    if total < len then
      match osWrite ((p.drop total).take (len - total)) round.answer with
      | (n, taken) =>
        if n > 0 then
          fdWriteLoop p len deadlineNs ((total + n.toNat) % 2 ^ 64) (accepted ++ taken) rounds
        else if n = 0 then fdWriteLoop p len deadlineNs total accepted rounds
        else if round.answer.errno = .eintr then
          fdWriteLoop p len deadlineNs total accepted rounds
        else if round.answer.errno ≠ .eagain ∧ round.answer.errno ≠ .ewouldblock then
          let rc := ioErrorFromErrno true round.answer.errno
          some ⟨if total > 0 then toSsize total else rc.toInt, accepted, rounds⟩
        else
          let leftMs := timeoutLeftMs deadlineNs round.nowNs
          let rc := round.waitWrite leftMs
          if rc ≠ .ok then
            some ⟨if total > 0 then toSsize total else rc.toInt, accepted, rounds⟩
          else fdWriteLoop p len deadlineNs total accepted rounds
    else some ⟨toSsize total, accepted, round :: rounds⟩

/-- `mt_fd_write`; `nbRc` is the result of its `mt_fd_adopt` and `nowNs` the clock its
deadline is taken from. -/
def fdWrite (fd : Int) (buf : Option (List Byte)) (len timeoutMs : Nat) (nbRc : Rc)
    (nowNs : Nat) (rounds : List Round) : Option Written :=
  if fd < 0 ∨ (buf = none ∧ len > 0) then some ⟨Rc.invalid.toInt, [], rounds⟩
  else if len = 0 then some ⟨0, [], rounds⟩
  else if nbRc ≠ .ok then some ⟨nbRc.toInt, [], rounds⟩
  else
    fdWriteLoop (buf.getD []) len (Rt.deadlineFromTimeout nowNs timeoutMs) 0 [] rounds

/-- The loop of `mt_net_write`, which the source spells out again with `send`. -/
def netWriteLoop (p : List Byte) (len deadlineNs : Nat) :
    (total : Nat) → (accepted : List Byte) → List Round → Option Written
  | total, accepted, [] =>
    if total < len then none else some ⟨toSsize total, accepted, []⟩
  | total, accepted, round :: rounds =>
    if total < len then
      -- `send` with `MSG_NOSIGNAL`; the flag changes no answer
      match osWrite ((p.drop total).take (len - total)) round.answer with
      | (n, taken) =>
        if n > 0 then
          netWriteLoop p len deadlineNs ((total + n.toNat) % 2 ^ 64) (accepted ++ taken) rounds
        else if n = 0 then netWriteLoop p len deadlineNs total accepted rounds
        else if round.answer.errno = .eintr then
          netWriteLoop p len deadlineNs total accepted rounds
        else if round.answer.errno ≠ .eagain ∧ round.answer.errno ≠ .ewouldblock then
          let rc := ioErrorFromErrno true round.answer.errno
          some ⟨if total > 0 then toSsize total else rc.toInt, accepted, rounds⟩
        else
          let leftMs := timeoutLeftMs deadlineNs round.nowNs
          let rc := round.waitWrite leftMs
          if rc ≠ .ok then
            some ⟨if total > 0 then toSsize total else rc.toInt, accepted, rounds⟩
          else netWriteLoop p len deadlineNs total accepted rounds
    else some ⟨toSsize total, accepted, round :: rounds⟩

/-- `mt_net_write`; the outcome of its `setsockopt` is ignored. -/
def netWrite (fd : Int) (buf : Option (List Byte)) (len timeoutMs : Nat) (nbRc : Rc)
    (nowNs : Nat) (rounds : List Round) : Option Written :=
  if fd < 0 ∨ (buf = none ∧ len > 0) then some ⟨Rc.invalid.toInt, [], rounds⟩
  else if len = 0 then some ⟨0, [], rounds⟩
  else if nbRc ≠ .ok then some ⟨nbRc.toInt, [], rounds⟩
  else
    netWriteLoop (buf.getD []) len (Rt.deadlineFromTimeout nowNs timeoutMs) 0 [] rounds

end Microthread.Io
