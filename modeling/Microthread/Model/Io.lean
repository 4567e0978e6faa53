import Microthread.Model.Task

/-!
# Descriptor operations and backend dispatch

The locked sections of `io.c` and the dispatch loops of the three backends. A
system call made between two sections is represented by its result, an argument
of the section that uses it. Dispatch works on the batch that the backend wait
collected while the lock was released.
-/

namespace Microthread

/-- `O_NONBLOCK` -/
def oNonblock : Nat := 2048

/-- Result of the immediate `poll` of `mt_fd_wait`. -/
inductive PollResult where
  /-- `poll` failed; `true` for a bad descriptor -/
  | failed (ebadf : Bool)
  /-- `revents`, zero when nothing is ready -/
  | revents (bits : Nat)
  deriving DecidableEq, Repr

/-- One ready entry of a backend batch. -/
structure ReadyEvent where
  fd : Nat
  /-- `revents` of poll, `events` of epoll; unused by kqueue -/
  bits : Nat := 0
  /-- kqueue: `EVFILT_READ`, `EVFILT_WRITE`, and `EV_EOF` or `EV_ERROR` -/
  filterRead : Bool := false
  filterWrite : Bool := false
  eofOrError : Bool := false
  /-- the opening of the number the entry was collected for; nothing decides on it -/
  inst : Option Nat := none
  deriving DecidableEq, Repr

/-- `mt_poll_revents_to_fd_events` and its epoll twin. -/
def revents2FdEvents (bits : Nat) : Nat :=
  (if bits &&& (pollIn ||| pollHup ||| pollErr) ≠ 0 then fdRead else 0) |||
    (if bits &&& (pollOut ||| pollHup ||| pollErr) ≠ 0 then fdWrite else 0)

/-- `mt_fd_events_to_poll` -/
def fdEvents2Poll (events : Nat) : Nat :=
  (if events &&& fdRead ≠ 0 then pollIn else 0) ||| (if events &&& fdWrite ≠ 0 then pollOut else 0)

/-- `mt_timeout_left_ms` -/
def timeoutLeftMs (deadlineNs nowNs : Nat) : Nat :=
  if deadlineNs ≤ nowNs then 0 else (deadlineNs - nowNs + nsPerMs - 1) % 2 ^ 64 / nsPerMs

def fdValidateEvents (events : Nat) : Bool := events != 0 && events ||| 3 == 3

namespace Rt

variable (s : Rt)

/-! ## `io.c` -/

/-- `mt_fd_adopt` after its `fcntl` calls, which found the status flags `flags`. -/
def fdAdopt (fd : Nat) (flags : Nat) : Rc × Rt :=
  if s.fdIsClosing fd then (.closed, s)
  else
    match s.fdGenerationCurrent fd with
    | (0, s) => (.nomem, s)
    | (_, s) =>
      match s.fdGenerationFind fd with
      | some g =>
        if g.adopted then (.ok, s)
        else (.ok, { s with fdGenerations := modGeneration fd (fun g =>
          { g with adopted := true, originalFlags := flags }) s.fdGenerations })
      | none => (.ok, s)

/-- The locked section of `mt_fd_release`: a refusal, or the flags to restore. -/
def fdRelease (fd : Nat) : Rc × Int × Rt :=
  if s.fdIsClosing fd || s.fdWaiterConflicts fd (fdRead ||| fdWrite) then (.state, -1, s)
  else
    let restoreFlags := match s.fdGenerationFind fd with
      | some g => if g.adopted then g.originalFlags else -1
      | none => -1
    (.ok, restoreFlags, (s.fdGenerationRemove fd).2)

/-- Register the filled waiter of `mt_fd_wait` and park on it. -/
def fdWaitRegister (t : TaskId) (w : FdWaiterId) (timeoutMs nowNs : Nat) : Outcome × Rt :=
  match s.fdWaiterAdd w with
  | (.ok, s) =>
    match s.timerPushState t (deadlineFromTimeout nowNs timeoutMs) .waitingFd with
    | (.ok, s) => (.park, s.modTask t fun k => { k with fdInTimer := true })
    | (_, s) =>
      let s := (s.fdWaiterRemove w).2
      (.ret .nomem, (s.modTask t fun k => { k with fdWaiter := none }).fdFreeWaiter w)
  | (rc, s) => (.ret rc, (s.modTask t fun k => { k with fdWaiter := none }).fdFreeWaiter w)

/-- Allocate, fill and register the waiter of `mt_fd_wait`. -/
def fdWaitPark (t : TaskId) (fd events timeoutMs nowNs : Nat) (inst : Option Nat) :
    Outcome × Rt :=
  match s.ask with
  | (false, s) => (.ret .nomem, s)
  | (true, s) =>
    let (w, s) := s.alloc .fdWaiter
    let (gen, s) := s.fdGenerationCurrent fd
    let s := s.modFdw w fun _ =>
      { task := t, fd := fd, events := events, generation := gen, inst := inst }
    let s := s.modTask t fun k =>
      { k with fdWaiter := some w, fdResult := .ok, fdReadyEvents := 0, fdInTimer := false }
    s.fdWaitRegister t w timeoutMs nowNs

/-- What the immediate poll of `mt_fd_wait` stores in `*ready_events`. -/
def fdWaitReady (events bits : Nat) : Nat :=
  let ready := revents2FdEvents bits &&& events
  if bits &&& pollNval = 0 ∧ ready = 0 ∧ bits &&& (pollErr ||| pollHup) ≠ 0 then events else ready

/-- The first section of `mt_fd_wait`, with the answer of its immediate poll.
The number is the value left in `*ready_events`. -/
def fdWait (t : TaskId) (fd events timeoutMs nowNs : Nat) (poll : PollResult)
    (inst : Option Nat) : Outcome × Nat × Rt :=
  if s.fdIsClosing fd then (.ret .closed, 0, s)
  else if s.fdWaiterConflicts fd events then (.ret .state, 0, s)
  else
    match poll with
    | .failed ebadf => (.ret (if ebadf then .invalid else .io), 0, s)
    | .revents bits =>
      if bits ≠ 0 then
        (.ret (if bits &&& pollNval ≠ 0 then .invalid else .ok), fdWaitReady events bits, s)
      else if timeoutMs = 0 then (.ret .timeout, 0, s)
      else
        match s.fdWaitPark t fd events timeoutMs nowNs inst with
        | (outcome, s) => (outcome, 0, s)

/-- The second section of `mt_fd_wait`, run by the resumed task: the result, the
value left in `*ready_events`, and the state without the waiter. -/
def fdWaitFinish (t : TaskId) (w : FdWaiterId) : Rc × Nat × Rt :=
  let rc := (s.task t).fdResult
  let ready := if rc = .ok then (s.task t).fdReadyEvents else 0
  let s := if (s.task t).fdWaiter = some w then s.modTask t fun k => { k with fdWaiter := none }
    else s
  (rc, ready, s.fdFreeWaiter w)

/-- The first section of `mt_fd_close`; `MT_OK` goes on to the OS `close`. -/
def fdCloseBegin (fd : Nat) : Rc × Rt :=
  if s.fdIsClosing fd then (.state, s)
  else
    match s.fdSetClosing fd true with
    | (.ok, s) => (.ok, s.fdWakeForClose fd)
    | (_, s) => (.nomem, s)

def fdCloseEnd (fd : Nat) : Rt := (s.fdSetClosing fd false).2

/-! ## Dispatch of a batch -/

/-- The entries that `mt_poll_backend_wait_locked` passes to `poll`: one for each active
waiter, with the events asked for. -/
def pollBackendEntries : List (Nat × Nat) :=
  (s.fdWaiters.filter s.fdWaiterIsActive).map fun w =>
    ((s.fdw w).fd, fdEvents2Poll (s.fdw w).events ||| pollErr ||| pollHup)

/-- The `POLLNVAL` loop; every iteration deactivates one waiter. -/
def fdInvalidateAll (fd : Nat) : Nat → Rt → Rt
  | 0, s => s
  | fuel + 1, s =>
    match s.fdFindWaiter fd (fdRead ||| fdWrite) with
    | (some w, s) => fdInvalidateAll fd fuel (s.fdReadyWaiter w .invalid 0)
    | (none, s) => s

/-- One entry of `mt_poll_backend_wait_locked`'s loop. -/
def pollBackendDispatch (e : ReadyEvent) : Rt :=
  if e.bits = 0 then s
  else if e.bits &&& pollNval ≠ 0 then fdInvalidateAll e.fd s.fdWaiters.length s
  else
    match s.fdFindWaiter e.fd (revents2FdEvents e.bits) with
    | (none, s) => s
    | (some w, s) =>
      let ready := revents2FdEvents e.bits &&& (s.fdw w).events
      s.fdReadyWaiter w .ok
        (if ready = 0 ∧ e.bits &&& (pollErr ||| pollHup) ≠ 0 then (s.fdw w).events else ready)

/-- The inner loop of `mt_epoll_backend_wait_locked`; an iteration clears at
least one of the two event bits. -/
def epollBackendDispatchLoop (e : ReadyEvent) : Nat → Nat → Rt → Rt
  | 0, _, s => s
  | fuel + 1, remaining, s =>
    if remaining = 0 then s
    else
      match s.fdFindWaiter e.fd remaining with
      | (none, s) => s
      | (some w, s) =>
        let wready := remaining &&& (s.fdw w).events
        let wready :=
          if wready = 0 ∧ e.bits &&& (pollErr ||| pollHup) ≠ 0 then (s.fdw w).events else wready
        epollBackendDispatchLoop e fuel (remaining &&& (3 ^^^ wready)) (s.fdReadyWaiter w .ok wready)

def epollBackendDispatch (e : ReadyEvent) : Rt :=
  epollBackendDispatchLoop e 3 (revents2FdEvents e.bits) s

/-- One entry of `mt_kqueue_backend_wait_locked`'s loop. -/
def kqueueBackendDispatch (e : ReadyEvent) : Rt :=
  let ready := if e.eofOrError then fdRead ||| fdWrite
    else if e.filterRead then fdRead else if e.filterWrite then fdWrite else 0
  match s.fdFindWaiter e.fd ready with
  | (none, s) => s
  | (some w, s) =>
    let ready := ready &&& (s.fdw w).events
    s.fdReadyWaiter w .ok (if ready = 0 then (s.fdw w).events else ready)

def backendDispatch (batch : List ReadyEvent) : Rt :=
  match s.ioBackendKind with
  | .none => s
  | .poll => batch.foldl pollBackendDispatch s
  | .epoll => batch.foldl epollBackendDispatch s
  | .kqueue => batch.foldl kqueueBackendDispatch s

end Rt

end Microthread
