import Microthread.Model.Waiting

/-!
# Descriptor waiters and the generation table

`io_backend.c` up to the backend waits, with the registration half of the epoll
and kqueue backends. The kernel's answers to `epoll_ctl` and `kevent` beyond
those its interest set and its filters decide are read from the tape.
-/

namespace Microthread

/-- `MT_FD_READ` and `MT_FD_WRITE` -/
def fdRead : Nat := 1
def fdWrite : Nat := 2

/-- `EPOLLIN`, `EPOLLOUT`, `EPOLLERR` and `EPOLLHUP`, the same bits as poll's. -/
def pollIn : Nat := 1
def pollOut : Nat := 4
def pollErr : Nat := 8
def pollHup : Nat := 16
def pollNval : Nat := 32

inductive EpollOp where
  | add | mod | del
  deriving DecidableEq, Repr

namespace Rt

variable (s : Rt)

/-! ## The generation table -/

def fdGenerationFind (fd : Nat) : Option FdGeneration := s.fdGenerations.find? (·.fd == fd)

/-- Change the first entry for `fd`. -/
def modGeneration (fd : Nat) (f : FdGeneration → FdGeneration) : List FdGeneration → List FdGeneration
  | [] => []
  | g :: gs => if g.fd = fd then f g :: gs else g :: modGeneration fd f gs

def fdGenerationCurrent (fd : Nat) : Nat × Rt :=
  match s.fdGenerationFind fd with
  | some g => (g.generation, s)
  | none =>
    match s.ask with
    | (false, s) => (0, s)
    | (true, s) =>
      (1, { s with fdGenerations :=
        { fd := fd, generation := 1, originalFlags := -1 } :: s.fdGenerations })

def fdIsClosing (fd : Nat) : Bool :=
  match s.fdGenerationFind fd with
  | some g => g.closing
  | none => false

def fdSetClosing (fd : Nat) (closing : Bool) : Rc × Rt :=
  match s.fdGenerationFind fd with
  | some _ =>
    (.ok, { s with fdGenerations :=
      modGeneration fd (fun g => { g with closing := closing }) s.fdGenerations })
  | none =>
    match s.ask with
    | (false, s) => (.nomem, s)
    | (true, s) =>
      (.ok, { s with fdGenerations :=
        { fd := fd, generation := 1, closing := closing } :: s.fdGenerations })

def fdGenerationBump (fd : Nat) : Rt :=
  match s.fdGenerationFind fd with
  | some _ =>
    { s with fdGenerations := modGeneration fd (fun g =>
        let next := (g.generation + 1) % 2 ^ 64
        { g with generation := if next = 0 then 1 else next }) s.fdGenerations }
  | none =>
    match s.ask with
    | (false, s) => s
    | (true, s) =>
      { s with fdGenerations :=
        { fd := fd, generation := 2, originalFlags := -1 } :: s.fdGenerations }

def fdGenerationRemove (fd : Nat) : Bool × Rt :=
  match s.fdGenerationFind fd with
  | some _ => (true, { s with fdGenerations := s.fdGenerations.eraseP (·.fd == fd) })
  | none => (false, s)

/-! ## Registration with the backend -/

def fdWaiterIsActive (w : FdWaiterId) : Bool := (s.fdw w).state == .active

def fdWaiterReservesConflict (w : FdWaiterId) : Bool :=
  (s.fdw w).state == .active || (s.fdw w).state == .readyReserved

/-- Union of the interests of the active waiters of a descriptor. -/
def fdActiveEventsForFd (fd : Nat) (extraEvents : Nat) : Nat :=
  s.fdWaiters.foldl (fun active w =>
    if s.fdWaiterIsActive w && (s.fdw w).fd == fd then active ||| (s.fdw w).events else active)
    extraEvents

def epollEventsFromFdEvents (events : Nat) : Nat :=
  pollErr ||| pollHup ||| (if events &&& fdRead ≠ 0 then pollIn else 0) |||
    (if events &&& fdWrite ≠ 0 then pollOut else 0)

/-- The kernel refuses to add an entry twice and to change or delete a missing
one; adding can also fail for reasons outside the runtime. -/
def epollCtl (op : EpollOp) (fd mask : Nat) : Bool × Rt :=
  match op, s.interest fd with
  | .add, none =>
    match s.ask with
    | (true, s) => (true, { s with interest := Function.update s.interest fd (some mask) })
    | (false, s) => (false, s)
  | .mod, some _ => (true, { s with interest := Function.update s.interest fd (some mask) })
  | .del, some _ => (true, { s with interest := Function.update s.interest fd none })
  | _, _ => (false, s)

/-- A descriptor is closed: the kernel forgets what the back end watched there. -/
abbrev kernelForgets (fd : Nat) : Rt :=
  { s with
    interest := Function.update s.interest fd none
    filters := Function.update s.filters fd fun _ => false }

/-- The code for a failed registration; `errno` tells a bad descriptor apart. -/
def registerError : Rc × Rt :=
  match s.ask with
  | (true, s) => (.backend, s)
  | (false, s) => (.invalid, s)

def epollBackendAdd (w : FdWaiterId) : Rc × Rt :=
  let previous := s.fdActiveEventsForFd (s.fdw w).fd 0
  let combined := previous ||| (s.fdw w).events
  match s.epollCtl (if previous ≠ 0 then .mod else .add) (s.fdw w).fd
      (epollEventsFromFdEvents combined) with
  | (true, s) => (.ok, s)
  | (false, s) => s.registerError

def epollBackendRemove (w : FdWaiterId) : Rt :=
  let remaining := s.fdActiveEventsForFd (s.fdw w).fd 0
  if remaining ≠ 0 then
    (s.epollCtl .mod (s.fdw w).fd (epollEventsFromFdEvents remaining)).2
  else (s.epollCtl .del (s.fdw w).fd 0).2

/-- The filters that a change list names, in its order. -/
def kqueueChanges (events : Nat) : List Nat :=
  (if events &&& fdRead ≠ 0 then [fdRead] else []) ++
    (if events &&& fdWrite ≠ 0 then [fdWrite] else [])

/-- `EV_ADD`: the filter is there, whether it has been before or not. -/
def addFilter (fd : Nat) (filters : Nat → Nat → Bool) (filter : Nat) : Nat → Nat → Bool :=
  Function.update filters fd (Function.update (filters fd) filter true)

/-- A `kevent` call that adds filters. The kernel goes through the list up to the first change
that it refuses, and does not take back those before. -/
def keventAdd (fd : Nat) : List Nat → Rt → Bool × Rt
  | [], s => (true, s)
  | filter :: rest, s =>
    match s.ask with
    | (true, s) => keventAdd fd rest { s with filters := addFilter fd s.filters filter }
    | (false, s) => (false, s)

/-- A `kevent` call that deletes filters. The kernel refuses to delete one that is not there. -/
def keventDelete (fd : Nat) (filters : Nat → Nat → Bool) : List Nat → Nat → Nat → Bool
  | [] => filters
  | filter :: rest =>
    if filters fd filter then
      keventDelete fd (Function.update filters fd (Function.update (filters fd) filter false)) rest
    else filters

def kqueueBackendAdd (w : FdWaiterId) : Rc × Rt :=
  match keventAdd (s.fdw w).fd (kqueueChanges (s.fdw w).events) s with
  | (true, s) => (.ok, s)
  | (false, s) => s.registerError

def kqueueBackendRemove (w : FdWaiterId) : Rt :=
  { s with filters := keventDelete (s.fdw w).fd s.filters (kqueueChanges (s.fdw w).events) }

def ioBackendAdd (w : FdWaiterId) : Rc × Rt :=
  match s.ioBackendKind with
  | .epoll => s.epollBackendAdd w
  | .kqueue => s.kqueueBackendAdd w
  | _ => (.ok, s)

def ioBackendRemove (w : FdWaiterId) : Rt :=
  match s.ioBackendKind with
  | .epoll => s.epollBackendRemove w
  | .kqueue => s.kqueueBackendRemove w
  | _ => s

/-! ## Waiters -/

def fdWaiterConflicts (fd events : Nat) : Bool :=
  s.fdWaiters.any fun w =>
    s.fdWaiterReservesConflict w && (s.fdw w).fd == fd && ((s.fdw w).events &&& events) != 0

def fdWaiterUnlink (w : FdWaiterId) : Rt := { s with fdWaiters := s.fdWaiters.erase w }

def fdWaiterDeactivate (w : FdWaiterId) (keepConflictReserved : Bool) : Bool × Rt :=
  let wasActive := s.fdWaiterIsActive w
  let kept := if keepConflictReserved then FdWaiterState.readyReserved else .removed
  let s := if wasActive then
      let s := (s.modFdw w fun x => { x with state := kept }).ioBackendRemove w
      { s with fdWaitingCount := s.fdWaitingCount - 1 }.guarded s.fdWaitingCount
    else s
  let s := s.modFdw w fun x => { x with state := kept }
  (wasActive, if keepConflictReserved then s else s.fdWaiterUnlink w)

def fdWaiterAdd (w : FdWaiterId) : Rc × Rt :=
  match s.ioBackendAdd w with
  | (.ok, s) =>
    let s := s.modFdw w fun x => { x with state := .active }
    (.ok, { s with fdWaiters := w :: s.fdWaiters, fdWaitingCount := s.fdWaitingCount + 1 })
  | (rc, s) => (rc, s)

def fdWaiterRemove (w : FdWaiterId) : Bool × Rt := s.fdWaiterDeactivate w false

def fdFreeWaiter (w : FdWaiterId) : Rt := (s.fdWaiterRemove w).2.free (.fdWaiter w)

def fdReadyWaiter (w : FdWaiterId) (result : Rc) (readyEvents : Nat) : Rt :=
  let t := (s.fdw w).task
  let s := (s.fdWaiterDeactivate w true).2
  let s := if (s.task t).fdInTimer then
      (s.timerRemove t).2.modTask t fun k => { k with fdInTimer := false }
    else s
  let s := s.modTask t fun k => { k with fdResult := result, fdReadyEvents := readyEvents }
  if (s.task t).state = .waitingFd then s.taskMarkReady t else s

def fdTimeoutReady (t : TaskId) : Rt :=
  let s := s.modTask t fun k => { k with fdInTimer := false }
  let s := match (s.task t).fdWaiter with
    | some w => (s.fdWaiterDeactivate w true).2
    | none => s
  (s.modTask t fun k => { k with fdResult := .timeout, fdReadyEvents := 0 }).taskMarkReady t

/-- The waiter that an event on `fd` completes. A waiter of an older generation
is completed with `MT_ERR_CLOSED` on the way and ends the search. -/
def fdFindWaiter (fd readyEvents : Nat) : Option FdWaiterId × Rt :=
  match s.fdWaiters.find? fun w =>
      s.fdWaiterIsActive w && (s.fdw w).fd == fd && ((s.fdw w).events &&& readyEvents) != 0 with
  | none => (none, s)
  | some w =>
    match s.fdGenerationCurrent fd with
    | (gen, s) =>
      if (s.fdw w).generation = gen then (some w, s) else (none, s.fdReadyWaiter w .closed 0)

/-- Ready every waiter of the list that is active and selected. -/
def fdWakeSelected (pick : FdWaiter → Bool) (result : Rc) (ws : List FdWaiterId) : Rt :=
  ws.foldl (fun s w =>
    if s.fdWaiterIsActive w && pick (s.fdw w) then s.fdReadyWaiter w result 0 else s) s

def fdWakeAll (result : Rc) : Rt := s.fdWakeSelected (fun _ => true) result s.fdWaiters

def fdWakeForClose (fd : Nat) : Rt :=
  let s := s.fdGenerationBump fd
  s.fdWakeSelected (·.fd == fd) .closed s.fdWaiters

end Rt

end Microthread
