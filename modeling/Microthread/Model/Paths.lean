import Microthread.Foundation.Locking

/-!
# The paths through the functions

What each function does with the runtime's mutex on each of its paths, where it switches and where
it may block. A condition of the source is a choice here, and a loop may end before any of its
rounds. The runtime is initialised and has threads, so `mt_lock` and `mt_unlock` are those of the
mutex. `fcntl`, `epoll_ctl`, a `poll` with timeout 0 and the wake pipe, which is not blocking, do
not count as calls that may block.
-/

namespace Microthread

open Foundation.Locking

/-- The calls of the operating system that may block. -/
inductive Blocking where
  /-- `poll`, `epoll_wait` or `kevent` of a back end -/
  | backendWait
  | condWait
  | nanosleep
  | pthreadJoin
  | close
  /-- `close` of the back end's own descriptors -/
  | closeBackend
  | getaddrinfo
  /-- `read`, `write`, `accept` or `send` on a descriptor -/
  | io
  deriving DecidableEq

abbrev Paths := Code Blocking

namespace Paths

open Code

def lock : Paths := .op .acquire

def unlock : Paths := .op .release

def block (call : Blocking) : Paths := .op (.block call)

/-- `mt_unlock(); return …;` -/
def unlockReturn : Paths := steps [unlock, .ret]

/-- `if (!mt_current_task()) { mt_unlock(); return …; }` -/
def needsTask : Paths := .onTask .skip unlockReturn

/-- `mt_ctx_switch(&task->ctx, mt_current_scheduler_ctx())` -/
def park : Paths := .op .park

/-- `do { … } while (… errno == EINTR)` -/
def retried (call : Blocking) : Paths := steps [block call, .loop (block call)]

/-- A look at a field under the lock. -/
def look : Paths := steps [lock, unlock, .ret]

/-! ## `channel.c` -/

def chanCreate : Paths := steps [
  maybe .ret,
  lock,
  maybe unlockReturn,
  maybe unlockReturn,
  maybe (maybe unlockReturn),
  unlock,
  .ret]

def chanSend : Paths := steps [
  maybe .ret,
  lock,
  maybe unlockReturn,
  -- a receiver, a selecting one, room in the buffer
  maybe unlockReturn,
  maybe unlockReturn,
  maybe unlockReturn,
  needsTask,
  park,
  .ret]

def chanRecv : Paths := steps [
  maybe .ret,
  lock,
  maybe unlockReturn,
  -- a sender, a selecting one
  maybe (steps [maybe unlockReturn, unlockReturn]),
  maybe (steps [maybe unlockReturn, unlockReturn]),
  maybe unlockReturn,
  needsTask,
  park,
  .ret]

def chanTrySend : Paths := steps [
  maybe .ret,
  lock,
  maybe unlockReturn,
  maybe unlockReturn,
  maybe unlockReturn,
  maybe unlockReturn,
  unlock,
  .ret]

def chanTryRecv : Paths := steps [
  maybe .ret,
  lock,
  maybe unlockReturn,
  maybe (steps [maybe unlockReturn, unlockReturn]),
  maybe (steps [maybe unlockReturn, unlockReturn]),
  unlock,
  .ret]

def selectTryCase : Paths := steps [
  maybe .ret,
  .alt (steps [.call chanTryRecv, .ret]) (.alt (steps [.call chanTrySend, .ret]) .ret)]

def select : Paths := steps [
  maybe .ret,
  .loop (maybe .ret),
  .loop (maybe (steps [.call selectTryCase, maybe .ret])),
  maybe .ret,
  maybe .ret,
  lock,
  needsTask,
  maybe unlockReturn,
  .loop (maybe (maybe unlockReturn)),
  maybe (maybe unlockReturn),
  park,
  .ret]

def chanClose : Paths := steps [maybe .ret, lock, maybe unlockReturn, unlock, .ret]

def chanDestroy : Paths := steps [maybe .ret, lock, maybe unlockReturn, unlock, .ret]

def chanLen : Paths := steps [maybe .ret, look]

def chanCapacity : Paths := steps [maybe .ret, look]

def chanIsClosed : Paths := steps [maybe .ret, look]

/-! ## `task.c` -/

def go : Paths := steps [lock, unlock, .ret]

def goWithStack : Paths := steps [lock, unlock, .ret]

def goHandle : Paths := steps [lock, maybe unlockReturn, unlock, .ret]

def goHandleWithStack : Paths := steps [lock, maybe unlockReturn, unlock, .ret]

def join : Paths := steps [
  maybe .ret,
  lock,
  maybe unlockReturn,
  needsTask,
  -- a task that joins itself
  maybe unlockReturn,
  park,
  .ret]

def taskCancel : Paths := steps [maybe .ret, lock, maybe unlockReturn, unlock, .ret]

def taskStatus : Paths := steps [
  maybe .ret,
  lock,
  maybe unlockReturn,
  maybe unlockReturn,
  maybe unlockReturn,
  unlock,
  .ret]

def taskHandleRelease : Paths := steps [maybe .ret, lock, unlock]

/-- What is left of `mt_task_entry` after `task->fn` has returned; nobody comes to the `abort`. -/
def taskEntry : Paths := steps [lock, park]

/-! ## `io.c` -/

def fdAdopt : Paths := steps [
  maybe .ret,
  maybe .ret,
  maybe .ret,
  lock,
  maybe unlockReturn,
  maybe unlockReturn,
  unlock,
  .ret]

def fdRelease : Paths := steps [maybe .ret, lock, maybe unlockReturn, unlock, maybe .ret, .ret]

def ioBackendName : Paths := steps [maybe .ret, look]

def fdWait : Paths := steps [
  maybe .ret,
  .onTask .skip .ret,
  lock,
  maybe unlockReturn,
  maybe unlockReturn,
  -- the descriptor is polled
  maybe unlockReturn,
  maybe (steps [maybe unlockReturn, unlockReturn]),
  maybe unlockReturn,
  -- the waiter is allocated, registered and entered in the heap
  maybe unlockReturn,
  maybe unlockReturn,
  maybe unlockReturn,
  park,
  lock,
  unlock,
  .ret]

def fdWaitRead : Paths := steps [.call fdWait, .ret]

def fdWaitWrite : Paths := steps [.call fdWait, .ret]

/-- What `mt_fd_read` and its siblings do after a call that has not succeeded: they begin anew after
`EINTR`, return an error, or wait. -/
def waitOrReturn (wait : Paths) : Paths := maybe (steps [maybe .ret, .call wait, maybe .ret])

/-- The parameters are checked and the descriptor is adopted. -/
def adopted : Paths := steps [maybe .ret, maybe .ret, .call fdAdopt, maybe .ret]

def fdRead : Paths := steps [
  adopted,
  .loop (steps [block .io, maybe .ret, waitOrReturn fdWaitRead])]

def fdWrite : Paths := steps [
  adopted,
  .loop (steps [block .io, waitOrReturn fdWaitWrite]),
  .ret]

def fdClose : Paths := steps [
  maybe .ret,
  lock,
  maybe unlockReturn,
  maybe unlockReturn,
  unlock,
  block .close,
  lock,
  unlock,
  .ret]

def netListenTcp : Paths := steps [
  maybe .ret,
  block .getaddrinfo,
  maybe .ret,
  .loop (maybe (steps [maybe (steps [.call fdAdopt, maybe .leave]), block .close])),
  .ret]

def netAccept : Paths := steps [
  maybe .ret,
  .call fdAdopt,
  maybe .ret,
  .loop (steps [
    block .io,
    maybe (steps [.call fdAdopt, maybe (steps [block .close, .ret]), .ret]),
    waitOrReturn fdWaitRead])]

def netRead : Paths := steps [.call fdRead, .ret]

def netWrite : Paths := steps [
  adopted,
  .loop (steps [block .io, waitOrReturn fdWaitWrite]),
  .ret]

def netClose : Paths := steps [.call fdClose, .ret]

/-! ## `io_backend.c` and the back ends -/

/-- `pthread_cond_wait` and `pthread_cond_timedwait` unlock the mutex and lock it again. -/
def condWait : Paths := steps [unlock, block .condWait, lock]

def condTimedwaitNs : Paths := condWait

def pollBackendWaitLocked : Paths := steps [maybe .ret, unlock, retried .backendWait, lock]

def epollBackendWaitLocked : Paths := steps [unlock, retried .backendWait, lock]

def kqueueBackendWaitLocked : Paths := steps [unlock, retried .backendWait, lock]

def backendFdWaitersLocked : Paths := steps [
  maybe (steps [.call pollBackendWaitLocked, .ret]),
  maybe (steps [.call epollBackendWaitLocked, .ret]),
  maybe (steps [.call kqueueBackendWaitLocked, .ret])]

def pollFdWaitersWithTimeout : Paths := steps [
  maybe .ret,
  maybe (steps [.alt (.call condTimedwaitNs) condWait, .ret]),
  .call backendFdWaitersLocked]

def pollFdWaitersOnce : Paths := maybe (.call pollFdWaitersWithTimeout)

def ioBackendShutdown : Paths := steps [
  maybe (block .closeBackend),
  maybe (block .closeBackend),
  maybe (block .closeBackend)]

/-! ## `scheduler.c` -/

def sleepOsNs : Paths := steps [maybe .ret, retried .nanosleep]

def workerLoop : Paths := steps [
  lock,
  .loop (steps [
    maybe .leave,
    maybe (.call pollFdWaitersOnce),
    .alt
      -- the run queue is empty
      (steps [
        maybe .leave,
        maybe .leave,
        .alt (.call pollFdWaitersWithTimeout)
          (.alt (steps [maybe .leave, condWait])
            (maybe (steps [maybe .leave, .call condTimedwaitNs])))])
      (steps [unlock, .op .dispatch])]),
  unlock]

def workerThreadMain : Paths := steps [
  maybe (steps [lock, unlock, .ret]),
  .call workerLoop,
  .ret]

def runInternal : Paths := steps [
  .onTask .ret .skip,
  lock,
  maybe unlockReturn,
  unlock,
  -- the threads are created
  maybe (steps [
    maybe (steps [lock, unlock, .ret]),
    .loop (maybe (steps [lock, unlock, .loop (block .pthreadJoin), lock, unlock, .ret]))]),
  .call workerLoop,
  .loop (block .pthreadJoin),
  lock,
  unlock,
  .ret]

def run : Paths := steps [.call runInternal, .ret]

def runtimeStart : Paths := steps [
  maybe .ret,
  .onTask .ret .skip,
  lock,
  unlock,
  maybe .ret,
  .call runInternal,
  .ret]

def runWorkers : Paths := steps [.call runtimeStart, .ret]

def runtimeWorkers : Paths := steps [maybe .ret, lock, unlock, maybe .ret, .ret]

def yield : Paths := steps [.onTask .skip .ret, lock, park]

def sleepMs : Paths := steps [
  .onTask .skip .ret,
  maybe (steps [.call yield, .ret]),
  lock,
  -- the heap cannot grow
  maybe (steps [unlock, .call sleepOsNs, .ret]),
  park]

/-! ## `runtime_lifecycle.c` -/

def shutdown : Paths := steps [
  .onTask .ret .skip,
  maybe .ret,
  lock,
  maybe unlockReturn,
  .call ioBackendShutdown,
  unlock]

/-- The functions called from outside that lock, switch or block; the counters of
`microthread_debug.h` are looks at a field. `mt_init` of a runtime that is initialised,
`mt_task_cancelled`, `mt_fd_set_nonblocking`, `mt_last_os_error`, `mt_strerror`,
`mt_task_status_name` and `mt_debug_current_task_id` do nothing of the kind. -/
def runtime : Program Blocking where
  api := [chanCreate, chanSend, chanRecv, chanTrySend, chanTryRecv, select, chanClose,
    chanDestroy, chanLen, chanCapacity, chanIsClosed, go, goWithStack, goHandle, goHandleWithStack,
    join, taskCancel, taskStatus, taskHandleRelease, fdAdopt, fdRelease, ioBackendName, fdWait,
    fdWaitRead, fdWaitWrite, fdRead, fdWrite, fdClose, netListenTcp, netAccept, netRead, netWrite,
    netClose, run, runtimeStart, runWorkers, runtimeWorkers, yield, sleepMs, shutdown, look]
  threads := [workerThreadMain]
  tail := taskEntry

end Paths
end Microthread
