import Microthread.System.Basic

/-!
# The step function

`callApi` is the first section of every API call, `continueCall` the later
sections of the calls that have some, and `workerStep` the sections of
`mt_worker_loop`. `machine` puts them together; its runs are all interleavings.
-/

namespace Microthread

open Foundation

namespace Sys

variable (s : Sys)

/-- `if (!g_rt.initialized && mt_init() != MT_OK)`: the state to go on with. -/
def ensureInit (k : Rt → Sys) (fail : Rt → Sys) : Sys :=
  match s.rt.init with
  | (.ok, rt) => k rt
  | (_, rt) => fail rt

/-! ## Descriptor calls -/

def osCloseFd (fd : Nat) : Sys := { s with os := s.os.close fd, rt := s.rt.kernelForgets fd }

/-- An `mt_fd_adopt` has failed with `rc`. -/
def adoptFailed (a : Actor) (c : CallId) (fd : Nat) (rc : Rc) (rt : Rt) : AdoptUse → Sys
  | .adopt | .io _ => s.ret a c .neither rc rt
  | .accepted => { s with rt := rt }.setPc a.agent (.acceptDrop c fd)

/-- An `mt_fd_adopt` has succeeded. -/
def adoptDone (a : Actor) (c : CallId) (env : Env) (rt : Rt) : AdoptUse → Sys
  | .adopt | .accepted => s.ret a c .neither .ok rt
  | .io op => { s with rt := rt }.setPc a.agent
      (.ioCall c { op with deadlineNs := Rt.deadlineFromTimeout env.nowNs op.timeoutMs })

/-- The `fcntl` calls of `mt_fd_adopt`. -/
def adoptFcntl (a : Actor) (c : CallId) (fd : Nat) (use : AdoptUse) (env : Env) : Sys :=
  match s.os.file fd with
  | none => s.adoptFailed a c fd .invalid s.rt use
  | some f =>
    if env.osOk then
      { s with os := s.os.setFlags fd (f.flags ||| oNonblock) }.setPc a.agent
        (.fdAdopting c fd f.flags use)
    else s.adoptFailed a c fd .io s.rt use

/-- The locked section of `mt_fd_adopt`. -/
def adoptSection (a : Actor) (c : CallId) (fd flags : Nat) (use : AdoptUse) (env : Env) : Sys :=
  match s.rt.fdAdopt fd flags with
  | (.ok, rt) => { s with os := s.os.noteAdopt fd flags }.adoptDone a c env rt use
  | (rc, rt) => s.adoptFailed a c fd rc rt use

/-- The `fcntl` call of `mt_fd_release`. -/
def releaseFcntl (a : Actor) (c : CallId) (fd flags : Nat) (env : Env) : Sys :=
  if (s.os.file fd).isNone then s.ret a c .neither .invalid s.rt
  else if env.osOk then
    { s with os := (s.os.setFlags fd flags).noteRelease fd }.ret a c .neither .ok s.rt
  else s.ret a c .neither .io s.rt

/-- The locked section of `mt_fd_release`. -/
def releaseSection (a : Actor) (c : CallId) (fd : Nat) : Sys :=
  match s.rt.fdRelease fd with
  | (.ok, .ofNat flags, rt) => { s with rt := rt }.setPc a.agent (.fdRestoring c fd flags)
  | (.ok, .negSucc _, rt) => { s with os := s.os.noteRelease fd }.ret a c .neither .ok rt
  | (rc, _, rt) => s.ret a c .neither rc rt

/-- An `mt_fd_wait` returns `rc`. -/
def waitReturn (a : Actor) (c : CallId) (rc : Rc) (rt : Rt) : WaitUse → Sys
  | .wait => s.ret a c .neither rc rt
  | .io op =>
    if rc = .ok then { s with rt := rt }.setPc a.agent (.ioCall c op)
    else s.ret a c .neither (op.result rc) rt

/-- The kernel's answer to an immediate poll; it knows which numbers are open. -/
def pollAnswer (fd : Nat) (env : Env) : PollResult :=
  if (s.os.file fd).isNone then .revents pollNval else env.poll

/-- The first section of `mt_fd_wait`, which reads the clock at `nowNs`. -/
def waitSection (a : Actor) (c : CallId) (fd events timeoutMs nowNs : Nat) (use : WaitUse)
    (env : Env) : Sys :=
  match a with
  | .ext _ => s.waitReturn a c .state s.rt use
  | .task w t =>
    match s.rt.fdWait t fd events timeoutMs nowNs (s.pollAnswer fd env) (s.os.inst fd) with
    | (.ret rc, _, rt) => s.waitReturn a c rc rt use
    | (.park, _, rt) => s.switch w t rt (.fdPark c ((rt.task t).fdWaiter.getD 0) use)

/-- The system call of a read, a write or an accept. A number in use is not issued. -/
def ioStep (a : Actor) (c : CallId) (op : IoOp) (env : Env) : Option Sys :=
  match env.io, op.kind with
  | .again, _ => some (s.setPc a.agent (.ioWait c op))
  | .failed ebadf, _ =>
    some (s.ret a c .neither (op.result (if ebadf then .invalid else .io)) s.rt)
  | .done _, .read => some (s.ret a c .neither .ok s.rt)
  | .done n, .write =>
    if op.total + n < op.len then
      some (s.setPc a.agent (.ioCall c { op with total := op.total + n }))
    else some (s.ret a c .neither .ok s.rt)
  | .done n, .accept =>
    if (s.os.file n).isSome then none
    else some ({ s with os := s.os.issue n env.flags }.setPc a.agent (.fdAdopt c n .accepted))

/-- The OS `close` of `mt_fd_close`. -/
def closeStep (a : Actor) (c : CallId) (fd : Nat) (env : Env) : Sys :=
  if (s.os.file fd).isNone then s.setPc a.agent (.fdClosed c fd .invalid)
  else (s.osCloseFd fd).setPc a.agent (.fdClosed c fd (if env.osOk then .ok else .io))

/-! ## API calls -/

/-- The first section of an API call; `c` identifies the call. -/
def callApi (a : Actor) (c : CallId) (env : Env) : Api → Sys
  | .go fn stackSize wantHandle =>
    s.ensureInit (fun rt =>
        match rt.createTaskInternal fn stackSize wantHandle with
        | (id, _, rt) => s.ret a c .neither (if id < 0 then .err else .ok) rt)
      (s.ret a c .neither .err)
  | .yield =>
    match a with
    | .task _ t => s.conclude a c .neither .switchPark (s.rt.yield t)
    | .ext _ => s.ret a c .neither .ok s.rt
  | .sleep ms =>
    match a with
    | .task _ t => s.conclude a c .neither .switchPark (s.rt.sleepMs t ms env.nowNs)
    | .ext _ => s.ret a c .neither .ok s.rt
  | .join h => s.conclude a c .neither (.joinPark c h) (s.rt.join a.current h)
  | .cancel h =>
    match s.rt.taskCancel h with
    | (rc, rt) => s.ret a c .neither rc rt
  | .status h => s.ret a c .neither .ok (s.rt.taskStatus h).2
  | .cancelled =>
    match a with
    | .task _ t => s.ret a c .neither .ok (s.rt.taskCancelled t).2
    | .ext _ => s.ret a c .neither .ok s.rt
  | .release h => s.ret a c .neither .ok (s.rt.taskHandleRelease h)
  | .chanCreate elemSize capacity =>
    s.ensureInit (fun rt => s.ret a c .neither .ok (rt.chanCreate elemSize capacity).2)
      (s.ret a c .neither .err)
  | .chanSend (some ch) (some value) =>
    s.conclude a c (.send ch) (.chanPark c (.send ch)) (s.rt.chanSend a.current c ch value)
  | .chanRecv (some ch) (some out) =>
    s.conclude a c (.recv ch) (.chanPark c (.recv ch)) (s.rt.chanRecv a.current c ch out)
  | .chanTrySend (some ch) (some value) =>
    match s.rt.chanTrySend c .nonblocking ch value with
    | (rc, rt) => s.ret a c (.send ch) rc rt
  | .chanTryRecv (some ch) (some out) =>
    match s.rt.chanTryRecv c ch out with
    | (rc, rt) => s.ret a c (.recv ch) rc rt
  | .chanSend _ _ | .chanRecv _ _ | .chanTrySend _ _ | .chanTryRecv _ _ =>
    s.ret a c .neither .invalid s.rt
  | .chanClose ch =>
    match s.rt.chanClose ch with
    | (rc, rt) => s.ret a c .neither rc rt
  | .chanDestroy ch =>
    match s.rt.chanDestroy ch with
    | (rc, rt) => s.ret a c .neither rc rt
  | .select cases =>
    if cases = [] then s.ret a c .neither .invalid s.rt
    else
      match Rt.selectScan cases 0 {} with
      | none => s.ret a c .neither .invalid s.rt
      | some plan => s.setPc a.agent (.selectTry c cases plan 0)
  | .fdAdopt fd => s.adoptFcntl a c fd .adopt env
  | .fdRelease fd => s.releaseSection a c fd
  | .fdWait fd events timeoutMs =>
    if fdValidateEvents events then s.waitSection a c fd events timeoutMs env.nowNs .wait env
    else s.ret a c .neither .invalid s.rt
  | .fdRead fd len timeoutMs =>
    if len = 0 then s.ret a c .neither .ok s.rt
    else s.adoptFcntl a c fd
      (.io { kind := .read, fd := fd, len := len, timeoutMs := timeoutMs }) env
  | .fdWrite fd len timeoutMs =>
    if len = 0 then s.ret a c .neither .ok s.rt
    else s.adoptFcntl a c fd
      (.io { kind := .write, fd := fd, len := len, timeoutMs := timeoutMs }) env
  | .netAccept fd timeoutMs =>
    s.adoptFcntl a c fd (.io { kind := .accept, fd := fd, timeoutMs := timeoutMs }) env
  | .fdClose fd =>
    match s.rt.fdCloseBegin fd with
    | (.ok, rt) => { s with rt := rt }.setPc a.agent (.fdClosing c fd (s.os.inst fd))
    | (rc, rt) => s.ret a c .neither rc rt
  | .run workers sleepForTimers =>
    if workers = 0 then s.ret a c .neither .invalid s.rt
    else
      s.ensureInit (fun rt =>
          if a.current.isSome || rt.running then s.ret a c .neither .state rt
          else
            { s with
              rt := { rt with
                running := true, stopping := false, runResult := .ok, workerCount := workers }
              sleepForTimers := sleepForTimers }.setPc a.agent (.runAlloc c workers))
        (s.ret a c .neither .err)
  | .shutdown =>
    match a with
    | .task _ _ => s.ret a c .neither .ok s.rt
    | .ext _ =>
      if !s.rt.initialized then s.ret a c .neither .ok s.rt
      else if s.rt.running then s.ret a c .neither .ok s.rt.shutdownRunning
      else s.ret a c .neither .ok s.rt.shutdownIdle

/-- What `mt_select` does once every trial has answered `MT_ERR_WOULD_BLOCK`. -/
def selectAfterTrials (a : Actor) (c : CallId) (cases : List SelectCase) (p : SelectPlan) : Sys :=
  match p.defaultIndex with
  | some d => (s.storeIndex c d).ret a c .neither .ok s.rt
  | none =>
    match p.timeoutIndex with
    | some d =>
      if p.timeoutMs = 0 then (s.storeIndex c d).ret a c .neither .ok s.rt
      else s.setPc a.agent (.selectReg c cases p)
    | none => s.setPc a.agent (.selectReg c cases p)

/-- The role a case of a select has. -/
def caseRole (k : SelectCase) : Role :=
  match k.op, k.ch with
  | .send, some ch => .send ch
  | .recv, some ch => .recv ch
  | _, _ => .neither

/-- The trial of one case. -/
def selectTrial (a : Actor) (c : CallId) (cases : List SelectCase) (p : SelectPlan) (i : Nat)
    (k : SelectCase) : Sys :=
  if k.isChannel then
    match s.rt.selectTryCase c k with
    | (.wouldBlock, rt) => { s with rt := rt }.setPc a.agent (.selectTry c cases p (i + 1))
    | (rc, rt) => (s.storeIndex c i).ret a c (caseRole k) rc rt
  else s.setPc a.agent (.selectTry c cases p (i + 1))

/-- The sections of a call after its first. -/
def continueCall (a : Actor) (env : Env) : Option Sys :=
  match s.pc a.agent, a with
  | .called c call, _ =>
    if call.unlocked || s.lock.isNone then some (s.callApi a c env call) else none
  | .selectTry c cases p i, _ =>
    if s.lock.isSome then none
    else
      match cases[i]? with
      | some k => some (s.selectTrial a c cases p i k)
      | none => some (s.selectAfterTrials a c cases p)
  | .selectReg c cases p, _ =>
    if s.lock.isSome then none
    else some (s.conclude a c .neither (.selectPark c cases p)
      (s.rt.selectRegister a.current cases p env.nowNs))
  | .chanPark c _, .task _ t => some (s.retParked a c (s.rt.task t).chanResult)
  | .selectPark c _ _, .task _ t =>
    some ((s.storeIndex c (s.rt.task t).selectIndex).retParked a c (s.rt.task t).selectResult)
  | .joinPark c _, .task _ t => some (s.retParked a c (s.rt.task t).joinResult)
  | .switchPark, .task _ _ => some (s.setPc a.agent .user)
  | .fdPark c w use, .task _ t =>
    if s.lock.isSome then none
    else
      match s.rt.fdWaitFinish t w with
      | (rc, _, rt) => some (s.waitReturn a c rc rt use)
  | .fdAdopt c fd use, _ => some (s.adoptFcntl a c fd use env)
  | .fdAdopting c fd flags use, _ =>
    if s.lock.isSome then none else some (s.adoptSection a c fd flags use env)
  | .fdRestoring c fd flags, _ => some (s.releaseFcntl a c fd flags env)
  | .ioCall c op, _ => s.ioStep a c op env
  | .ioWait c op, _ =>
    if s.lock.isSome then none
    else
      -- `mt_timeout_left_ms` reads the clock, and then `mt_fd_wait` reads it again
      some (s.waitSection a c op.fd op.events (timeoutLeftMs op.deadlineNs env.nowNs) env.nowNs2
        (.io op) env)
  | .acceptDrop c fd, _ => some ((s.osCloseFd fd).ret a c .neither .io (s.osCloseFd fd).rt)
  | .fdClosing c fd _, _ => some (s.closeStep a c fd env)
  | .fdClosed c fd rc, _ =>
    if s.lock.isSome then none else some (s.ret a c .neither rc (s.rt.fdCloseEnd fd))
  | .runAlloc c workers, .ext _ =>
    if s.lock.isSome then none
    else if workers > 1 && s.sleepForTimers then
      match s.rt.ask with
      | (true, rt) => some ({ s with rt := rt }.setPc a.agent (.runSpawn c workers 1))
      | (false, rt) => some (s.ret a c .neither .nomem { rt with running := false })
    else some ((s.setWorker 0 .start).setPc a.agent (.runLoop c))
  | .runSpawn c workers next, .ext _ =>
    if s.lock.isSome then none
    else if next < workers then
      if env.osOk then
        some ((s.setWorker next .start).setPc a.agent (.runSpawn c workers (next + 1)))
      else
        some ({ s with rt := { s.rt with runResult := .err, stopping := true } }.setPc a.agent
          (.runAbort c))
    else some ((s.setWorker 0 .start).setPc a.agent (.runLoop c))
  | .runLoop c, .ext _ =>
    if s.lock.isSome then none
    else if (List.range s.rt.workerCount).all fun i =>
        s.workers i == .exited || s.workers i == .off then
      some ({ s with workers := fun _ => .off }.ret a c .neither s.rt.runResult
        { s.rt with running := false, stopping := false })
    else none
  | .runAbort c, .ext _ =>
    if s.lock.isSome then none
    else if (List.range s.rt.workerCount).all fun i =>
        s.workers i == .exited || s.workers i == .off then
      some ({ s with workers := fun _ => .off }.ret a c .neither .err { s.rt with running := false })
    else none
  | _, _ => none

/-! ## The worker loop -/

/-- The worker leaves its loop. -/
def workerExit (w : Nat) (rt : Rt) : Sys :=
  { s with
    rt := { rt with activeWorkers := rt.activeWorkers - 1 }.guarded rt.activeWorkers
    lock := none }.setWorker w .exited

/-- `mt_poll_fd_waiters_with_timeout` up to the point where it gives up the lock. -/
def workerPoll (w : Nat) (timed : Bool) (k : PollCont) (rt : Rt) : Sys :=
  if rt.ioPolling then { s with rt := rt, lock := none }.setWorker w (.pollWait timed k)
  else { s with rt := { rt with ioPolling := true }, lock := none }.setWorker w (.polling k)

/-- The head of the loop: stop condition, timers and the readiness poll. -/
def workerTop (w : Nat) (env : Env) : Sys :=
  if s.rt.stopping && (s.rt.runResult != .cancelled || s.rt.runq.items.isEmpty) then
    s.workerExit w s.rt
  else if s.rt.stopping then s.setWorker w .pop
  else
    let rt := s.rt.wakeExpiredTimers env.nowNs
    if rt.fdWaitingCount > 0 then s.workerPoll w false .pop rt
    else { s with rt := rt }.setWorker w .pop

/-- The timeout the idle branch passes to the backend, in milliseconds. -/
def pollTimeoutMs (nextWakeNs : Option Nat) (nowNs : Nat) : Nat :=
  match nextWakeNs with
  | none => 10
  | some wake =>
    if wake ≤ nowNs then 0
    else
      let delayMs := (wake - nowNs + nsPerMs - 1) % 2 ^ 64 / nsPerMs
      if delayMs < 10 then delayMs else 10

/-- A verdict ends the run for every worker. -/
def workerVerdict (w : Nat) (rc : Rc) : Sys :=
  s.workerExit w { s.rt with runResult := rc, stopping := true }

/-- The run queue is empty. -/
def workerIdle (w : Nat) (env : Env) : Sys :=
  if s.rt.stopping then s.workerExit w s.rt
  else if s.rt.liveCount = 0 then s.workerExit w { s.rt with stopping := true }
  else if s.rt.fdWaitingCount > 0 then
    s.workerPoll w
      (pollTimeoutMs (s.rt.timerPeek.map fun t => (s.rt.task t).wakeNs) env.nowNs > 0) .top s.rt
  else
    match s.rt.timerPeek with
    | none =>
      if s.rt.runningTasks = 0 && (s.rt.channelWaitingCount > 0 || s.rt.joinWaitingCount > 0 ||
          s.rt.fdWaitingCount > 0) then s.workerVerdict w .state
      else { s with lock := none }.setWorker w .idleWait
    | some t =>
      if (s.rt.task t).wakeNs > env.nowNs2 then
        if w = 0 && !s.sleepForTimers then s.workerVerdict w .state
        else { s with lock := none }.setWorker w .timerWait
      else s.setWorker w .top

/-- `mt_runq_pop`, then the switch to the task or the idle branch. -/
def workerPop (w : Nat) (env : Env) : Sys :=
  match s.rt.runqPop with
  | some (t, rt) =>
    let s := { s with rt := rt.taskDispatch t, lock := none }.setWorker w (.running t)
    if s.pc (.task t) = .fresh then s.setPc (.task t) .user else s
  | none => s.workerIdle w env

def pollCont (w : Nat) : PollCont → Sys
  | .top => s.setWorker w .top
  | .pop => s.setWorker w .pop

/-- One section of `mt_worker_loop`. -/
def workerStep (w : Nat) (env : Env) : Option Sys :=
  match s.workers w with
  | .start =>
    if s.lock.isSome then none
    else if w ≠ 0 ∧ ¬env.osOk then
      -- `mt_worker_thread_main` could not make its scheduler context
      some ({ s with rt := { s.rt with runResult := .err, stopping := true } }.setWorker w .exited)
    else
      some ({ s with
        rt := { s.rt with activeWorkers := s.rt.activeWorkers + 1 }
        lock := some w }.setWorker w .top)
  | .top => if s.lock = some w then some (s.workerTop w env) else none
  | .pop => if s.lock = some w then some (s.workerPop w env) else none
  | .polled k batch =>
    if s.lock.isSome then none
    else
      some ({ s with
        rt := { s.rt.backendDispatch batch with ioPolling := false }
        lock := some w }.pollCont w k)
  | .pollWait _ k => if s.lock.isSome then none else some ({ s with lock := some w }.pollCont w k)
  | .idleWait | .timerWait =>
    if s.lock.isSome then none else some ({ s with lock := some w }.setWorker w .top)
  | _ => none

/-- The whole system. The tape of a step is fresh in every step. -/
def step : Act → Option Sys
  | .api a call =>
    if s.enabled a && s.pc a.agent == .user then some (s.enter a call) else none
  | .cont a env =>
    if s.enabled a then { s with rt := { s.rt with tape := env.tape } }.continueCall a env else none
  | .finish w t =>
    if s.enabled (.task w t) && s.lock.isNone && s.pc (.task t) == .user then
      some (s.switch w t (s.rt.taskMarkDead t) .finished)
    else none
  | .write a addr v =>
    if s.enabled a && s.pc a.agent == .user then some { s with rt := s.rt.writeMem addr v } else none
  | .osOpen a fd flags =>
    if s.enabled a && s.pc a.agent == .user && (s.os.file fd).isNone then
      some { s with os := s.os.issue fd flags }
    else none
  | .osClose a fd =>
    if s.enabled a && s.pc a.agent == .user && (s.os.file fd).isSome then some (s.osCloseFd fd)
    else none
  | .worker w env => { s with rt := { s.rt with tape := env.tape } }.workerStep w env
  | .collect w batch =>
    match s.workers w with
    | .polling k =>
      some (s.setWorker w (.polled k (batch.map fun e => { e with inst := s.os.inst e.fd })))
    | _ => none

end Sys

/-- All interleavings, from an uninitialised runtime of any build. -/
def machine : Machine Sys Act where
  init s := ∃ kind, s = { rt := { ioBackendBuild := kind } }
  step := Sys.step

end Microthread
