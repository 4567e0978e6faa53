import Microthread.System.Contract

/-!
# What a step of the system can be

`Case` lists the steps of the system once, in terms of the sections the earlier
modules describe. Invariants of the system are proved by cases on it; the step
function is not looked at again for them.
-/

namespace Microthread

open Foundation Rt

/-- A running task leaves its processor inside call `c`, standing at `q`, and waits at
`p`. -/
inductive Parks (t : TaskId) (c : CallId) (q : Pc) (s : Rt) : Pc → Rt → Prop where
  | send (ch value) : q = .called c (.chanSend (some ch) (some value)) → ch ∈ s.channels →
      s.SendBlocks ch → Parks t c q s (.chanPark c (.send ch)) (s.parkChan t ch .send value)
  | recv (ch out) : q = .called c (.chanRecv (some ch) (some out)) → ch ∈ s.channels →
      s.RecvBlocks ch → Parks t c q s (.chanPark c (.recv ch)) (s.parkChan t ch .recv out)
  | select (cases plan) {s'} : q = .selectReg c cases plan → s.CasesRegistered cases →
      SelectParks t cases plan s s' → Parks t c q s (.selectPark c cases plan) s'
  | join (x) : q = .called c (.join x) → x ∈ s.handles → (s.handle x).completed = false →
      Parks t c q s (.joinPark c x) (s.parkJoin t x)
  | sleep (tape timers wakeNs) : s.Arms t timers wakeNs →
      Parks t c q s .switchPark ({ s with tape := tape }.parkSleep t timers wakeNs)
  | yield : Parks t c q s .switchPark (s.parkYield t)
  | fd (timers wakeNs x use) {a} : q.onFd = true → Quiet s a → (s.task t).fdWaiter = none →
      s.Arms t timers wakeNs →
      (∃ fd events inst, q.waitsFor = some (fd, events) ∧
        FdWaits s t fd events inst .park (a.parkFd t timers wakeNs x)) →
      Parks t c q s (.fdPark c s.nextAddr use) (a.parkFd t timers wakeNs x)

/-- What parking does to the tasks. -/
structure Parked (t : TaskId) (s s' : Rt) : Prop where
  inv : s'.Inv
  allTasks : s'.allTasks = s.allTasks
  others : ∀ u, u ≠ t → s'.task u = s.task u
  state : (s'.task t).state ≠ .running ∧ (s'.task t).state ≠ .dead
  count : s'.runningTasks = s.runningTasks

theorem Rt.SelectParks.parked {t : TaskId} {cases : List SelectCase} {plan : SelectPlan} {s s' : Rt}
    (hp : SelectParks t cases plan s s') (h : s.Rest) (hr : s.Runs t)
    (hch : s.CasesRegistered cases) : Parked t s s' := by
  have key : ∀ tape, ∃ a, a = s.enrolled t cases plan tape ∧ Registers t s a ∧
      (a.task t).selectInTimer = false := fun tape =>
    ⟨_, rfl, enrolled_registers (h.noWaiters t hr) hch plan tape,
      (s.enrolled_task t cases plan tape).2.1⟩
  cases hp with
  | untimed tape hi =>
      obtain ⟨a, ha, hreg, htimer⟩ := key tape
      rw [← ha]
      obtain ⟨hinv, hall, hrun⟩ := Registers.inv hreg h.inv hr.1 hr.2
      have hpark := (Park.select (t := t) htimer).inv hinv hall hrun
      obtain ⟨_, _, _, _, _, _, _, _, _, _, _, _, rfl⟩ := Registers.enrols hreg
      refine ⟨hpark, rfl, fun u hu => ?_, ?_, rfl⟩
      · simp [Rt.parkSelect, Function.update_of_ne hu]
      · simp [Rt.parkSelect]
  | timed tape timers wakeNs i hi hperm =>
      obtain ⟨a, ha, hreg, -⟩ := key tape
      rw [← ha]
      obtain ⟨hinv, hall, hrun⟩ := Registers.inv hreg h.inv hr.1 hr.2
      have henr := Registers.enrols hreg
      have hperm' : a.Arms t timers wakeNs := by
        obtain ⟨_, _, _, _, _, _, _, _, _, _, _, _, rfl⟩ := henr
        exact hperm.congr (timerKey_of_update rfl rfl rfl) rfl
      have hpark := (Park.selectTimed (t := t) timers wakeNs i hperm').inv hinv hall hrun
      obtain ⟨_, _, _, _, _, _, _, _, _, _, _, _, rfl⟩ := henr
      refine ⟨hpark, rfl, fun u hu => ?_, ?_, rfl⟩
      · simp [Rt.parkSelectTimed, Function.update_of_ne hu]
      · simp [Rt.parkSelectTimed]

theorem Parks.parked {t : TaskId} {c : CallId} {q p : Pc} {s s' : Rt} (hp : Parks t c q s p s')
    (h : s.Rest) (hr : s.Runs t) : Parked t s s' := by
  have hws := h.noWaiters t hr
  cases hp with
  | send ch value _ hch =>
      exact ⟨(Park.chan ch .send value hws (by simp) hch).inv h.inv hr.1 hr.2, rfl,
        fun u hu => by simp [Rt.parkChan, hu], by simp [Rt.parkChan], rfl⟩
  | recv ch out _ hch =>
      exact ⟨(Park.chan ch .recv out hws (by simp) hch).inv h.inv hr.1 hr.2, rfl,
        fun u hu => by simp [Rt.parkChan, hu], by simp [Rt.parkChan], rfl⟩
  | select cases plan _ hch hp => exact hp.parked h hr hch
  | join x _ hx hc =>
      exact ⟨(Park.join x hws hx hc).inv h.inv hr.1 hr.2, rfl,
        fun u hu => by simp [Rt.parkJoin, hu], by simp [Rt.parkJoin], rfl⟩
  | sleep tape timers wakeNs hperm =>
      have hinv := (h.tape tape).inv
      exact ⟨(Park.sleep (s := { s with tape := tape }) timers wakeNs hws
        (hperm.congr rfl rfl)).inv hinv hr.1 hr.2,
        rfl, fun u hu => by simp [Rt.parkSleep, hu], by simp [Rt.parkSleep], rfl⟩
  | yield =>
      exact ⟨(Park.yield hws).inv h.inv hr.1 hr.2, rfl,
        fun u hu => by simp [Rt.parkYield, hu], by simp [Rt.parkYield], rfl⟩
  | fd timers wakeNs x use _ hq hfd hperm =>
      have hinv := hq.inv h.inv
      obtain ⟨gens, polling, interest, filters, tape, rfl⟩ := hq
      have hpark := Park.fd (t := t) (s := { s with
        fdGenerations := gens, ioPolling := polling, interest := interest, filters := filters
        tape := tape })
        timers wakeNs x hws hfd (hperm.congr rfl rfl)
      exact ⟨hpark.inv hinv hr.1 hr.2, rfl, fun u hu => by simp [Rt.parkFd, hu],
        by simp [Rt.parkFd], rfl⟩

/-- Where call `c`, which stood at `q`, stands after a section with outcome `o`, and what
it has reported. -/
inductive Onward (c : CallId) (q : Pc) (s : Rt) : Option (Role × Rc) → Pc → List Event → Prop where
  | on (p) : p.call? = some c → p.parked = false → p.inRun = false → s.Tried p → Pc.Follows s q p →
      Onward c q s none p []
  | out (role rc) : Onward c q s (some (role, rc)) .user [.done c role rc, .ret c rc]

/-- A parked call returns what its completion has left in the task's record. -/
inductive Returns (k : Task) (c : CallId) : Pc → Rc → Prop where
  | chan (role) : Returns k c (.chanPark c role) k.chanResult
  | select (cases plan) : Returns k c (.selectPark c cases plan) k.selectResult
  | join (x) : Returns k c (.joinPark c x) k.joinResult

/-- A worker goes on in its loop, possibly giving up the lock or taking it again. -/
inductive Loops (w : Nat) : WorkerPc → Option Nat → WorkerPc → Option Nat → Prop where
  | keep {p q} : p.locked = true → q.locked = true → Loops w p (some w) q (some w)
  | drop {p q} : p.locked = true → q.active = true → q.locked = false → (∀ t, q ≠ .running t) →
      Loops w p (some w) q none
  | take {p q} : p.active = true → p.locked = false → (∀ t, p ≠ .running t) → q.locked = true →
      Loops w p none q (some w)
  | collect {k batch lock} : Loops w (.polling k) lock (.polled k batch) lock

namespace Sys

/-- What is in `*selected_index` after a section of call `c` at `q`: only a select stores
there. -/
def Indexes (s : Sys) (q : Pc) (c : CallId) (index : CallId → Option Nat) : Prop :=
  index = s.selectedIndex ∨
    q.selects = true ∧ ∃ i, index = Function.update s.selectedIndex c (some i)

theorem Indexes.same (s : Sys) (q : Pc) (c : CallId) : s.Indexes q c s.selectedIndex := .inl rfl

theorem Indexes.store {s : Sys} {q : Pc} (hq : q.selects = true) (c : CallId) (i : Nat) :
    s.Indexes q c (s.storeIndex c i).selectedIndex := .inr ⟨hq, i, rfl⟩

/-- The steps of the system. -/
inductive Case (s : Sys) : Act → Sys → Prop where
  /-- user code calls an API function -/
  | calls (a call) : s.enabled a = true → s.pc a.agent = .user →
      Case s (.api a call) (s.enter a call)
  /-- a section of a call -/
  | acts (a env c o p es os index) {rt} : s.enabled a = true → (s.pc a.agent).call? = some c →
      (s.pc a.agent).parked = false → (s.pc a.agent).inRun = false →
      (os = s.os ∨ (s.pc a.agent).onFd = true) →
      Section (Pc.Does a.agent (s.pc a.agent)) c s.rt o rt → Onward c (s.pc a.agent) rt o p es →
      s.Indexes (s.pc a.agent) c index →
      Case s (.cont a env) ({ s with
        rt := { rt with log := rt.log ++ es }, os := os, selectedIndex := index }.setPc a.agent p)
  /-- a resumed task collects its descriptor waiter -/
  | resumesFd (w t env c v use o p es) : s.workers w = .running t →
      s.pc (.task t) = .fdPark c v use → (∀ q ∈ o, q.1 = Role.neither) →
      Onward c (s.pc (.task t)) s.rt o p es → Case s (.cont (.task w t) env)
        ({ s with rt := { s.rt.finishFd t v with log := s.rt.log ++ es } }.setPc (.task t) p)
  | returns (w t env c rc index) : s.workers w = .running t →
      Returns (s.rt.task t) c (s.pc (.task t)) rc → s.Indexes (s.pc (.task t)) c index →
      Case s (.cont (.task w t) env)
        ({ s with rt := s.rt.record (.ret c rc), selectedIndex := index }.setPc (.task t) .user)
  /-- after `mt_yield` or `mt_sleep_ms` -/
  | goesOn (w t env) : s.workers w = .running t → s.pc (.task t) = .switchPark →
      Case s (.cont (.task w t) env) (s.setPc (.task t) .user)
  | parks (w t env c p) {rt b} : s.workers w = .running t → s.lock = none →
      (s.pc (.task t)).call? = some c → (s.pc (.task t)).parked = false →
      Parks t c (s.pc (.task t)) s.rt p rt → Marked rt.leave b → s.rt.tape = env.tape →
      Case s (.cont (.task w t) env)
        (({ s with rt := b, lock := some w }.setPc (.task t) p).setWorker w .top)
  | finishes (w t) {b} : s.workers w = .running t → s.lock = none → s.pc (.task t) = .user →
      Buries t (s.rt.leave.die t) b → Case s (.finish w t)
        (({ s with rt := b, lock := some w }.setPc (.task t) .finished).setWorker w .top)
  | writes (a addr v) : s.enabled a = true → s.pc a.agent = .user →
      Case s (.write a addr v) { s with rt := s.rt.writeMem addr v }
  /-- user code opens or closes a descriptor -/
  | descriptors {act} (os interest filters) :
      ((∃ a fd flags, act = .osOpen a fd flags) ∨ ∃ a fd, act = .osClose a fd) →
      ((∃ a fd flags, act = .osOpen a fd flags ∧ s.os.file fd = none ∧
          os = s.os.issue fd flags ∧ interest = s.rt.interest ∧ filters = s.rt.filters) ∨
        ∃ a fd, act = .osClose a fd ∧ os = s.os.close fd ∧
          interest = Function.update s.rt.interest fd none ∧
          filters = Function.update s.rt.filters fd fun _ => false) →
      Case s act { s with os := os, rt := { s.rt with interest := interest, filters := filters } }
  -- `mt_run_internal` and `mt_shutdown`, on an external thread
  | runBegins (n env c k sleepForTimers) : s.pc (.ext n) = .called c (.run k sleepForTimers) → 0 < k →
      s.rt.initialized = true → s.rt.running = false →
      Case s (.cont (.ext n) env) ({ s with
        rt := { s.rt with running := true, stopping := false, runResult := .ok, workerCount := k }
        sleepForTimers := sleepForTimers }.setPc (.ext n) (.runAlloc c k))
  | runPrepares (n env c k tape) : s.pc (.ext n) = .runAlloc c k → 1 < k →
      Case s (.cont (.ext n) env)
        ({ s with rt := { s.rt with tape := tape } }.setPc (.ext n) (.runSpawn c k 1))
  | runFails (n env c k tape) : s.pc (.ext n) = .runAlloc c k →
      Case s (.cont (.ext n) env)
        (s.ret (.ext n) c .neither .nomem { s.rt with tape := tape, running := false })
  | spawns (n env c k j) : s.pc (.ext n) = .runSpawn c k j → j < k →
      Case s (.cont (.ext n) env) ((s.setWorker j .start).setPc (.ext n) (.runSpawn c k (j + 1)))
  | launches (n env c) : (∃ k, s.pc (.ext n) = .runAlloc c k) ∨
        (∃ k j, s.pc (.ext n) = .runSpawn c k j ∧ k ≤ j) →
      Case s (.cont (.ext n) env) ((s.setWorker 0 .start).setPc (.ext n) (.runLoop c))
  | aborts (n env c k j) : s.pc (.ext n) = .runSpawn c k j →
      Case s (.cont (.ext n) env)
        ({ s with rt := { s.rt with runResult := .err, stopping := true } }.setPc (.ext n)
          (.runAbort c))
  | runEnds (n env c) : s.pc (.ext n) = .runLoop c → s.lock = none →
      (∀ w < s.rt.workerCount, s.workers w = .exited ∨ s.workers w = .off) →
      Case s (.cont (.ext n) env)
        ({ s with workers := fun _ => .off }.ret (.ext n) c .neither s.rt.runResult
          { s.rt with running := false, stopping := false })
  | abortEnds (n env c) : s.pc (.ext n) = .runAbort c → s.lock = none →
      (∀ w < s.rt.workerCount, s.workers w = .exited ∨ s.workers w = .off) →
      Case s (.cont (.ext n) env)
        ({ s with workers := fun _ => .off }.ret (.ext n) c .neither .err
          { s.rt with running := false })
  | halts (n env c) {rt} : s.pc (.ext n) = .called c .shutdown → s.rt.running = true →
      FdShifts .halt s.rt.halt rt → Case s (.cont (.ext n) env) (s.ret (.ext n) c .neither .ok rt)
  | shutsDown (n env c) {rt} : s.pc (.ext n) = .called c .shutdown → s.rt.initialized = true →
      s.rt.running = false → s.Alone (.ext n) → ShutDown s.rt rt →
      Case s (.cont (.ext n) env) (s.ret (.ext n) c .neither .ok rt)
  -- the worker loop
  | starts (w env) : s.workers w = .start → s.lock = none →
      Case s (.worker w env) ({ s with
        rt := { s.rt with activeWorkers := s.rt.activeWorkers + 1 }
        lock := some w }.setWorker w .top)
  | startFails (w env) : s.workers w = .start →
      Case s (.worker w env)
        ({ s with rt := { s.rt with runResult := .err, stopping := true } }.setWorker w .exited)
  | loops {act} (w q lock) {rt} :
      ((∃ env, act = .worker w env) ∨ ∃ batch, act = .collect w batch) →
      Loops w (s.workers w) s.lock q lock → Ticks ((s.workers w).cause act.nowNs) s.rt rt →
      ((∃ batch, act = .collect w batch) → rt = s.rt) →
      Case s act ({ s with rt := rt, lock := lock }.setWorker w q)
  | exits (w env rc) : (s.workers w).locked = true → s.lock = some w →
      (rc = s.rt.runResult ∧ (s.rt.stopping = true ∨ s.rt.liveCount = 0) ∨ rc = .state) →
      Case s (.worker w env) (s.workerExit w { s.rt with runResult := rc, stopping := true })
  | dispatches (w env t q) {b} : s.workers w = .pop → s.lock = some w →
      s.rt.runq.pop = some (t, q) → Marked (s.rt.dispatch t q) b →
      Case s (.worker w env) (({ s with rt := b, lock := none }.setPc (.task t)
        (if s.pc (.task t) = Pc.fresh then Pc.user else s.pc (.task t))).setWorker w (.running t))

/-! ## The invariant of the system -/

/-- The record of a registered task fits the place where the task stands. -/
structure Fits (k : Task) (p : Pc) : Prop where
  running : k.state = .running → p ≠ .fresh ∧ p ≠ .finished
  ready : k.state = .ready → p = .fresh ∨ p.parked = true
  sleeping : k.state = .sleeping → p = .switchPark
  chan : k.state = .waitingChan → p = .chanPark k.call k.chanRole
  select : k.state = .waitingSelect → ∃ cases plan, p = .selectPark k.call cases plan
  join : k.state = .waitingJoin → ∃ x, p = .joinPark k.call x ∧ k.joinWaitingOn = some x
  fd : k.state = .waitingFd → ∃ w use, p = .fdPark k.call w use
  fdWaiter : ∀ w, k.fdWaiter = some w ↔ ∃ c use, p = .fdPark c w use
  call : ∀ c, p.call? = some c → k.call = c

/-- The state of the workers fits the progress of `mt_run_internal`. -/
structure RunInv (s : Sys) : Prop where
  bound : ∀ w, s.workers w ≠ .off → w < s.rt.workerCount ∧ s.rt.running = true
  runner : ∀ a, (s.pc a).inRun = true → s.rt.running = true
  single : ∀ a b, (s.pc a).inRun = true → (s.pc b).inRun = true → a = b
  alloc : ∀ a c k, s.pc a = .runAlloc c k → ∀ w, s.workers w = .off
  allocCount : ∀ a c k, s.pc a = .runAlloc c k → 0 < k ∧ s.rt.workerCount = k
  spawn : ∀ a c k j, s.pc a = .runSpawn c k j → 0 < j ∧ 1 < k ∧ s.rt.workerCount = k ∧
    s.workers 0 = .off ∧ ∀ w, j ≤ w → s.workers w = .off
  task : ∀ t, (s.pc (.task t)).inRun = false
  exited : ∀ w, s.workers w = .exited → s.rt.stopping = true
  active : s.rt.activeWorkers = (List.range s.rt.workerCount).countP fun w => (s.workers w).active

/-- The invariant of the system. -/
structure Ok (s : Sys) : Prop where
  rest : s.rt.Rest
  off : s.rt.initialized = false → s.rt.Off ∧ s.rt.running = false
  runs : ∀ t, s.rt.Runs t ↔ ∃ w, s.workers w = .running t
  once : ∀ w v t, s.workers w = .running t → s.workers v = .running t → w = v
  lock : ∀ w, s.lock = some w ↔ (s.workers w).locked = true
  run : s.RunInv
  fits : ∀ t ∈ s.rt.allTasks, Fits (s.rt.task t) (s.pc (.task t))
  fresh : ∀ t, s.rt.made (.task t) = false → s.pc (.task t) = .fresh
  tried : ∀ t, s.rt.Runs t → s.rt.Tried (s.pc (.task t))
  triedExt : ∀ n, s.rt.Tried (s.pc (.ext n))

end Sys

end Microthread
