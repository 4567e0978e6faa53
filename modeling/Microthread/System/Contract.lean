import Microthread.Invariant.Shutdown
import Microthread.System.Step

/-!
# What the user program promises

The API takes pointers. A program keeps the contract when every section of its
calls finds the channels it names alive and the handles it names alive and not
yet released, and when it shuts an idle runtime down only while no other thread
is inside a call. Nothing else is assumed about programs: they may make any
calls in any order, on any number of workers.
-/

namespace Microthread

open Foundation

/-- The objects that a call names may be used. -/
def Api.Valid (rt : Rt) : Api → Prop
  | .join x | .cancel x | .status x | .release x => rt.Usable x
  | .chanSend (some ch) (some _) | .chanRecv (some ch) (some _) | .chanTrySend (some ch) (some _)
  | .chanTryRecv (some ch) (some _) | .chanClose ch | .chanDestroy ch => rt.Live (.chan ch)
  | _ => True

instance (rt : Rt) (call : Api) : Decidable (call.Valid rt) := by
  unfold Api.Valid
  split <;> infer_instance

namespace Sys

variable (s : Sys)

/-- No other external thread is inside a call. -/
def Alone (a : Agent) : Prop := ∀ n, Agent.ext n ≠ a → s.pc (.ext n) = .user

/-- The channel of a select case is alive. -/
def CaseLive (k : SelectCase) : Prop := k.isChannel = true → s.rt.Live (.chan (k.ch.getD 0))

instance (k : SelectCase) : Decidable (s.CaseLive k) := inferInstanceAs (Decidable (_ → _))

/-- The promise for a section of a call in progress. -/
def SectionOk (a : Agent) : Prop :=
  match s.pc a with
  | .called _ .shutdown => s.rt.running = false → s.Alone a
  | .called _ call => call.Valid s.rt
  | .selectTry _ cases _ i => ∀ k ∈ cases[i]?, s.CaseLive k
  | .selectReg _ cases _ => ∀ k ∈ cases, s.CaseLive k
  | _ => True

/-- The promises of user programs. -/
def Contract : Act → Prop
  | .cont a _ => s.SectionOk a.agent
  | _ => True

/-- After the trials a select chooses a case and ends, or goes on to register. -/
theorem selectAfterTrials_cases (s : Sys) (a : Actor) (c : CallId) (cases : List SelectCase)
    (p : SelectPlan) :
    (∃ d, s.selectAfterTrials a c cases p = (s.storeIndex c d).ret a c .neither .ok s.rt) ∨
      s.selectAfterTrials a c cases p = s.setPc a.agent (.selectReg c cases p) := by
  unfold selectAfterTrials
  split
  · exact .inl ⟨_, rfl⟩
  · split
    · split
      · exact .inl ⟨_, rfl⟩
      · exact .inr rfl
    · exact .inr rfl

end Sys

/-! ## Classes of program counters -/

/-- The call that an agent is in. -/
def Pc.call? : Pc → Option CallId
  | .called c _ | .selectTry c .. | .selectReg c .. | .chanPark c _ | .selectPark c ..
  | .joinPark c _ | .fdPark c .. | .fdAdopt c .. | .fdAdopting c .. | .fdRestoring c ..
  | .ioCall c _ | .ioWait c _ | .acceptDrop c _ | .fdClosing c .. | .fdClosed c ..
  | .runAlloc c _ | .runSpawn c .. | .runLoop c | .runAbort c => some c
  | .fresh | .user | .switchPark | .finished => none

/-- The agent has switched to its scheduler inside a call. -/
def Pc.parked : Pc → Bool
  | .chanPark .. | .selectPark .. | .joinPark .. | .switchPark | .fdPark .. => true
  | _ => false

/-- The agent is in `mt_select`, trying its cases or parked. -/
def Pc.selects : Pc → Bool
  | .selectTry .. | .selectPark .. => true
  | _ => false

/-- The agent is in `mt_run_internal`. -/
def Pc.inRun : Pc → Bool
  | .runAlloc .. | .runSpawn .. | .runLoop _ | .runAbort _ => true
  | _ => false

/-- The call is a descriptor operation. -/
def Api.onFd : Api → Bool
  | .fdAdopt _ | .fdRelease _ | .fdWait .. | .fdRead .. | .fdWrite .. | .netAccept .. | .fdClose _ =>
      true
  | _ => false

/-- The agent runs a descriptor operation. -/
def Pc.onFd : Pc → Bool
  | .called _ call => call.onFd
  | .fdPark .. | .fdAdopt .. | .fdAdopting .. | .fdRestoring .. | .ioCall .. | .ioWait ..
  | .acceptDrop .. | .fdClosing .. | .fdClosed .. => true
  | _ => false

/-- The select cases that the trial pass has found blocked. -/
def Pc.tried : Pc → List SelectCase
  | .selectTry _ cases _ i => cases.take i
  | .selectReg _ cases _ => cases
  | _ => []

/-- A channel that was found open stays registered until it is destroyed. -/
def Rt.Tried (s : Rt) (p : Pc) : Prop :=
  ∀ k ∈ p.tried, k.isChannel = true → k.ch.getD 0 ∈ s.channels ∨ ¬s.Live (.chan (k.ch.getD 0))

/-- The case cannot be served now. -/
def Rt.CaseBlocks (s : Rt) (k : SelectCase) : Prop :=
  match k.op with
  | .send => s.SendBlocks (k.ch.getD 0)
  | .recv => s.RecvBlocks (k.ch.getD 0)
  | _ => True

instance (s : Rt) (k : SelectCase) : Decidable (s.CaseBlocks k) := by
  unfold Rt.CaseBlocks
  split <;> infer_instance

/-- A section that does not end its call takes it from `q` to the given place. The trial
pass starts with the plan of the call's cases and goes on only past cases that it has found
blocked, and descriptor operations are reached from descriptor operations only. -/
def Pc.Follows (s : Rt) (q : Pc) : Pc → Prop
  | .called .. => False
  | .selectTry c cases plan i =>
      (i = 0 → q = .called c (.select cases) ∧ Rt.selectScan cases 0 {} = some plan) ∧
      ∀ j, i = j + 1 → q = .selectTry c cases plan j ∧ ∀ k ∈ cases[j]?, s.CaseBlocks k
  | .selectReg c cases plan => ∃ j, q = .selectTry c cases plan j ∧ cases.length ≤ j
  | p => p.onFd = true → q.onFd = true

/-- The descriptor and the events that a wait at this place asks for. -/
def Pc.waitsFor : Pc → Option (Nat × Nat)
  | .called _ (.fdWait fd events _) => if fdValidateEvents events then some (fd, events) else none
  | .ioWait _ op => some (op.fd, op.events)
  | _ => none

/-- What the call of `g` at `p` has asked for. -/
def Pc.Does (g : Agent) (p : Pc) : Rt.Op → Prop
  | .go => ∃ c fn n b, p = .called c (.go fn n b)
  | .chanCreate => ∃ c e k, p = .called c (.chanCreate e k)
  | .cancel x => ∃ c, p = .called c (.cancel x)
  | .release x => ∃ c, p = .called c (.release x)
  | .send .plain ch value => ∃ c, p = .called c (.chanSend (some ch) (some value))
  | .send .nonblocking ch value => ∃ c, p = .called c (.chanTrySend (some ch) (some value))
  | .send .select ch value => ∃ c cases plan i n, p = .selectTry c cases plan i ∧
      cases[i]? = some ⟨.send, some ch, some value, n⟩
  | .recv ch out => (∃ c, p = .called c (.chanRecv (some ch) (some out))) ∨
      (∃ c, p = .called c (.chanTryRecv (some ch) (some out))) ∨
      ∃ c cases plan i n, p = .selectTry c cases plan i ∧
        cases[i]? = some ⟨.recv, some ch, some out, n⟩
  | .close ch => ∃ c, p = .called c (.chanClose ch)
  | .destroy ch => ∃ c, p = .called c (.chanDestroy ch)
  | .unpark t => g = .task t
  | .select => ∃ c cases plan, p = .selectReg c cases plan
  | .fd => p.onFd = true
  | .fdWait fd events => p.waitsFor = some (fd, events)
  | .fdAdopt fd flags => ∃ c use, p = .fdAdopting c fd flags use
  | .fdRelease fd => ∃ c, p = .called c (.fdRelease fd)
  | .fdClose fd => ∃ c, p = .called c (.fdClose fd)
  | .fdUnmark fd => ∃ c rc, p = .fdClosed c fd rc
  | .osClose fd => (∃ c inst, p = .fdClosing c fd inst) ∨ ∃ c, p = .acceptDrop c fd

/-- The reading of the clock that an action brings along. -/
def Act.nowNs : Act → Nat
  | .worker _ env => env.nowNs
  | _ => 0

/-- What the worker's next section ends waits for descriptors with. -/
def WorkerPc.cause (nowNs : Nat) : WorkerPc → FdCause
  | .polled _ batch => .ready batch
  | _ => .expiry nowNs

/-- The worker is in its loop. -/
def WorkerPc.active : WorkerPc → Bool
  | .off | .start | .exited => false
  | _ => true

/-- The worker is at a point of its loop where it holds the lock. -/
def WorkerPc.locked : WorkerPc → Bool
  | .top | .pop => true
  | _ => false

end Microthread
