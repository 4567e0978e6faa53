import Microthread.Invariant.Storage
import Microthread.Model.Links
import Microthread.Properties.SingleWorker

/-!
# Shutting down an idle runtime

`mt_shutdown` with no run in progress gives back everything the runtime holds and leaves
the channels and handles of the user closed and completed.
-/

namespace Microthread

open Foundation Rt

section Runs

variable {s s' : Rt} {t : TaskId}

theorem Rt.SelectParks.frugal {cases : List SelectCase} {plan : SelectPlan}
    (hp : SelectParks t cases plan s s') (h : s.Frugal) (hrest : s.Rest) (hr : s.Runs t)
    (hch : s.CasesRegistered cases) : s'.Frugal := by
  have key : ∀ tape, (s.enrolled t cases plan tape).Frugal := fun tape =>
    Registers.frugal (enrolled_registers (hrest.noWaiters t hr) hch plan tape) h hrest.inv hr.1 hr.2
  cases hp with
  | untimed tape => exact (key tape).step (.update rfl rfl rfl rfl rfl rfl)
  | timed tape timers wakeNs i => exact (key tape).step (.update rfl rfl rfl rfl rfl rfl)

theorem Parks.frugal {c : CallId} {q p : Pc} (hp : Parks t c q s p s') (h : s.Frugal)
    (hrest : s.Rest) (hr : s.Runs t) : s'.Frugal := by
  cases hp with
  | send => exact h.step (.update rfl rfl rfl rfl rfl rfl)
  | recv => exact h.step (.update rfl rfl rfl rfl rfl rfl)
  | select cases plan _ hch hp => exact hp.frugal h hrest hr hch
  | join => exact h.step (.update rfl rfl rfl rfl rfl rfl)
  | sleep => exact h.step (.update rfl rfl rfl rfl rfl rfl)
  | yield => exact h.step (.update rfl rfl rfl rfl rfl rfl)
  | fd timers wakeNs x use _ hq =>
      exact (Shifts.frugal (.single hq.shift) h hrest.inv).parkFd (hq.inv hrest.inv) t timers wakeNs x

end Runs

namespace Sys

variable {s s' : Sys}

theorem Case.frugal {act : Act} (hc : Case s act s') (h : s.Ok) (hf : s.rt.Frugal)
    (hdown : ∀ {r}, ShutDown s.rt r → r.Frugal) : s'.rt.Frugal := by
  have hi := h.rest.inv
  have still : ∀ {r : Rt}, r.allTasks = s.rt.allTasks → r.fdWaiters = s.rt.fdWaiters →
      r.task = s.rt.task → r.made = s.rt.made → r.frees = s.rt.frees → r.Frugal :=
    fun h1 h2 h3 h4 h5 => hf.step (.of_eq h1 h2 (fun _ _ => by rw [h3]) h4 h5)
  cases hc with
  | calls a call =>
      cases a with
      | ext n => exact hf
      | task w t => exact hf.step (.update rfl rfl rfl rfl rfl rfl)
  | acts a env c o p es os sel _ _ _ _ _ hs hon =>
      have hsec := hs.frugal hf h.rest
      exact ⟨hsec.held, hsec.gone⟩
  | resumesFd w t env c v use o p es hw hpc =>
      have hr : s.rt.Runs t := (h.runs t).mpr ⟨w, hw⟩
      have hlink := (h.fits t hr.1).fdWaiter v |>.mpr ⟨c, use, hpc⟩
      have hfin := hf.finishFd hi hr.1 hlink
      exact ⟨hfin.held, hfin.gone⟩
  | parks w t env c p hw hl hcall hnp hp hm =>
      have hr : s.rt.Runs t := (h.runs t).mpr ⟨w, hw⟩
      exact Shifts.frugal hm.shifts (hp.frugal hf h.rest hr).leave (hp.parked h.rest hr).inv.leave
  | finishes w t hw hl hpc hb =>
      have hr : s.rt.Runs t := (h.runs t).mpr ⟨w, hw⟩
      have hdie : (s.rt.leave.die t).Frugal := hf.leave.step (.update rfl rfl rfl rfl rfl rfl)
      exact hb.frugal hdie (hi.leave.die hr.1 hr.2 (h.rest.noWaiters t hr))
  | halts n env c hpc hr hm =>
      have hinv : s.rt.halt.Inv := hi.congr (by constructor <;> rfl) rfl rfl rfl rfl
      have hshift := Shifts.frugal (FdShifts.shifts hm) ⟨hf.held, hf.gone⟩ hinv
      exact ⟨hshift.held, hshift.gone⟩
  | shutsDown n env c _ _ _ _ hd =>
      have hoff := hdown hd
      exact ⟨hoff.held, hoff.gone⟩
  | loops w q lock _ hl hm => exact Shifts.frugal (Ticks.shifts hm) hf hi
  | dispatches w env t q hw hl hq hm =>
      have hdisp : (s.rt.dispatch t q).Frugal := hf.step (.update rfl rfl rfl rfl rfl rfl)
      exact Shifts.frugal hm.shifts hdisp (h.rest.dispatch hq).1.inv
  | _ => exact ⟨hf.held, hf.gone⟩

theorem frugal_of_reach (h : machine.Reach Contract s) : s.rt.Frugal := by
  refine invariant_of_cases (C := fun _ _ => True) (I := fun s => s.rt.Frugal)
    (fun kind => ⟨fun o ho => ?_, fun o _ hm _ => ?_⟩) (fun s s₀ hok hp hf => ?_)
    (fun _ _ _ _ _ _ => trivial) (fun s a s' hok hf _ hc => ?_)
    (h.mono fun _ _ hc => ⟨hc, trivial⟩)
  · rfl
  · cases hm
  · rcases hp.cases hok with ⟨tape, rfl⟩ | ⟨-, hoff, rt, hb, rfl⟩
    · exact ⟨hf.held, hf.gone⟩
    · refine ⟨fun o ho => absurd ho (hb.off.not_holds o), fun o hi hm _ => ?_⟩
      change rt.made o = true at hm
      change rt.frees o = 1
      rw [hb.made] at hm
      rw [hb.frees]
      exact hf.gone o hi hm (hoff.not_holds o)
  · exact hc.frugal hok hf fun hd => hd.frugal hf hok.rest.inv

end Sys

/-! ## What the objects of the user refer to -/

namespace Rt

variable {s s' : Rt} {o o' : Obj}

/-- The fields of channels and handles that the API follows, and the registries that it walks
along to take one of them out. -/
inductive Follows (s : Rt) : Obj → Obj → Prop where
  | sender (ch : ChanId) (t : TaskId) : t ∈ (s.waitq (.senders ch)).items →
      Follows s (.chan ch) (.task t)
  | receiver (ch : ChanId) (t : TaskId) : t ∈ (s.waitq (.receivers ch)).items →
      Follows s (.chan ch) (.task t)
  | selectSender (ch : ChanId) (w : WaiterId) : w ∈ (s.selectq (.senders ch)).items →
      Follows s (.chan ch) (.selectWaiter w)
  | selectReceiver (ch : ChanId) (w : WaiterId) : w ∈ (s.selectq (.receivers ch)).items →
      Follows s (.chan ch) (.selectWaiter w)
  | task (x : HandleId) (t : TaskId) : (s.handle x).task = some t →
      Follows s (.handle x) (.task t)
  | joiner (x : HandleId) (t : TaskId) : t ∈ (s.waitq (.joiners x)).items →
      Follows s (.handle x) (.task t)
  | channels (ch y : ChanId) : y ∈ s.channels → Follows s (.chan ch) (.chan y)
  | handles (x y : HandleId) : y ∈ s.handles → Follows s (.handle x) (.handle y)

theorem Inv.live_waiting (h : s.Inv) {r : WaitqRef} {t : TaskId} (ht : t ∈ (s.waitq r).items) :
    s.Live (.task t) :=
  h.heap.task t (h.mem_waitq ht).1

theorem Inv.live_selecting (h : s.Inv) (hf : s.Frugal) {r : SelectqRef} {w : WaiterId}
    (hw : w ∈ (s.selectq r).items) : s.Live (.selectWaiter w) := by
  obtain ⟨ht, hlisted, -⟩ := h.mem_selectq hw
  have hold : s.Holds (.selectWaiter w) := ⟨_, ht, hlisted⟩
  exact ⟨h.made_of_holds hold, hf.held _ hold⟩

/-- What a living object refers to is alive. -/
theorem Inv.follows_live (h : s.Inv) (hf : s.Frugal) (ho : s.Live o) (hfol : s.Follows o o') :
    s.Live o' := by
  cases hfol with
  | sender ch t ht => exact h.live_waiting ht
  | receiver ch t ht => exact h.live_waiting ht
  | joiner x t ht => exact h.live_waiting ht
  | selectSender ch w hw => exact h.live_selecting hf hw
  | selectReceiver ch w hw => exact h.live_selecting hf hw
  | channels ch y hy => exact h.chan.live y hy
  | handles x y hy => exact h.handle.live y hy
  | task x t ht =>
      by_cases hx : x ∈ s.handles
      · exact h.heap.task t (h.handle.back x hx t ht).1
      · rw [(h.handle.gone x ho.1 hx).1] at ht
        cases ht

/-- The effect of `mt_shutdown` on the objects. -/
structure Cleared (s s' : Rt) : Prop where
  /-- tasks, select waiters and descriptor waiters are freed once -/
  held : ∀ o, s.Holds o → s.frees o = 0 ∧ s'.frees o = 1
  others : ∀ o, o.internal = true → ¬s.Holds o → s'.frees o = s.frees o
  nothingLeft : ∀ o, o.internal = true → s'.made o = true → s'.frees o = 1
  released : ∀ x ∈ s.handles, (s.handle x).released = true →
    s.frees (.handle x) = 0 ∧ s'.frees (.handle x) = 1
  unreleased : ∀ x, ¬(x ∈ s.handles ∧ (s.handle x).released = true) →
    s'.frees (.handle x) = s.frees (.handle x)
  kept : ∀ ch, s'.frees (.chan ch) = s.frees (.chan ch)
  /-- of a channel only the flag and the queues change -/
  chan : ∀ ch, s'.Live (.chan ch) → s'.chan ch = { s.chan ch with closed := true } ∧
    s'.waitq (.senders ch) = {} ∧ s'.waitq (.receivers ch) = {} ∧
    s'.selectq (.senders ch) = {} ∧ s'.selectq (.receivers ch) = {}
  handle : ∀ x, s'.Live (.handle x) → (s'.handle x).completed = true ∧
    (s'.handle x).task = none ∧ s'.waitq (.joiners x) = {}

theorem Off.handle_done (h : s.Off) {x : HandleId} (hx : s.Live (.handle x)) :
    (s.handle x).completed = true ∧ (s.handle x).task = none ∧ s.waitq (.joiners x) = {} := by
  obtain ⟨htask, hfrees, hdone⟩ := h.gone x hx.1
  refine ⟨hdone ?_, htask, h.waitq _⟩
  cases hrel : (s.handle x).released with
  | false => rfl
  | true =>
      rw [hrel, if_pos rfl, hx.2] at hfrees
      cases hfrees

/-- A runtime that is off has nothing to clear. -/
theorem Off.cleared (h : s.Off) (hf : s.Frugal) : s.Cleared s where
  held o ho := absurd ho (h.not_holds o)
  others _ _ _ := rfl
  nothingLeft o hi hm := hf.gone o hi hm (h.not_holds o)
  released x hx := by simp [h.handles] at hx
  unreleased _ _ := rfl
  kept _ := rfl
  chan ch hl := by
    have hclosed := h.closed ch hl
    refine ⟨?_, h.waitq _, h.waitq _, h.selectq _, h.selectq _⟩
    cases hk : s.chan ch
    simp_all
  handle x hx := h.handle_done hx

theorem ShutDown.cleared (hd : ShutDown s s') (h : s.Inv) (hf : s.Frugal) : s.Cleared s' where
  held o ho := ⟨hf.held o ho, hd.frees_eq_one hf h ho.internal (h.made_of_holds ho)⟩
  others o hi ho := by rw [hd.freesHeld o hi, h.holdings_eq_zero hi ho, add_zero]
  nothingLeft o hi hm := hd.frees_eq_one hf h hi (hd.made ▸ hm)
  released x hx hrel := ⟨(h.handle.live x hx).2, by rw [hd.freesHandle, if_pos ⟨hx, hrel⟩]⟩
  unreleased x hx := by rw [hd.freesHandle, if_neg hx]
  kept := hd.freesChan
  chan ch hl := by
    refine ⟨?_, hd.off.waitq _, hd.off.waitq _, hd.off.selectq _, hd.off.selectq _⟩
    rw [hd.chan]
    split
    · rfl
    · next hreg =>
        -- a living channel that is not registered has been closed before
        have hclosed := hd.off.closed ch hl
        rw [hd.chan, if_neg hreg] at hclosed
        cases hk : s.chan ch
        simp_all
  handle x hx := hd.off.handle_done hx

end Rt

/-! ## Down to the links -/

/-- The cells hold the registries and, at the addresses `cells`, the generation entries. -/
structure RegistryMem.Mirrors (m : RegistryMem) (s : Rt) (cells : List Nat) : Prop where
  channels : m.channels.Lists s.channels
  handles : m.handles.Lists s.handles
  generations : m.fdGenerations.Lists cells
  entries : cells.map m.generation = s.fdGenerations

namespace RegistryMem.Mirrors

variable {m : RegistryMem} {s : Rt} {cells : List Nat}

/-! Entering and leaving a registry does to the links what it does to the lists. -/

theorem chanRegister (hm : m.Mirrors s cells) {ch : ChanId} (hnew : ch ∉ s.channels) :
    (m.chanRegister ch).Mirrors (s.chanRegister ch) cells :=
  ⟨hm.channels.register hnew, hm.handles, hm.generations, hm.entries⟩

theorem handleRegister (hm : m.Mirrors s cells) {x : HandleId} (hnew : x ∉ s.handles) :
    (m.handleRegister x).Mirrors (s.handleRegister x) cells :=
  ⟨hm.channels, hm.handles.register hnew, hm.generations, hm.entries⟩

theorem chanUnregister (hm : m.Mirrors s cells) (h : s.Inv) (ch : ChanId) {fuel : Nat}
    (hfuel : s.channels.length < fuel) :
    ∃ m', m.chanUnregister (fun y => decide (s.Live (.chan y))) fuel ch = some m' ∧
      m'.Mirrors (s.chanUnregister ch) cells := by
  obtain ⟨channels, heq, hlists⟩ := hm.channels.unregister
    (fun y hy => decide_eq_true (h.chan.live y hy)) ch hfuel
  refine ⟨{ m with channels := channels }, ?_, hlists, hm.handles, hm.generations, hm.entries⟩
  rw [RegistryMem.chanUnregister, heq]
  rfl

theorem handleUnregister (hm : m.Mirrors s cells) (h : s.Inv) (x : HandleId) {fuel : Nat}
    (hfuel : s.handles.length < fuel) :
    ∃ m', m.handleUnregister (fun y => decide (s.Live (.handle y))) fuel x = some m' ∧
      m'.Mirrors (s.handleUnregister x) cells := by
  obtain ⟨handles, heq, hlists⟩ := hm.handles.unregister
    (fun y hy => decide_eq_true (h.handle.live y hy)) x hfuel
  rw [Rt.handleUnregister_eq fun y hy => (h.handle.live y hy).2]
  refine ⟨{ m with handles := handles }, ?_, hm.channels, hlists, hm.generations, hm.entries⟩
  rw [RegistryMem.handleUnregister, heq]
  rfl

end RegistryMem.Mirrors

/-- Taking a channel or a handle out of its registry dereferences living objects only. -/
def Rt.WalksSafely (s : Rt) : Prop :=
  ∀ m cells, RegistryMem.Mirrors m s cells →
    (∀ ch fuel, s.channels.length < fuel → ∃ m',
      m.chanUnregister (fun y => decide (s.Live (.chan y))) fuel ch = some m') ∧
    ∀ x fuel, s.handles.length < fuel → ∃ m',
      m.handleUnregister (fun y => decide (s.Live (.handle y))) fuel x = some m'

theorem Rt.Inv.walksSafely {s : Rt} (h : s.Inv) : s.WalksSafely := by
  intro m cells hm
  refine ⟨fun ch fuel hfuel => ?_, fun x fuel hfuel => ?_⟩
  · obtain ⟨m', heq, -⟩ := hm.chanUnregister h ch hfuel
    exact ⟨m', heq⟩
  · obtain ⟨m', heq, -⟩ := hm.handleUnregister h x hfuel
    exact ⟨m', heq⟩

/-- The loop over the generation entries ends, and has freed each of them once. -/
theorem RegistryMem.Mirrors.ioBackendShutdown {m : RegistryMem} {s : Rt} {cells : List Nat}
    (hm : m.Mirrors s cells) {fuel : Nat} (hfuel : cells.length < fuel) {frees : Nat → Nat}
    (hlive : ∀ y ∈ cells, frees y = 0) :
    m.ioBackendShutdown fuel frees = some fun y => frees y + if y ∈ cells then 1 else 0 := by
  rw [RegistryMem.ioBackendShutdown, Registry.freeLoop_eq hm.generations _ hfuel hlive]
  simp

theorem RegistryMem.Mirrors.shutdownFreeHandles {m : RegistryMem} {s : Rt} {cells : List Nat}
    (hm : m.Mirrors s cells) (h : s.Inv) {fuel : Nat} (hfuel : s.handles.length < fuel)
    (released : HandleId → Bool) :
    m.shutdownFreeHandles released fuel (fun x => s.frees (.handle x)) =
      some fun x => s.frees (.handle x) + if x ∈ s.handles ∧ released x = true then 1 else 0 := by
  rw [RegistryMem.shutdownFreeHandles]
  exact Registry.freeLoop_eq hm.handles released hfuel fun x hx => (h.handle.live x hx).2

/-- The two loops over links agree with the step from `s` to `s'`, and the links of what
survives do not matter afterwards. -/
structure RegistryMem.Clears (m : RegistryMem) (s s' : Rt) (cells : List Nat) : Prop where
  generations : ∀ fuel frees, cells.length < fuel → (∀ y ∈ cells, frees y = 0) →
    m.ioBackendShutdown fuel frees = some fun y => frees y + if y ∈ cells then 1 else 0
  handles : ∀ fuel, s.handles.length < fuel →
    m.shutdownFreeHandles (fun x => (s.handle x).released) fuel (fun x => s.frees (.handle x)) =
      some fun x => s'.frees (.handle x)
  reset : m.reset.Mirrors s' []

theorem Rt.Cleared.clears {s s' : Rt} {m : RegistryMem} {cells : List Nat} (hc : s.Cleared s')
    (h : s.Inv) (hchannels : s'.channels = []) (hhandles : s'.handles = [])
    (hgens : s'.fdGenerations = []) (hm : m.Mirrors s cells) : m.Clears s s' cells where
  generations _ _ hfuel hlive := hm.ioBackendShutdown hfuel hlive
  handles fuel hfuel := by
    rw [hm.shutdownFreeHandles h hfuel]
    refine congrArg some (funext fun x => ?_)
    by_cases hx : x ∈ s.handles ∧ (s.handle x).released = true
    · obtain ⟨hzero, hone⟩ := hc.released x hx.1 hx.2
      rw [if_pos hx, hzero, hone]
    · rw [if_neg hx, hc.unreleased x hx, add_zero]
  reset := by
    refine ⟨?_, ?_, rfl, hgens.symm⟩
    · rw [hchannels]
      rfl
    · rw [hhandles]
      rfl

namespace Sys

variable {s s' : Sys}

/-- The step of `mt_shutdown` while no run is in progress. -/
theorem shutdown_cleared {n : Nat} {c : CallId} {env : Env} (h : machine.Reach Contract s)
    (hpc : s.pc (.ext n) = .called c .shutdown) (hidle : s.rt.running = false)
    (hs : machine.step s (.cont (.ext n) env) = some s') :
    s.rt.Cleared s'.rt ∧ (s.rt.initialized = true →
      s'.rt.channels = [] ∧ s'.rt.handles = [] ∧ s'.rt.fdGenerations = []) := by
  have hok := ok_of_reach (fun _ _ hc => hc) h
  have hf := frugal_of_reach h
  have heq := callApi_of_step (a := .ext n) hpc hs
  simp only [Sys.callApi] at heq
  cases hinit : s.rt.initialized with
  | false =>
      have hcl := (hok.off hinit).1.cleared hf
      rw [if_pos (by simp [Sys.tick, hinit])] at heq
      rw [heq]
      exact ⟨⟨hcl.held, hcl.others, hcl.nothingLeft, hcl.released, hcl.unreleased, hcl.kept,
        hcl.chan, hcl.handle⟩, fun hno => by cases hno⟩
  | true =>
      have hd := (hok.tick env.tape).rest.inv.shutDown
      have hcl := hd.cleared (hok.tick env.tape).rest.inv ⟨hf.held, hf.gone⟩
      rw [if_neg (by simp [Sys.tick, hinit]), if_neg (by simp [Sys.tick, hidle])] at heq
      rw [heq]
      exact ⟨⟨hcl.held, hcl.others, hcl.nothingLeft, hcl.released, hcl.unreleased, hcl.kept,
        hcl.chan, hcl.handle⟩, fun _ => ⟨hd.off.channels, hd.off.handles, hd.fdGenerations⟩⟩

/-- `mt_shutdown` without a run in progress frees what the runtime holds, once, and leaves the
channels and handles of the user without a way into freed memory, whatever is called later. An
initialised runtime also gives back its generation entries. -/
theorem idle_shutdown_complete {n : Nat} {c : CallId} {env : Env} (h : machine.Reach Contract s)
    (hpc : s.pc (.ext n) = .called c .shutdown) (hidle : s.rt.running = false)
    (hcon : s.Contract (.cont (.ext n) env)) (hs : machine.step s (.cont (.ext n) env) = some s') :
    s.rt.Cleared s'.rt ∧
      (s.rt.initialized = true → s'.rt.fdGenerations = [] ∧
        ∀ m cells, RegistryMem.Mirrors m s.rt cells → m.Clears s.rt s'.rt cells) ∧
      ∀ s₂, machine.Path Contract s' s₂ → s₂.rt.WalksSafely ∧
        ∀ o o', s₂.rt.Live o → s₂.rt.Follows o o' → s₂.rt.Live o' := by
  have hok := ok_of_reach (fun _ _ hc => hc) h
  obtain ⟨hcl, hempty⟩ := shutdown_cleared h hpc hidle hs
  refine ⟨hcl, fun hinit => ?_, fun s₂ hpath => ?_⟩
  · obtain ⟨hchannels, hhandles, hgens⟩ := hempty hinit
    exact ⟨hgens, fun m cells hm => hcl.clears hok.rest.inv hchannels hhandles hgens hm⟩
  · have hreach : machine.Reach Contract s₂ := (Machine.Reach.step h hcon hs).path hpath
    have hinv := (ok_of_reach (fun _ _ hc => hc) hreach).rest.inv
    exact ⟨hinv.walksSafely, fun o o' => hinv.follows_live (frugal_of_reach hreach)⟩

/-- One task waits for a value and one for the other task when the run ends; the handle of the
second has been released. -/
theorem idle_shutdown_complete_waiting : ∃ s s', machine.Reach Contract s ∧
    machine.step s (.cont (.ext 0) {}) = some s' ∧ (s.rt.task 1).state = .waitingChan ∧
    (s.rt.task 3).state = .waitingJoin ∧ s.rt.Holds (.task 3) ∧ s'.rt.frees (.task 3) = 1 ∧
    (s.rt.handle 2).released = true ∧ s'.rt.frees (.handle 2) = 1 ∧
    s'.rt.frees (.handle 0) = 0 ∧ (s'.rt.chan 4).closed = true := by
  obtain ⟨s, hs, hp⟩ := reach_of_trace_under Solo .poll (List.flatten [
    invoke (.ext 0) (.go true 0 true), invoke (.ext 0) (.go true 0 true),
    invoke (.ext 0) (.chanCreate 4 0), invoke (.ext 0) (.run 1 true) 2, works 0 3,
    invoke (.task 0 1) (.chanRecv (some 4) (some 100)), works 0 2,
    invoke (.task 0 3) (.join 0), works 0 2, [.cont (.ext 0) {}],
    invoke (.ext 0) (.release 2), [.api (.ext 0) .shutdown]])
    (fun s => s.pc (.ext 0) == .called 7 .shutdown && !s.rt.running && s.rt.allTasks.contains 3 &&
      (s.rt.task 1).state == .waitingChan && (s.rt.task 3).state == .waitingJoin &&
      s.rt.handles.contains 2 && (s.rt.handle 2).released && !(s.rt.handle 0).released &&
      s.rt.frees (.handle 0) == 0 && (machine.step s (.cont (.ext 0) {})).any fun s' : Sys =>
        decide (s'.rt.Live (.chan 4))) (by decide +kernel)
  simp only [Bool.and_eq_true, beq_iff_eq, Bool.not_eq_true', decide_eq_true_eq,
    List.contains_iff_mem, Option.any_eq_true] at hp
  obtain ⟨⟨⟨⟨⟨⟨⟨⟨⟨hpc, hidle⟩, ht⟩, hw1⟩, hw3⟩, hreg⟩, hrel⟩, hkept⟩, hfree⟩, s', hstep, hch⟩ := hp
  have halone := (single_of_reach (fun _ _ h => h) (fun _ _ _ _ _ h => h) hs).others
  have hcon : s.Contract (.cont (.ext 0) {}) := by
    simp only [Contract, SectionOk, Actor.agent, hpc]
    exact fun _ n hn => halone n fun h0 => hn (by rw [h0])
  have hreach : machine.Reach Contract s := hs.mono fun _ _ h => h.1
  obtain ⟨hcl, -, -⟩ := idle_shutdown_complete hreach hpc hidle hcon hstep
  have hhold : s.rt.Holds (.task 3) := ht
  refine ⟨s, s', hreach, hstep, hw1, hw3, hhold, (hcl.held _ hhold).2, hrel,
    (hcl.released 2 hreg hrel).2, ?_, ?_⟩
  · rw [hcl.unreleased 0 fun h0 => by simp [hkept] at h0, hfree]
  · rw [(hcl.chan 4 hch).1]

/-- A descriptor can be adopted before the runtime is initialised. Shutting down a runtime that
is not initialised does nothing, and the generation entry stays. -/
theorem shutdown_keeps_early_entry : ∃ s s', machine.Reach Contract s ∧
    s.pc (.ext 0) = .called 1 .shutdown ∧ s.rt.running = false ∧
    s.Contract (.cont (.ext 0) {}) ∧ machine.step s (.cont (.ext 0) {}) = some s' ∧
    s.rt.fdGenerations.length = 1 ∧ s'.rt.fdGenerations.length = 1 := by
  obtain ⟨s, hs, hp⟩ := reach_of_trace_under Solo .poll (List.flatten
    [[.osOpen (.ext 0) 5 0], invoke (.ext 0) (.fdAdopt 5) 2, [.api (.ext 0) .shutdown]])
    (fun s => s.pc (.ext 0) == .called 1 .shutdown && !s.rt.running &&
      s.rt.fdGenerations.length == 1 &&
      (machine.step s (.cont (.ext 0) {})).any fun s' : Sys =>
        s'.rt.fdGenerations.length == 1) (by decide +kernel)
  simp only [Bool.and_eq_true, beq_iff_eq, Bool.not_eq_true', Option.any_eq_true] at hp
  obtain ⟨⟨⟨hpc, hidle⟩, hlen⟩, s', hstep, hsame⟩ := hp
  have halone := (single_of_reach (fun _ _ h => h) (fun _ _ _ _ _ h => h) hs).others
  refine ⟨s, s', hs.mono fun _ _ h => h.1, hpc, hidle, ?_, hstep, hlen, hsame⟩
  simp only [Contract, SectionOk, Actor.agent, hpc]
  exact fun _ n hn => halone n fun h0 => hn (by rw [h0])

end Sys

end Microthread
