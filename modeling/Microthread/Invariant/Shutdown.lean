import Microthread.Invariant.Sections

/-!
# Initialisation and idle shutdown

An uninitialised runtime is `Off`: every registry and queue is empty, while the
objects the user program still holds keep their records. `mt_shutdown` of an
idle runtime leads there from any state at rest (`Rest.off`), and `mt_init` from
there to a state at rest (`Off.rest`).

Once the two sweeps have emptied the queues of the channels and handles, tearing
down the tasks writes no queue any more; `Torn` lists what it still writes.
-/

namespace Microthread

open Foundation

/-- A kind of object that only the runtime refers to. -/
def Obj.internal : Obj → Bool
  | .task _ | .selectWaiter _ | .fdWaiter _ => true
  | .handle _ | .chan _ => false

/-- How often an object is a waiter of the task. -/
def Task.waiters (k : Task) : Obj → Nat
  | .selectWaiter w => k.selectWaiters.count w
  | .fdWaiter w => if k.fdWaiter = some w then 1 else 0
  | _ => 0

/-- How often tearing down task `t` frees an object. -/
def Task.owns (k : Task) (t : TaskId) (o : Obj) : Nat :=
  k.waiters o + if o = .task t then 1 else 0

namespace Rt

variable {s s' : Rt} {t : TaskId}

/-- What holds of a runtime that is not initialised. -/
structure Off (s : Rt) : Prop where
  allTasks : s.allTasks = []
  channels : s.channels = []
  handles : s.handles = []
  fdWaiters : s.fdWaiters = []
  runq : s.runq = {}
  timers : s.timers.items = []
  waitq : ∀ r, s.waitq r = {}
  selectq : ∀ r, s.selectq r = {}
  live : s.liveCount = 0
  running : s.runningTasks = 0
  fdWaiting : s.fdWaitingCount = 0
  fresh : ∀ o, s.made o = true → o.addr < s.nextAddr
  freed : ∀ o, s.frees o ≠ 0 → s.made o = true
  closed : ∀ ch, s.Live (.chan ch) → (s.chan ch).closed = true
  gone : ∀ h, s.made (.handle h) = true → (s.handle h).task = none ∧
    (s.frees (.handle h) = if (s.handle h).released then 1 else 0) ∧
    ((s.handle h).released = false → (s.handle h).completed = true)
  notStale : s.stale = false

theorem Off.inv (h : s.Off) : s.Inv := by
  have hwait : ∀ r, (s.waitq r).items = [] := fun r => by rw [h.waitq]
  have hselect : ∀ r, (s.selectq r).items = [] := fun r => by rw [h.selectq]
  have hslots : ∀ x, s.slotItems x = [] := fun x => by
    cases x with
    | runq => simp [h.runq]
    | timers => exact h.timers
    | waitq r => exact hwait r
  constructor
  · refine ⟨by simp [h.allTasks], ?_, by simp [h.allTasks], by simp [h.allTasks],
      by simp [h.live, h.allTasks], by simp [h.runq], fun r => by simp [h.waitq]⟩
    exact ⟨fun x => by simp [hslots], fun x u => by simp [hslots, h.allTasks]⟩
  · refine ⟨⟨fun r => by simp [hselect], fun r w => ?_⟩, by simp [h.allTasks],
      by simp [h.allTasks], by simp [h.allTasks], by simp [h.allTasks], fun r => by simp [h.selectq]⟩
    simp [hselect, Listed, h.allTasks]
  · exact ⟨by simp [h.fdWaiters], by simp [h.fdWaiters], by simp [h.allTasks],
      by simp [h.allTasks], by simp [h.fdWaiting, h.fdWaiters]⟩
  · refine ⟨by simp [h.channels], by simp [h.channels], fun ch hl hc => ?_, by simp [h.allTasks],
      by simp [h.allTasks]⟩
    simp [h.closed ch hl] at hc
  · exact ⟨h.fresh, h.freed, by simp [h.allTasks], by simp [h.allTasks], by simp [h.fdWaiters]⟩
  · exact ⟨by simp [h.handles], by simp [h.handles], by simp [h.allTasks], by simp [h.handles],
      by simp [h.handles], by simp [h.handles], by simp [h.allTasks], fun x hx _ => h.gone x hx,
      h.notStale⟩

theorem Off.rest (h : s.Off) : s.Rest :=
  ⟨h.inv, fun u hu => by simp [Runs, h.allTasks] at hu, fun u hu => by simp [Dead, h.allTasks] at hu,
    by simp [h.running, h.allTasks]⟩

theorem Off.not_runs (h : s.Off) (u : TaskId) : ¬s.Runs u := fun hu => by
  simp [Runs, h.allTasks] at hu

/-- The objects outlive a reset. -/
theorem Off.reset (h : s.Off) : s.reset.Off :=
  ⟨rfl, rfl, rfl, rfl, rfl, rfl, h.waitq, h.selectq, rfl, rfl, rfl, h.fresh, h.freed, h.closed,
    h.gone, h.notStale⟩

/-- The flags and counters that `mt_init` sets do not matter here. -/
theorem Off.congr (h : s.Off) (hs : s' = { s with
    initialized := s'.initialized, defaultStackSize := s'.defaultStackSize, nextId := s'.nextId
    workerCount := s'.workerCount, runResult := s'.runResult, ioBackendKind := s'.ioBackendKind
    tape := s'.tape }) : s'.Off := by
  rw [hs]
  exact ⟨h.allTasks, h.channels, h.handles, h.fdWaiters, h.runq, h.timers, h.waitq, h.selectq,
    h.live, h.running, h.fdWaiting, h.fresh, h.freed, h.closed, h.gone, h.notStale⟩

/-- `mt_init` of a runtime that is off, whether the backend comes up or not. -/
theorem Off.init (h : s.Off) : s.init.2.Off := by
  unfold Rt.init
  split
  · exact h
  · obtain ⟨ok, tape, hask⟩ := s.reset.ask_eq
    rw [hask]
    cases ok with
    | false => exact h.reset.congr rfl
    | true => exact h.reset.congr rfl

/-! ## The sweeps over channels and handles -/

theorem shutdownChannel_eq (s : Rt) (ch : ChanId) : s.shutdownChannel ch = { s with
    chan := Function.update s.chan ch { s.chan ch with closed := true }
    waitq := Function.update (Function.update s.waitq (.senders ch) {}) (.receivers ch) {}
    selectq := Function.update (Function.update s.selectq (.senders ch) {}) (.receivers ch) {} } := by
  simp only [shutdownChannel, setWaitq, setSelectq, Rt.modChan]

theorem foldl_shutdownChannel (chs : List ChanId) (s : Rt) :
    ∃ chan waitq selectq, chs.foldl shutdownChannel s =
        { s with chan := chan, waitq := waitq, selectq := selectq } ∧
      (∀ ch ∈ chs, chan ch = { s.chan ch with closed := true } ∧ waitq (.senders ch) = {} ∧
        waitq (.receivers ch) = {} ∧ selectq (.senders ch) = {} ∧ selectq (.receivers ch) = {}) ∧
      (∀ ch, ch ∉ chs → chan ch = s.chan ch ∧ waitq (.senders ch) = s.waitq (.senders ch) ∧
        waitq (.receivers ch) = s.waitq (.receivers ch) ∧
        selectq (.senders ch) = s.selectq (.senders ch) ∧
        selectq (.receivers ch) = s.selectq (.receivers ch)) ∧
      ∀ x, waitq (.joiners x) = s.waitq (.joiners x) := by
  induction chs generalizing s with
  | nil => exact ⟨s.chan, s.waitq, s.selectq, rfl, by simp, by simp, fun _ => rfl⟩
  | cons c chs ih =>
      obtain ⟨chan, waitq, selectq, heq, hin, hout, hjoin⟩ := ih (s.shutdownChannel c)
      rw [shutdownChannel_eq] at heq hin hout hjoin
      refine ⟨chan, waitq, selectq, ?_, fun ch hch => ?_, fun ch hch => ?_, fun x => ?_⟩
      · rw [List.foldl_cons, shutdownChannel_eq, heq]
      · by_cases hmem : ch ∈ chs
        · obtain ⟨h1, h2⟩ := hin ch hmem
          refine ⟨h1.trans ?_, h2⟩
          by_cases hc : ch = c
          · subst hc
            simp
          · simp [hc]
        · have hc : ch = c := (List.mem_cons.mp hch).resolve_right hmem
          subst hc
          obtain ⟨h1, h2, h3, h4, h5⟩ := hout ch hmem
          rw [h1, h2, h3, h4, h5]
          simp
      · obtain ⟨hne, hmem⟩ := not_or.mp (mt List.mem_cons.mpr hch)
        obtain ⟨h1, h2, h3, h4, h5⟩ := hout ch hmem
        rw [h1, h2, h3, h4, h5]
        simp [hne]
      · rw [hjoin]
        simp

theorem foldl_shutdownHandle (hs : List HandleId) (s : Rt)
    (hlive : ∀ x ∈ hs, s.frees (.handle x) = 0) :
    ∃ handle waitq, hs.foldl shutdownHandle s = { s with handle := handle, waitq := waitq } ∧
      (∀ x ∈ hs, handle x = { s.handle x with
        cancelRequested := true, completed := true, status := .cancelled
        joinResult := .cancelled, task := none } ∧ waitq (.joiners x) = {}) ∧
      (∀ x, x ∉ hs → handle x = s.handle x ∧ waitq (.joiners x) = s.waitq (.joiners x)) ∧
      ∀ r, r.chan? ≠ none → waitq r = s.waitq r := by
  induction hs generalizing s with
  | nil => exact ⟨s.handle, s.waitq, rfl, by simp, by simp, fun _ _ => rfl⟩
  | cons y hs ih =>
      have hy : s.derefHandle y = s := derefHandle_eq (hlive y List.mem_cons_self)
      have hstep : s.shutdownHandle y = { s with
          handle := Function.update s.handle y { s.handle y with
            cancelRequested := true, completed := true, status := .cancelled
            joinResult := .cancelled, task := none }
          waitq := Function.update s.waitq (.joiners y) {} } := by
        simp [shutdownHandle, hy, Rt.modHandle, setWaitq]
      obtain ⟨handle, waitq, heq, hin, hout, hchan⟩ := ih (s.shutdownHandle y) (by
        rw [hstep]
        exact fun x hx => hlive x (List.mem_cons_of_mem y hx))
      rw [hstep] at heq hin hout hchan
      refine ⟨handle, waitq, ?_, fun x hx => ?_, fun x hx => ?_, fun r hr => ?_⟩
      · rw [List.foldl_cons, hstep, heq]
      · by_cases hmem : x ∈ hs
        · obtain ⟨h1, h2⟩ := hin x hmem
          refine ⟨h1.trans ?_, h2⟩
          by_cases hxy : x = y
          · subst hxy
            simp
          · simp [hxy]
        · have hxy : x = y := (List.mem_cons.mp hx).resolve_right hmem
          subst hxy
          obtain ⟨h1, h2⟩ := hout x hmem
          rw [h1, h2]
          simp
      · obtain ⟨hne, hmem⟩ := not_or.mp (mt List.mem_cons.mpr hx)
        obtain ⟨h1, h2⟩ := hout x hmem
        rw [h1, h2]
        simp [hne]
      · rw [hchan r hr]
        refine Function.update_of_ne ?_ _ _
        rintro rfl
        exact hr rfl

/-! ## Tearing down the tasks -/

/-- What tearing down tasks writes once the queues are empty. -/
def Torn (s s' : Rt) : Prop :=
  ∃ allTasks fdWaiters task fdw frees interest filters fdWaitingCount liveCount suppressed,
    s' = { s with
      allTasks := allTasks, fdWaiters := fdWaiters, task := task, fdw := fdw, frees := frees
      interest := interest, filters := filters, fdWaitingCount := fdWaitingCount
      liveCount := liveCount, suppressed := suppressed } ∧
    ∀ o, frees o ≠ s.frees o → o.internal = true ∧ s.made o = true

theorem Torn.refl (s : Rt) : Torn s s := ⟨_, _, _, _, _, _, _, _, _, _, rfl, fun _ h => absurd rfl h⟩

theorem Torn.trans {a : Rt} (h : Torn s a) (h' : Torn a s') : Torn s s' := by
  obtain ⟨_, _, _, _, f, _, _, _, _, _, rfl, hf⟩ := h
  obtain ⟨_, _, _, _, f', _, _, _, _, _, rfl, hf'⟩ := h'
  refine ⟨_, _, _, _, _, _, _, _, _, _, rfl, fun o ho => ?_⟩
  by_cases h1 : f' o = f o
  · exact hf o (h1 ▸ ho)
  · exact hf' o h1

theorem Torn.made_eq (h : Torn s s') : s'.made = s.made := by
  obtain ⟨_, _, _, _, _, _, _, _, _, _, rfl, -⟩ := h
  rfl

theorem Torn.selectq_eq (h : Torn s s') : s'.selectq = s.selectq := by
  obtain ⟨_, _, _, _, _, _, _, _, _, _, rfl, -⟩ := h
  rfl

/-- What the registered tasks hold has been made. -/
structure Holdings (s : Rt) : Prop where
  task : ∀ t ∈ s.allTasks, s.made (.task t) = true
  selectWaiter : ∀ t ∈ s.allTasks, ∀ w ∈ (s.task t).selectWaiters, s.made (.selectWaiter w) = true
  fdWaiter : ∀ t ∈ s.allTasks, ∀ w, (s.task t).fdWaiter = some w → s.made (.fdWaiter w) = true

theorem Torn.free {o : Obj} (hi : o.internal = true) (hm : s.made o = true) :
    Torn s (s.free o) := by
  refine ⟨_, _, _, _, _, _, _, _, _, _, rfl, fun x hx => ?_⟩
  by_cases hxo : x = o
  · exact hxo ▸ ⟨hi, hm⟩
  · exact absurd (Function.update_of_ne hxo _ _) hx

theorem selectFreeWaiter_of_empty (hq : ∀ r, s.selectq r = {}) (w : WaiterId) :
    s.selectFreeWaiter w = s.free (.selectWaiter w) := by
  have hrem : ∀ r, s.selectWaitqRemove r w = (false, s) := fun r => by
    simp [selectWaitqRemove, hq, Queue.remove]
  have hchan : (s.selectRemoveWaiterFromChannel w).2 = s := by
    unfold selectRemoveWaiterFromChannel
    split
    · split <;> simp [hrem]
    · rfl
  simp [selectFreeWaiter, hchan]

theorem Torn.foldl_selectFreeWaiter (ws : List WaiterId) (hq : ∀ r, s.selectq r = {})
    (hm : ∀ w ∈ ws, s.made (.selectWaiter w) = true) :
    Torn s (ws.foldl selectFreeWaiter s) ∧ (ws.foldl selectFreeWaiter s).task = s.task ∧
      (ws.foldl selectFreeWaiter s).allTasks = s.allTasks := by
  induction ws generalizing s with
  | nil => exact ⟨.refl s, rfl, rfl⟩
  | cons w ws ih =>
      rw [List.foldl_cons, selectFreeWaiter_of_empty hq]
      have hfree : Torn s (s.free (.selectWaiter w)) := .free rfl (hm w List.mem_cons_self)
      obtain ⟨h1, h2, h3⟩ := ih (s := s.free (.selectWaiter w)) hq
        fun x hx => hm x (List.mem_cons_of_mem w hx)
      exact ⟨hfree.trans h1, h2, h3⟩

theorem Torn.modTask (s : Rt) (t : TaskId) (f : Task → Task) : Torn s (s.modTask t f) :=
  ⟨_, _, _, _, _, _, _, _, _, _, rfl, fun _ h => absurd rfl h⟩

theorem Torn.selectFreeTaskWaiters (hq : ∀ r, s.selectq r = {}) (hh : s.Holdings)
    (ht : t ∈ s.allTasks) :
    Torn s (s.selectFreeTaskWaiters t) ∧ (s.selectFreeTaskWaiters t).allTasks = s.allTasks ∧
      (s.selectFreeTaskWaiters t).task = Function.update s.task t { s.task t with
        selectWaiters := [], selectWaiterCount := 0 } := by
  obtain ⟨h1, h2, h3⟩ := Torn.foldl_selectFreeWaiter (s.task t).selectWaiters hq
    (hh.selectWaiter t ht)
  unfold Rt.selectFreeTaskWaiters
  refine ⟨h1.trans (.modTask _ t _), h3, ?_⟩
  simp [Rt.modTask, h2]

theorem fdWaiterRemove_eq (s : Rt) (w : FdWaiterId) :
    ∃ interest filters, (s.fdWaiterRemove w).2 = { s with
      fdWaiters := s.fdWaiters.erase w
      fdw := Function.update s.fdw w { s.fdw w with state := .removed }
      interest := interest, filters := filters
      fdWaitingCount := if s.fdWaiterIsActive w then s.fdWaitingCount - 1 else s.fdWaitingCount
      suppressed := s.suppressed || (s.fdWaiterIsActive w && s.fdWaitingCount == 0) } := by
  by_cases ha : s.fdWaiterIsActive w = true
  · have hi := ioBackendRemove_eq (s.modFdw w fun x => { x with state := .removed }) w
    refine ⟨((s.modFdw w fun x => { x with state := .removed }).ioBackendRemove w).interest,
      ((s.modFdw w fun x => { x with state := .removed }).ioBackendRemove w).filters, ?_⟩
    simp only [fdWaiterRemove, fdWaiterDeactivate, ha, if_true, Bool.false_eq_true, if_false, hi]
    simp [modFdw, guarded, fdWaiterUnlink]
  · refine ⟨s.interest, s.filters, ?_⟩
    rw [fdWaiterRemove_of_inactive (by simpa [fdWaiterIsActive] using ha)]
    simp [ha]

theorem Torn.fdWaiterRemove (s : Rt) (w : FdWaiterId) :
    Torn s (s.fdWaiterRemove w).2 ∧ (s.fdWaiterRemove w).2.task = s.task ∧
      (s.fdWaiterRemove w).2.allTasks = s.allTasks := by
  obtain ⟨interest, filters, heq⟩ := s.fdWaiterRemove_eq w
  rw [heq]
  exact ⟨⟨_, _, _, _, _, _, _, _, _, _, rfl, fun _ h => absurd rfl h⟩, rfl, rfl⟩

theorem Torn.fdFreeWaiter {w : FdWaiterId} (hm : s.made (.fdWaiter w) = true) :
    Torn s (s.fdFreeWaiter w) ∧ (s.fdFreeWaiter w).task = s.task ∧
      (s.fdFreeWaiter w).allTasks = s.allTasks := by
  obtain ⟨h1, h2, h3⟩ := Torn.fdWaiterRemove s w
  exact ⟨h1.trans (.free rfl (h1.made_eq ▸ hm)), h2, h3⟩

/-- The waiter a task still has is unlinked and freed. -/
theorem Torn.dropFdWaiter (s : Rt) (t : TaskId) (f : Task → Task)
    (hm : ∀ w, (s.task t).fdWaiter = some w → s.made (.fdWaiter w) = true) :
    Torn s (match (s.task t).fdWaiter with
      | some w => ((s.fdWaiterRemove w).2.fdFreeWaiter w).modTask t f
      | none => s) ∧
    (match (s.task t).fdWaiter with
      | some w => ((s.fdWaiterRemove w).2.fdFreeWaiter w).modTask t f
      | none => s).allTasks = s.allTasks ∧
    (match (s.task t).fdWaiter with
      | some w => ((s.fdWaiterRemove w).2.fdFreeWaiter w).modTask t f
      | none => s).task = match (s.task t).fdWaiter with
        | some _ => Function.update s.task t (f (s.task t))
        | none => s.task := by
  cases hw : (s.task t).fdWaiter with
  | none => exact ⟨.refl s, rfl, rfl⟩
  | some w =>
      obtain ⟨h1, h2, h3⟩ := Torn.fdWaiterRemove s w
      obtain ⟨h4, h5, h6⟩ := Torn.fdFreeWaiter (s := (s.fdWaiterRemove w).2) (w := w)
        (h1.made_eq ▸ hm w hw)
      refine ⟨(h1.trans h4).trans (.modTask _ t f), h6.trans h3, ?_⟩
      simp [Rt.modTask, h5, h2]

/-- A task is torn down when only its own record changes and it is unregistered. -/
theorem Holdings.of_torn (hh : s.Holdings) (ht : Torn s s')
    (hall : ∀ u ∈ s'.allTasks, u ∈ s.allTasks ∧
      (s'.task u).selectWaiters ⊆ (s.task u).selectWaiters ∧
      ∀ w, (s'.task u).fdWaiter = some w → (s.task u).fdWaiter = some w) : s'.Holdings := by
  refine ⟨fun u hu => ?_, fun u hu w hw => ?_, fun u hu w hw => ?_⟩
  · rw [ht.made_eq]
    exact hh.task u (hall u hu).1
  · rw [ht.made_eq]
    exact hh.selectWaiter u (hall u hu).1 w ((hall u hu).2.1 hw)
  · rw [ht.made_eq]
    exact hh.fdWaiter u (hall u hu).1 w ((hall u hu).2.2 w hw)

/-- The waiters of a task are freed: the first half of both teardown functions. -/
theorem Torn.dropWaiters (hq : ∀ r, s.selectq r = {}) (hh : s.Holdings) (ht : t ∈ s.allTasks)
    (f : Task → Task) (hsel : ∀ k, (f k).selectWaiters = k.selectWaiters)
    (hfd : ∀ k, (f k).fdWaiter = none) :
    ∃ a, a = (match ((s.selectFreeTaskWaiters t).task t).fdWaiter with
        | some w => (((s.selectFreeTaskWaiters t).fdWaiterRemove w).2.fdFreeWaiter w).modTask t f
        | none => s.selectFreeTaskWaiters t) ∧
      Torn s a ∧ a.Holdings ∧ a.allTasks = s.allTasks := by
  obtain ⟨h1, h2, h3⟩ := Torn.selectFreeTaskWaiters hq hh ht
  have hfdw : ((s.selectFreeTaskWaiters t).task t).fdWaiter = (s.task t).fdWaiter := by
    rw [h3]
    simp
  obtain ⟨h4, h5, h6⟩ := Torn.dropFdWaiter (s.selectFreeTaskWaiters t) t f (by
    rw [hfdw, h1.made_eq]
    exact hh.fdWaiter t ht)
  refine ⟨_, rfl, h1.trans h4, hh.of_torn (h1.trans h4) fun u hu => ?_, h5.trans h2⟩
  refine ⟨by rwa [h5, h2] at hu, ?_⟩
  rw [h6]
  by_cases hut : u = t
  · subst hut
    cases hw : ((s.selectFreeTaskWaiters u).task u).fdWaiter with
    | none =>
        simp only [h3, Function.update_self]
        exact ⟨by simp, fun _ h => h⟩
    | some w =>
        simp only [Function.update_self, hsel, hfd, h3]
        exact ⟨by simp, fun _ h => absurd h (by simp)⟩
  · cases ((s.selectFreeTaskWaiters t).task t).fdWaiter with
    | none =>
        simp only [h3, Function.update_of_ne hut]
        exact ⟨List.Subset.refl _, fun _ h => h⟩
    | some w =>
        simp only [h3, Function.update_of_ne hut]
        exact ⟨List.Subset.refl _, fun _ h => h⟩

theorem Torn.taskDestroy (hq : ∀ r, s.selectq r = {}) (hh : s.Holdings) (ht : t ∈ s.allTasks) :
    Torn s (s.taskDestroy t) ∧ (s.taskDestroy t).Holdings ∧
      (s.taskDestroy t).allTasks = s.allTasks.erase t := by
  obtain ⟨a, ha, h1, h2, h3⟩ := Torn.dropWaiters hq hh ht
    (fun k => { k with fdWaiter := none, fdInTimer := false }) (fun _ => rfl) fun _ => rfl
  have heq : s.taskDestroy t = (a.taskUnregister t).free (.task t) := by
    rw [ha]
    rfl
  have hreg : Torn a (a.taskUnregister t) :=
    ⟨_, _, _, _, _, _, _, _, _, _, rfl, fun _ h => absurd rfl h⟩
  have hfree : Torn (a.taskUnregister t) ((a.taskUnregister t).free (.task t)) :=
    .free rfl (h2.task t (h3 ▸ ht))
  rw [heq]
  refine ⟨h1.trans (hreg.trans hfree), h2.of_torn (hreg.trans hfree) fun u hu => ?_, ?_⟩
  · exact ⟨List.mem_of_mem_erase hu, List.Subset.refl _, fun _ h => h⟩
  · change a.allTasks.erase t = s.allTasks.erase t
    rw [h3]

theorem Torn.shutdownTask (hq : ∀ r, s.selectq r = {}) (hh : s.Holdings) (ht : t ∈ s.allTasks) :
    Torn s (s.shutdownTask t) ∧ (s.shutdownTask t).Holdings ∧
      (s.shutdownTask t).allTasks = s.allTasks.erase t := by
  obtain ⟨a, ha, h1, h2, h3⟩ := Torn.dropWaiters hq hh ht
    (fun k => { k with fdWaiter := none }) (fun _ => rfl) fun _ => rfl
  have hdec : Torn a ({ a with liveCount := a.liveCount - 1 }.guarded a.liveCount) :=
    ⟨_, _, _, _, _, _, _, _, _, _, rfl, fun _ h => absurd rfl h⟩
  have hq' : ∀ r, a.selectq r = {} := fun r => by rw [h1.selectq_eq, hq]
  have heq : s.shutdownTask t =
      ({ a with liveCount := a.liveCount - 1 }.guarded a.liveCount).taskDestroy t := by
    rw [ha]
    rfl
  have h2' : ({ a with liveCount := a.liveCount - 1 }.guarded a.liveCount).Holdings :=
    ⟨h2.task, h2.selectWaiter, h2.fdWaiter⟩
  obtain ⟨h4, h5, h6⟩ := Torn.taskDestroy (s := { a with
    liveCount := a.liveCount - 1 }.guarded a.liveCount) hq' h2' (h3 ▸ ht : t ∈ a.allTasks)
  rw [heq]
  refine ⟨h1.trans (hdec.trans h4), h5, h6.trans ?_⟩
  change a.allTasks.erase t = s.allTasks.erase t
  rw [h3]

theorem Torn.shutdownTasks (fuel : Nat) (hq : ∀ r, s.selectq r = {}) (hh : s.Holdings) :
    Torn s (shutdownTasks fuel s) := by
  induction fuel generalizing s with
  | zero => exact .refl s
  | succ fuel ih =>
      unfold Rt.shutdownTasks
      cases hall : s.allTasks with
      | nil => exact .refl s
      | cons t ts =>
          obtain ⟨h1, h2, -⟩ := Torn.shutdownTask (t := t) hq hh (by simp [hall])
          exact h1.trans (ih (fun r => by rw [h1.selectq_eq, hq]) h2)

/-! ## What tearing down frees -/

/-- How often tearing down the registered tasks frees an object. -/
def holdings (s : Rt) (o : Obj) : Nat := (s.allTasks.map fun t => Task.owns (s.task t) t o).sum

theorem free_frees (s : Rt) (o x : Obj) :
    (s.free o).frees x = s.frees x + if x = o then 1 else 0 := by
  by_cases hx : x = o
  · subst hx
    simp [Rt.free]
  · simp [Rt.free, hx]

theorem foldl_selectFreeWaiter_frees (ws : List WaiterId) (hq : ∀ r, s.selectq r = {}) (o : Obj) :
    (ws.foldl selectFreeWaiter s).frees o = s.frees o + match o with
      | .selectWaiter w => ws.count w
      | _ => 0 := by
  induction ws generalizing s with
  | nil => cases o <;> simp
  | cons w ws ih =>
      rw [List.foldl_cons, selectFreeWaiter_of_empty hq, ih (s := s.free (.selectWaiter w)) hq,
        free_frees]
      cases o with
      | selectWaiter v =>
          simp only [Obj.selectWaiter.injEq, List.count_cons, beq_iff_eq, eq_comm (a := v)]
          omega
      | _ => simp

/-- The waiters of a task are freed once and its record forgets them. -/
theorem torn_waiters (hq : ∀ r, s.selectq r = {}) (hh : s.Holdings) (ht : t ∈ s.allTasks)
    (f : Task → Task) (hsel : ∀ k, (f k).selectWaiters = k.selectWaiters)
    (hfd : ∀ k, (f k).fdWaiter = none) {a : Rt}
    (ha : a = (match ((s.selectFreeTaskWaiters t).task t).fdWaiter with
        | some w => (((s.selectFreeTaskWaiters t).fdWaiterRemove w).2.fdFreeWaiter w).modTask t f
        | none => s.selectFreeTaskWaiters t)) :
    (∀ o, a.frees o = s.frees o + Task.waiters (s.task t) o) ∧ (∀ u, u ≠ t → a.task u = s.task u) ∧
      (a.task t).selectWaiters = [] ∧ (a.task t).fdWaiter = none := by
  obtain ⟨h1, -, h3⟩ := Torn.selectFreeTaskWaiters hq hh ht
  have hselect : ∀ o, (s.selectFreeTaskWaiters t).frees o = s.frees o + match o with
      | .selectWaiter w => (s.task t).selectWaiters.count w
      | _ => 0 := foldl_selectFreeWaiter_frees _ hq
  have hlink : ((s.selectFreeTaskWaiters t).task t).fdWaiter = (s.task t).fdWaiter := by
    rw [h3]
    simp
  cases hw : (s.task t).fdWaiter with
  | none =>
      rw [hlink, hw] at ha
      subst ha
      refine ⟨fun o => ?_, fun u hu => by rw [h3, Function.update_of_ne hu], by simp [h3],
        by simp [h3, hw]⟩
      rw [hselect]
      cases o <;> simp [Task.waiters, hw]
  | some w =>
      rw [hlink, hw] at ha
      obtain ⟨-, h4, -⟩ := Torn.fdWaiterRemove (s.selectFreeTaskWaiters t) w
      obtain ⟨-, h5, -⟩ := Torn.fdWaiterRemove ((s.selectFreeTaskWaiters t).fdWaiterRemove w).2 w
      have hfrees : ∀ o, a.frees o = (s.selectFreeTaskWaiters t).frees o +
          if o = .fdWaiter w then 1 else 0 := fun o => by
        obtain ⟨interest, filters, heq⟩ := (s.selectFreeTaskWaiters t).fdWaiterRemove_eq w
        obtain ⟨interest', filters', heq'⟩ :=
          ((s.selectFreeTaskWaiters t).fdWaiterRemove w).2.fdWaiterRemove_eq w
        rw [ha]
        simp only [Rt.modTask, Rt.fdFreeWaiter, free_frees]
        rw [heq', heq]
      have htask : a.task = Function.update (s.selectFreeTaskWaiters t).task t
          (f ((s.selectFreeTaskWaiters t).task t)) := by
        have hfree : (((s.selectFreeTaskWaiters t).fdWaiterRemove w).2.fdFreeWaiter w).task =
            (s.selectFreeTaskWaiters t).task := h5.trans h4
        rw [ha]
        simp only [Rt.modTask, hfree]
      refine ⟨fun o => ?_, fun u hu => ?_, ?_, ?_⟩
      · rw [hfrees, hselect]
        cases o <;> simp [Task.waiters, hw, eq_comm]
      · rw [htask, Function.update_of_ne hu, h3, Function.update_of_ne hu]
      · rw [htask, Function.update_self, hsel, h3]
        simp
      · rw [htask, Function.update_self, hfd]

theorem taskDestroy_frees (hq : ∀ r, s.selectq r = {}) (hh : s.Holdings) (ht : t ∈ s.allTasks) :
    (∀ o, (s.taskDestroy t).frees o = s.frees o + Task.owns (s.task t) t o) ∧
      ∀ u, u ≠ t → (s.taskDestroy t).task u = s.task u := by
  obtain ⟨a, ha, -, -, -⟩ := Torn.dropWaiters hq hh ht
    (fun k => { k with fdWaiter := none, fdInTimer := false }) (fun _ => rfl) fun _ => rfl
  obtain ⟨h1, h2, -, -⟩ := torn_waiters hq hh ht
    (fun k => { k with fdWaiter := none, fdInTimer := false }) (fun _ => rfl) (fun _ => rfl) ha
  have heq : s.taskDestroy t = (a.taskUnregister t).free (.task t) := by
    rw [ha]
    rfl
  rw [heq]
  refine ⟨fun o => ?_, h2⟩
  rw [free_frees]
  change a.frees o + _ = _
  rw [h1, Task.owns, add_assoc]

theorem shutdownTask_frees (hq : ∀ r, s.selectq r = {}) (hh : s.Holdings) (ht : t ∈ s.allTasks) :
    (∀ o, (s.shutdownTask t).frees o = s.frees o + Task.owns (s.task t) t o) ∧
      ∀ u, u ≠ t → (s.shutdownTask t).task u = s.task u := by
  obtain ⟨a, ha, h1, h2, h3⟩ := Torn.dropWaiters hq hh ht
    (fun k => { k with fdWaiter := none }) (fun _ => rfl) fun _ => rfl
  obtain ⟨h4, h5, h6, h7⟩ := torn_waiters hq hh ht (fun k => { k with fdWaiter := none })
    (fun _ => rfl) (fun _ => rfl) ha
  have heq : s.shutdownTask t =
      ({ a with liveCount := a.liveCount - 1 }.guarded a.liveCount).taskDestroy t := by
    rw [ha]
    rfl
  obtain ⟨h8, h9⟩ := taskDestroy_frees (s := { a with
    liveCount := a.liveCount - 1 }.guarded a.liveCount) (t := t)
    (fun r => (congrFun h1.selectq_eq r).trans (hq r)) ⟨h2.task, h2.selectWaiter, h2.fdWaiter⟩
    (h3 ▸ ht : t ∈ a.allTasks)
  rw [heq]
  refine ⟨fun o => (h8 o).trans ?_, fun u hu => (h9 u hu).trans (h5 u hu)⟩
  -- nothing is left for the second round
  have hempty : Task.waiters (a.task t) o = 0 := by
    cases o <;> simp [Task.waiters, h6, h7]
  change a.frees o + (Task.waiters (a.task t) o + _) = _
  rw [h4, hempty, Task.owns]
  omega

theorem shutdownTasks_frees (n : Nat) (hn : s.allTasks.length ≤ n) (hq : ∀ r, s.selectq r = {})
    (hh : s.Holdings) (hnodup : s.allTasks.Nodup) (o : Obj) :
    (shutdownTasks n s).frees o = s.frees o + s.holdings o := by
  induction n generalizing s with
  | zero =>
      have hnil : s.allTasks = [] := List.eq_nil_of_length_eq_zero (Nat.le_zero.mp hn)
      simp [Rt.shutdownTasks, holdings, hnil]
  | succ n ih =>
      unfold Rt.shutdownTasks
      cases hall : s.allTasks with
      | nil => simp [holdings, hall]
      | cons t ts =>
          have ht : t ∈ s.allTasks := by simp [hall]
          obtain ⟨h1, h2, h3⟩ := Torn.shutdownTask hq hh ht
          obtain ⟨h4, h5⟩ := shutdownTask_frees hq hh ht
          have hts : (s.shutdownTask t).allTasks = ts := by rw [h3, hall, List.erase_cons_head]
          rw [hall, List.nodup_cons] at hnodup
          have hothers : (s.shutdownTask t).holdings o =
              (ts.map fun u => Task.owns (s.task u) u o).sum := by
            rw [holdings, hts]
            refine congrArg List.sum (List.map_congr_left fun u hu => ?_)
            rw [h5 u (ne_of_mem_of_not_mem hu hnodup.1)]
          rw [ih (by rw [hts]; simp [hall] at hn; exact hn) (fun r => by rw [h1.selectq_eq, hq]) h2
            (hts ▸ hnodup.2), h4, hothers, holdings, hall, List.map_cons, List.sum_cons, add_assoc]

/-! ## The counters while tasks are torn down -/

/-- The counters that tearing down decrements; `n` registered tasks are not counted. -/
structure Tally (n : Nat) (s : Rt) : Prop where
  live : s.liveCount + n = s.allTasks.length
  fd : s.fdWaitingCount = s.fdWaiters.countP fun w => (s.fdw w).state = .active
  nodup : s.fdWaiters.Nodup
  linked : ∀ t ∈ s.allTasks, ∀ w, (s.task t).fdWaiter = some w → (s.fdw w).state = .active →
    w ∈ s.fdWaiters
  exact : s.suppressed = false

variable {n : Nat}

theorem foldl_selectFreeWaiter_eq (ws : List WaiterId) (hq : ∀ r, s.selectq r = {}) :
    ∃ frees, ws.foldl selectFreeWaiter s = { s with frees := frees } := by
  induction ws generalizing s with
  | nil => exact ⟨s.frees, rfl⟩
  | cons w ws ih =>
      obtain ⟨frees, hs⟩ := ih (s := s.free (.selectWaiter w)) hq
      exact ⟨frees, by rw [List.foldl_cons, selectFreeWaiter_of_empty hq, hs]; rfl⟩

theorem Tally.selectFreeTaskWaiters (h : s.Tally n) (hq : ∀ r, s.selectq r = {}) (t : TaskId) :
    (s.selectFreeTaskWaiters t).Tally n := by
  obtain ⟨frees, hs⟩ := foldl_selectFreeWaiter_eq (s.task t).selectWaiters hq
  rw [Rt.selectFreeTaskWaiters, hs]
  refine ⟨h.live, h.fd, h.nodup, fun u hu w hw => h.linked u hu w ?_, h.exact⟩
  by_cases hut : u = t
  · subst hut
    simpa [Rt.modTask] using hw
  · simpa [Rt.modTask, hut] using hw

/-- A waiter is unlinked and, if it was active, no longer counted. -/
theorem Tally.unlink (h : s.Tally n) {w : FdWaiterId} {k : FdWaiter} (hk : k.state = .removed)
    (hw : (s.fdw w).state = .active → w ∈ s.fdWaiters) (hlive : s'.liveCount = s.liveCount)
    (hall : s'.allTasks = s.allTasks) (htask : s'.task = s.task)
    (hlist : s'.fdWaiters = s.fdWaiters.erase w) (hfdw : s'.fdw = Function.update s.fdw w k)
    (hcount : s'.fdWaitingCount =
      if s.fdWaiterIsActive w then s.fdWaitingCount - 1 else s.fdWaitingCount)
    (hsup : s'.suppressed = (s.suppressed || (s.fdWaiterIsActive w && s.fdWaitingCount == 0))) :
    s'.Tally n := by
  have hothers : (s.fdWaiters.erase w).countP (fun v => (s'.fdw v).state = .active) =
      (s.fdWaiters.erase w).countP fun v => (s.fdw v).state = .active :=
    List.countP_congr fun v hv => by
      rw [hfdw, Function.update_of_ne (h.nodup.mem_erase_iff.mp hv).1]
  refine ⟨by rw [hlive, hall, h.live], ?_, hlist ▸ h.nodup.erase w, fun u hu v hv ha => ?_, ?_⟩
  · rw [hcount, hlist, hothers, h.fd]
    by_cases ha : (s.fdw w).state = .active
    · rw [if_pos (by simpa [fdWaiterIsActive] using ha), (List.perm_cons_erase (hw ha)).countP_eq,
        List.countP_cons_of_pos (by simpa using ha), Nat.add_sub_cancel]
    · rw [if_neg (by simpa [fdWaiterIsActive] using ha)]
      by_cases hmem : w ∈ s.fdWaiters
      · rw [(List.perm_cons_erase hmem).countP_eq, List.countP_cons_of_neg (by simpa using ha)]
      · rw [List.erase_of_not_mem hmem]
  · rw [hfdw] at ha
    have hvw : v ≠ w := by
      rintro rfl
      simp [hk] at ha
    rw [Function.update_of_ne hvw] at ha
    rw [hlist]
    exact h.nodup.mem_erase_iff.mpr ⟨hvw, h.linked u (hall ▸ hu) v (htask ▸ hv) ha⟩
  · rw [hsup, h.exact, Bool.false_or]
    by_cases ha : (s.fdw w).state = .active
    · have hpos : 0 < s.fdWaitingCount := by
        rw [h.fd]
        exact List.countP_pos_iff.mpr ⟨w, hw ha, by simpa using ha⟩
      simp [Nat.pos_iff_ne_zero.mp hpos]
    · simp [fdWaiterIsActive, ha]

theorem Tally.fdWaiterRemove (h : s.Tally n) {w : FdWaiterId}
    (hw : (s.fdw w).state = .active → w ∈ s.fdWaiters) : (s.fdWaiterRemove w).2.Tally n := by
  obtain ⟨interest, filters, heq⟩ := s.fdWaiterRemove_eq w
  rw [heq]
  exact h.unlink (k := { s.fdw w with state := .removed }) rfl hw rfl rfl rfl rfl rfl rfl rfl

/-- Freeing an object leaves the counters alone. -/
theorem Tally.free (h : s.Tally n) (o : Obj) : (s.free o).Tally n :=
  ⟨h.live, h.fd, h.nodup, h.linked, h.exact⟩

theorem Tally.fdFreeWaiter (h : s.Tally n) {w : FdWaiterId} (hw : (s.fdw w).state ≠ .active) :
    (s.fdFreeWaiter w).Tally n :=
  (h.fdWaiterRemove fun ha => absurd ha hw).free _

theorem Tally.modTask (h : s.Tally n) (t : TaskId) {f : Task → Task}
    (hf : (f (s.task t)).fdWaiter = none) : (s.modTask t f).Tally n := by
  refine ⟨h.live, h.fd, h.nodup, fun u hu w hw => ?_, h.exact⟩
  by_cases hut : u = t
  · subst hut
    simp [Rt.modTask, hf] at hw
  · exact h.linked u hu w (by simpa [Rt.modTask, hut] using hw)

/-- Both teardown functions begin by freeing the waiters of the task. -/
theorem Tally.dropWaiters (h : s.Tally n) (hq : ∀ r, s.selectq r = {}) (ht : t ∈ s.allTasks)
    (hall : (s.selectFreeTaskWaiters t).allTasks = s.allTasks) {f : Task → Task}
    (hf : ∀ k, (f k).fdWaiter = none) :
    (match ((s.selectFreeTaskWaiters t).task t).fdWaiter with
      | some w => (((s.selectFreeTaskWaiters t).fdWaiterRemove w).2.fdFreeWaiter w).modTask t f
      | none => s.selectFreeTaskWaiters t).Tally n := by
  have hsel := h.selectFreeTaskWaiters hq t
  cases hw : ((s.selectFreeTaskWaiters t).task t).fdWaiter with
  | none => exact hsel
  | some w =>
      have hrem := hsel.fdWaiterRemove (hsel.linked t (hall ▸ ht) w hw)
      obtain ⟨interest, filters, heq⟩ := (s.selectFreeTaskWaiters t).fdWaiterRemove_eq w
      exact (hrem.fdFreeWaiter (by simp [heq])).modTask t (hf _)

theorem Tally.taskDestroy (h : s.Tally (n + 1)) (hq : ∀ r, s.selectq r = {})
    (hh : s.Holdings) (ht : t ∈ s.allTasks) : (s.taskDestroy t).Tally n := by
  have hall := (Torn.selectFreeTaskWaiters hq hh ht).2.1
  have hdrop := h.dropWaiters (f := fun k => { k with fdWaiter := none, fdInTimer := false })
    hq ht hall fun _ => rfl
  obtain ⟨a, ha, -, -, hall'⟩ := Torn.dropWaiters hq hh ht
    (fun k => { k with fdWaiter := none, fdInTimer := false }) (fun _ => rfl) fun _ => rfl
  rw [← ha] at hdrop
  have heq : s.taskDestroy t = (a.taskUnregister t).free (.task t) := by
    rw [ha]
    rfl
  rw [heq]
  refine Tally.free (s := a.taskUnregister t) ⟨?_, hdrop.fd, hdrop.nodup,
    fun u hu => hdrop.linked u (List.mem_of_mem_erase hu), hdrop.exact⟩ _
  have hlive := hdrop.live
  change a.liveCount + n = (a.allTasks.erase t).length
  rw [List.length_erase_of_mem (hall' ▸ ht)]
  omega

theorem Tally.shutdownTask (h : s.Tally 0) (hq : ∀ r, s.selectq r = {}) (hh : s.Holdings)
    (ht : t ∈ s.allTasks) : (s.shutdownTask t).Tally 0 := by
  have hall := (Torn.selectFreeTaskWaiters hq hh ht).2.1
  have hdrop := h.dropWaiters (f := fun k => { k with fdWaiter := none }) hq ht hall fun _ => rfl
  obtain ⟨a, ha, htorn, hh', hall'⟩ := Torn.dropWaiters hq hh ht
    (fun k => { k with fdWaiter := none }) (fun _ => rfl) fun _ => rfl
  rw [← ha] at hdrop
  have heq : s.shutdownTask t =
      ({ a with liveCount := a.liveCount - 1 }.guarded a.liveCount).taskDestroy t := by
    rw [ha]
    rfl
  have hmem : t ∈ a.allTasks := hall' ▸ ht
  have hlive := hdrop.live
  have hpos := List.length_pos_of_mem hmem
  rw [heq]
  refine Tally.taskDestroy (n := 0) ⟨?_, hdrop.fd, hdrop.nodup, hdrop.linked, ?_⟩
    (fun r => (congrFun htorn.selectq_eq r).trans (hq r)) ⟨hh'.task, hh'.selectWaiter, hh'.fdWaiter⟩
    hmem
  · change a.liveCount - 1 + 1 = a.allTasks.length
    omega
  · change (a.suppressed || a.liveCount == 0) = false
    rw [hdrop.exact, Bool.false_or, beq_eq_false_iff_ne]
    omega

theorem Tally.shutdownTasks (fuel : Nat) (h : s.Tally 0) (hq : ∀ r, s.selectq r = {})
    (hh : s.Holdings) : (shutdownTasks fuel s).Tally 0 := by
  induction fuel generalizing s with
  | zero => exact h
  | succ fuel ih =>
      unfold Rt.shutdownTasks
      cases hall : s.allTasks with
      | nil => exact h
      | cons t ts =>
          have ht : t ∈ s.allTasks := by simp [hall]
          obtain ⟨h1, h2, -⟩ := Torn.shutdownTask hq hh ht
          exact ih (h.shutdownTask hq hh ht) (fun r => by rw [h1.selectq_eq, hq]) h2

/-! ## The handles that are left -/

theorem foldl_shutdownFreeHandle (hs : List HandleId) (s : Rt) (hnodup : hs.Nodup)
    (hlive : ∀ x ∈ hs, s.frees (.handle x) = 0) :
    hs.foldl shutdownFreeHandle s = { s with
      frees := (hs.foldl shutdownFreeHandle s).frees } ∧
    ∀ o, (hs.foldl shutdownFreeHandle s).frees o =
      if ∃ x ∈ hs, o = .handle x ∧ (s.handle x).released = true then 1 else s.frees o := by
  induction hs generalizing s with
  | nil => simp
  | cons y hs ih =>
      obtain ⟨hy, hnodup⟩ := List.nodup_cons.mp hnodup
      have hderef : s.derefHandle y = s := derefHandle_eq (hlive y List.mem_cons_self)
      have hstep : s.shutdownFreeHandle y = { s with
          frees := if (s.handle y).released then
            Function.update s.frees (.handle y) (s.frees (.handle y) + 1) else s.frees } := by
        simp only [shutdownFreeHandle, hderef]
        split <;> rfl
      have hlive' : ∀ x ∈ hs, (s.shutdownFreeHandle y).frees (.handle x) = 0 := fun x hx => by
        rw [hstep]
        have hne : x ≠ y := ne_of_mem_of_not_mem hx hy
        simp only
        split
        · rw [Function.update_of_ne (by simpa using hne)]
          exact hlive x (List.mem_cons_of_mem y hx)
        · exact hlive x (List.mem_cons_of_mem y hx)
      obtain ⟨h1, h2⟩ := ih (s.shutdownFreeHandle y) hnodup hlive'
      rw [List.foldl_cons]
      refine ⟨h1.trans (by rw [hstep]), fun o => (h2 o).trans ?_⟩
      rw [hstep]
      simp only
      by_cases hoy : o = .handle y ∧ (s.handle y).released = true
      · have hin : ∃ x ∈ y :: hs, o = .handle x ∧ (s.handle x).released = true :=
          ⟨y, List.mem_cons_self, hoy⟩
        have hout : ¬∃ x ∈ hs, o = .handle x ∧ (s.handle x).released = true := by
          rintro ⟨x, hx, ho, -⟩
          rw [hoy.1, Obj.handle.injEq] at ho
          exact hy (ho ▸ hx)
        rw [if_pos hin, if_neg hout, if_pos hoy.2, hoy.1, Function.update_self,
          hlive y List.mem_cons_self]
      · have hiff : (∃ x ∈ y :: hs, o = .handle x ∧ (s.handle x).released = true) ↔
            ∃ x ∈ hs, o = .handle x ∧ (s.handle x).released = true := by
          simp only [List.exists_mem_cons_iff, or_iff_right hoy]
        simp only [hiff]
        by_cases hrel : (s.handle y).released = true
        · rw [if_pos hrel, Function.update_of_ne fun ho => hoy ⟨ho, hrel⟩]
        · rw [if_neg hrel]

/-! ## Idle shutdown -/

theorem Task.chan?_eq {k : Task} {r : WaitqRef} (h : k.chanRef = some r) :
    r.chan? = k.chanWaitCh := by
  unfold Task.chanRef at h
  split at h
  · next hch =>
      cases h
      exact hch.symm
  · next hch =>
      cases h
      exact hch.symm
  · cases h

theorem SelectWaiter.chan_ref (x : SelectWaiter) : x.ref.chan = x.ch := by
  unfold SelectWaiter.ref
  split <;> rfl

/-- Nobody waits on a channel that is not registered. -/
theorem Inv.unattended (h : s.Inv) {ch : ChanId} (hch : ch ∉ s.channels) : s.Unattended ch := by
  have hwait : ∀ r : WaitqRef, r.chan? = some ch → (s.waitq r).items = [] := fun r hr => by
    refine List.eq_nil_iff_forall_not_mem.mpr fun t ht => ?_
    obtain ⟨hall, hslot⟩ := h.mem_waitq ht
    obtain ⟨hs, hw⟩ := Task.chanRef_of_slot hslot (by simp [hr])
    exact hch (h.chan.waitRegistered t hall ch hs (Task.chan?_eq hw ▸ hr))
  have hselect : ∀ r : SelectqRef, r.chan = ch → (s.selectq r).items = [] := fun r hr => by
    refine List.eq_nil_iff_forall_not_mem.mpr fun w hw => ?_
    obtain ⟨hall, hmem, rfl⟩ := h.mem_selectq hw
    rw [SelectWaiter.chan_ref] at hr
    exact hch (hr ▸ h.chan.selectRegistered _ hall w hmem)
  exact ⟨hwait _ rfl, hwait _ rfl, hselect _ rfl, hselect _ rfl⟩

/-- The state before the tasks are torn down. -/
structure Emptied (s s' : Rt) : Prop where
  frame : s' = { s with
    chan := s'.chan, handle := s'.handle, waitq := s'.waitq, selectq := s'.selectq }
  waitq : ∀ r, s'.waitq r = {}
  selectq : ∀ r, s'.selectq r = {}
  chan : ∀ ch, s'.chan ch = if ch ∈ s.channels then { s.chan ch with closed := true } else s.chan ch
  handle : ∀ x, s'.handle x = if x ∈ s.handles then { s.handle x with
    cancelRequested := true, completed := true, status := .cancelled, joinResult := .cancelled
    task := none } else s.handle x

theorem Inv.emptied (h : s.Inv) :
    Emptied s (s.handles.foldl shutdownHandle (s.channels.foldl shutdownChannel s)) := by
  obtain ⟨chan, waitq, selectq, heq, hin, hout, hjoin⟩ := foldl_shutdownChannel s.channels s
  rw [heq]
  obtain ⟨handle, waitq', heq', hin', hout', hchan⟩ := foldl_shutdownHandle s.handles
    { s with chan := chan, waitq := waitq, selectq := selectq } h.handle.frees_eq_zero
  rw [heq']
  have hqueue : ∀ q : Queue TaskId, q.Exact → q.items = [] → q = {} := fun q hq hi =>
    hq.ext Queue.exact_empty hi
  have hqueue' : ∀ q : Queue WaiterId, q.Exact → q.items = [] → q = {} := fun q hq hi =>
    hq.ext Queue.exact_empty hi
  refine ⟨rfl, fun r => ?_, fun r => ?_, fun ch => ?_, fun x => ?_⟩
  · cases r with
    | senders ch =>
        refine (hchan _ (by simp [WaitqRef.chan?])).trans ?_
        by_cases hch : ch ∈ s.channels
        · exact (hin ch hch).2.1
        · exact (hout ch hch).2.1.trans (hqueue _ (h.task.waitqExact _) (h.unattended hch).1)
    | receivers ch =>
        refine (hchan _ (by simp [WaitqRef.chan?])).trans ?_
        by_cases hch : ch ∈ s.channels
        · exact (hin ch hch).2.2.1
        · exact (hout ch hch).2.2.1.trans (hqueue _ (h.task.waitqExact _) (h.unattended hch).2.1)
    | joiners x =>
        by_cases hx : x ∈ s.handles
        · exact (hin' x hx).2
        · refine (hout' x hx).2.trans ((hjoin x).trans ?_)
          exact hqueue _ (h.task.waitqExact _) (h.joiners_eq_nil hx)
  · cases r with
    | senders ch =>
        by_cases hch : ch ∈ s.channels
        · exact (hin ch hch).2.2.2.1
        · exact (hout ch hch).2.2.2.1.trans
            (hqueue' _ (h.select.exact _) (h.unattended hch).2.2.1)
    | receivers ch =>
        by_cases hch : ch ∈ s.channels
        · exact (hin ch hch).2.2.2.2
        · exact (hout ch hch).2.2.2.2.trans
            (hqueue' _ (h.select.exact _) (h.unattended hch).2.2.2)
  · by_cases hch : ch ∈ s.channels
    · rw [if_pos hch]
      exact (hin ch hch).1
    · rw [if_neg hch]
      exact (hout ch hch).1
  · by_cases hx : x ∈ s.handles
    · rw [if_pos hx]
      exact (hin' x hx).1
    · rw [if_neg hx]
      exact (hout' x hx).1

theorem Inv.holdings (h : s.Inv) : s.Holdings :=
  ⟨fun t ht => (h.heap.task t ht).1, h.heap.selectWaiter,
    fun t ht w hw => h.heap.fdWaiter w (h.fd.linked t ht w hw).1⟩

theorem Inv.tally (h : s.Inv) (hd : ∀ u, ¬s.Dead u) (hs : s.suppressed = false) : s.Tally 0 := by
  refine ⟨?_, h.fd.count, h.fd.nodup, fun t ht w hw _ => (h.fd.linked t ht w hw).1, hs⟩
  rw [Nat.add_zero, h.task.live, List.countP_eq_length]
  exact fun t ht => by simpa using fun hdead => hd t ⟨ht, hdead⟩

/-- What `mt_shutdown` of an idle runtime leaves of the objects. -/
structure ShutDown (s s' : Rt) : Prop where
  off : s'.Off
  initialized : s'.initialized = false
  running : s'.running = false
  nextId : s'.nextId = 0
  activeWorkers : s'.activeWorkers = 0
  channelWaiting : s'.channelWaitingCount = 0
  joinWaiting : s'.joinWaitingCount = 0
  fdGenerations : s'.fdGenerations = []
  interest : s'.interest = fun _ => none
  log : s'.log = s.log
  mem : s'.mem = s.mem
  made : s'.made = s.made
  nextAddr : s'.nextAddr = s.nextAddr
  build : s'.ioBackendBuild = s.ioBackendBuild
  chan : ∀ ch, s'.chan ch = if ch ∈ s.channels then { s.chan ch with closed := true } else s.chan ch
  handle : ∀ x, s'.handle x = if x ∈ s.handles then { s.handle x with
    cancelRequested := true, completed := true, status := .cancelled, joinResult := .cancelled
    task := none } else s.handle x
  freesChan : ∀ ch, s'.frees (.chan ch) = s.frees (.chan ch)
  freesHandle : ∀ x, s'.frees (.handle x) =
    if x ∈ s.handles ∧ (s.handle x).released = true then 1 else s.frees (.handle x)
  freesHeld : ∀ o, o.internal = true → s'.frees o = s.frees o + s.holdings o
  exact : (∀ u, ¬s.Dead u) → s.suppressed = false → s'.suppressed = false

/-- What is left for the final `memset`: no queue holds anything, the channels are closed and the
handles completed, and of the objects those inside the runtime and the released handles have been
freed. -/
structure Swept (s d : Rt) : Prop where
  waitq : ∀ r, d.waitq r = {}
  selectq : ∀ r, d.selectq r = {}
  log : d.log = s.log
  mem : d.mem = s.mem
  made : d.made = s.made
  nextAddr : d.nextAddr = s.nextAddr
  stale : d.stale = s.stale
  build : d.ioBackendBuild = s.ioBackendBuild
  chan : ∀ ch, d.chan ch = if ch ∈ s.channels then { s.chan ch with closed := true } else s.chan ch
  handle : ∀ x, d.handle x = if x ∈ s.handles then { s.handle x with
    cancelRequested := true, completed := true, status := .cancelled, joinResult := .cancelled
    task := none } else s.handle x
  outside : ∀ o, o.internal = false → d.frees o =
    if ∃ x ∈ s.handles, o = .handle x ∧ (s.handle x).released = true then 1 else s.frees o
  inside : ∀ o, o.internal = true → d.frees o = s.frees o + s.holdings o
  known : ∀ o, o.internal = true → d.frees o ≠ s.frees o → s.made o = true
  exact : (∀ u, ¬s.Dead u) → s.suppressed = false → d.suppressed = false

/-- The last sweep, after the tasks are gone. -/
theorem Emptied.swept {a b c : Rt} (h : s.Inv) (he : Emptied s a) (ht : Torn a b)
    (htally : a.Tally 0 → b.Tally 0) (hown : ∀ o, b.frees o = a.frees o + a.holdings o)
    (hc : c = { b with
      runq := {}, timers := {}, channelWaitingCount := 0, joinWaitingCount := 0, fdWaitingCount := 0
      fdGenerations := [], ioBackendKind := .none, ioPolling := false }) :
    Swept s (c.handles.foldl shutdownFreeHandle c) := by
  obtain ⟨hframe, hwaitq, hselectq, hchan, hhandle⟩ := he
  obtain ⟨allTasks, fdWaiters, task, fdw, frees, interest, filters, n, m, sup, hb, hfrees⟩ := ht
  have hafrees : a.frees = s.frees := by rw [hframe]
  have hkeep : ∀ o : Obj, o.internal = false → frees o = s.frees o := fun o ho => by
    by_contra hne
    have hint := (hfrees o (hafrees ▸ hne)).1
    simp [ho] at hint
  have hch : c.handles = s.handles := by rw [hc, hb, hframe]
  have hcfrees : c.frees = frees := by rw [hc, hb]
  have hchandle : c.handle = a.handle := by rw [hc, hb]
  obtain ⟨h1, h2⟩ := foldl_shutdownFreeHandle c.handles c (hch ▸ h.handle.nodup) fun x hx => by
    rw [hcfrees, hkeep _ rfl]
    exact h.handle.frees_eq_zero x (hch ▸ hx)
  generalize c.handles.foldl shutdownFreeHandle c = d at h1 h2
  have hdfrees : ∀ o, d.frees o =
      if ∃ x ∈ s.handles, o = .handle x ∧ (s.handle x).released = true then 1 else frees o := by
    intro o
    have hrel : ∀ x, (a.handle x).released = (s.handle x).released := fun x => by
      rw [hhandle]
      split <;> rfl
    rw [h2 o, hcfrees, hch, hchandle]
    simp only [hrel]
  have hinside : ∀ o : Obj, o.internal = true → d.frees o = frees o := fun o ho => by
    have hfresh : ¬∃ x ∈ s.handles, o = .handle x ∧ (s.handle x).released = true := by
      rintro ⟨x, -, rfl, -⟩
      cases ho
    rw [hdfrees, if_neg hfresh]
  refine ⟨fun r => ?_, fun r => ?_, ?_, ?_, ?_, ?_, ?_, ?_, fun ch => ?_, fun x => ?_,
    fun o ho => ?_, fun o ho => ?_, fun o ho hne => ?_, fun hnodead hsup => ?_⟩
  · rw [h1, hc, hb]
    exact hwaitq r
  · rw [h1, hc, hb]
    exact hselectq r
  · rw [h1, hc, hb, hframe]
  · rw [h1, hc, hb, hframe]
  · rw [h1, hc, hb, hframe]
  · rw [h1, hc, hb, hframe]
  · rw [h1, hc, hb, hframe]
  · rw [h1, hc, hb, hframe]
  · rw [h1, hc, hb]
    exact hchan ch
  · rw [h1, hchandle]
    exact hhandle x
  · rw [hdfrees, hkeep o ho]
  · have hheld := hown o
    rw [hb, hframe] at hheld
    rw [hinside o ho]
    exact hheld
  · have hmade := (hfrees o (hafrees ▸ hinside o ho ▸ hne)).2
    rwa [hframe] at hmade
  · have ha := h.tally hnodead hsup
    have hb' : b.suppressed = false := (htally (by
      rw [hframe]
      exact ⟨ha.live, ha.fd, ha.nodup, ha.linked, ha.exact⟩)).exact
    rw [h1, hc]
    exact hb'

namespace Swept

variable {d : Rt}

theorem freesChan (hw : Swept s d) (ch : ChanId) : d.frees (.chan ch) = s.frees (.chan ch) := by
  rw [hw.outside _ rfl, if_neg (by simp)]

theorem freesHandle (hw : Swept s d) (x : HandleId) : d.frees (.handle x) =
    if x ∈ s.handles ∧ (s.handle x).released = true then 1 else s.frees (.handle x) := by
  rw [hw.outside _ rfl]
  simp

/-- Nothing is freed that has not been made. -/
theorem freed (hw : Swept s d) (h : s.Inv) {o : Obj} (ho : d.frees o ≠ 0) : s.made o = true := by
  by_cases hsame : d.frees o = s.frees o
  · exact h.heap.freed o (hsame ▸ ho)
  · cases hint : o.internal with
    | true => exact hw.known o hint hsame
    | false =>
        rw [hw.outside o hint] at hsame
        split at hsame
        · next hin =>
            obtain ⟨x, hx, rfl, -⟩ := hin
            exact (h.handle.live x hx).1
        · exact absurd rfl hsame

/-- All channels that are left are closed. -/
theorem closed (hw : Swept s d) (h : s.Inv) {ch : ChanId} (hm : s.made (.chan ch) = true)
    (hf : s.frees (.chan ch) = 0) : (d.chan ch).closed = true := by
  rw [hw.chan]
  by_cases hreg : ch ∈ s.channels
  · rw [if_pos hreg]
  · rw [if_neg hreg]
    by_contra hopen
    exact hreg (h.chan.registered ch ⟨hm, hf⟩ (by simpa using hopen))

/-- A handle that is left is completed, and one that has been released is freed. -/
theorem gone (hw : Swept s d) (h : s.Inv) {x : HandleId} (hx : s.made (.handle x) = true) :
    (d.handle x).task = none ∧
      (d.frees (.handle x) = if (d.handle x).released then 1 else 0) ∧
      ((d.handle x).released = false → (d.handle x).completed = true) := by
  rw [hw.handle, hw.freesHandle]
  by_cases hreg : x ∈ s.handles
  · rw [if_pos hreg]
    refine ⟨rfl, ?_, fun _ => rfl⟩
    rw [h.handle.frees_eq_zero x hreg]
    simp [hreg]
  · rw [if_neg hreg, if_neg (by simp [hreg])]
    exact h.handle.gone x hx hreg

theorem off (hw : Swept s d) (h : s.Inv) : d.reset.Off where
  allTasks := rfl
  channels := rfl
  handles := rfl
  fdWaiters := rfl
  runq := rfl
  timers := rfl
  waitq := hw.waitq
  selectq := hw.selectq
  live := rfl
  running := rfl
  fdWaiting := rfl
  fresh o ho := by
    change d.made o = true at ho
    change o.addr < d.nextAddr
    rw [hw.made] at ho
    rw [hw.nextAddr]
    exact h.heap.fresh o ho
  freed o ho := by
    change d.made o = true
    rw [hw.made]
    exact hw.freed h ho
  closed := by
    rintro ch ⟨hm, hf⟩
    change d.made (.chan ch) = true at hm
    change d.frees (.chan ch) = 0 at hf
    rw [hw.made] at hm
    rw [hw.freesChan] at hf
    exact hw.closed h hm hf
  gone x hx := by
    change d.made (.handle x) = true at hx
    rw [hw.made] at hx
    exact hw.gone h hx
  notStale := hw.stale.trans h.handle.notStale

theorem shutDown (hw : Swept s d) (h : s.Inv) : ShutDown s d.reset :=
  ⟨hw.off h, rfl, rfl, rfl, rfl, rfl, rfl, rfl, rfl, hw.log, hw.mem, hw.made, hw.nextAddr, hw.build,
    hw.chan, hw.handle, hw.freesChan, hw.freesHandle, hw.inside, hw.exact⟩

end Swept

theorem Inv.shutDown (h : s.Inv) : ShutDown s s.shutdownIdle := by
  have hempty := h.emptied
  have hchannels : (s.channels.foldl shutdownChannel s).handles = s.handles := by
    obtain ⟨chan, waitq, selectq, heq, -⟩ := foldl_shutdownChannel s.channels s
    rw [heq]
  unfold Rt.shutdownIdle
  simp only [hchannels]
  generalize s.handles.foldl shutdownHandle (s.channels.foldl shutdownChannel s) = a at hempty
  have hholdings : a.Holdings := by
    rw [hempty.frame]
    exact ⟨h.holdings.task, h.holdings.selectWaiter, h.holdings.fdWaiter⟩
  have hnodup : a.allTasks.Nodup := by
    rw [hempty.frame]
    exact h.task.nodup
  refine Swept.shutDown ?_ h
  exact hempty.swept h (Torn.shutdownTasks a.allTasks.length hempty.selectq hholdings)
    (fun htally => htally.shutdownTasks a.allTasks.length hempty.selectq hholdings)
    (shutdownTasks_frees a.allTasks.length (le_refl _) hempty.selectq hholdings hnodup) rfl

end Rt

end Microthread
