import Microthread.Foundation.Count
import Microthread.Invariant.Moves

/-!
# The invariant under a change of one task record

Most elementary changes rewrite the record of one task and relink it. Each part
of the invariant reads only some fields of that record; the lemmas here say, for
each part, what the new record must keep.
-/

namespace Microthread

open Foundation

/-- The two records look alike to the select queues, and neither is parked there. -/
def Task.SameSelect (k k' : Task) : Prop :=
  k.state ≠ .waitingSelect ∧ k'.state ≠ .waitingSelect ∧ k'.selectWaiters = k.selectWaiters ∧
    k'.selectCountedWaiting = k.selectCountedWaiting ∧
    (k'.state ≠ .running → k.selectWaiters = [])

/-- The two records look alike to the descriptor waiters, and neither is parked there. -/
def Task.SameFd (k k' : Task) : Prop :=
  k.state ≠ .waitingFd ∧ k'.state ≠ .waitingFd ∧ k'.fdWaiter = k.fdWaiter

namespace Rt

variable {s s' : Rt} {t : TaskId} {k' : Task}

/-- Nothing but task records and the lists that link tasks has changed. -/
structure Frame (s s' : Rt) : Prop where
  allTasks : s'.allTasks = s.allTasks
  liveCount : s'.liveCount = s.liveCount
  selectq : s'.selectq = s.selectq
  selw : s'.selw = s.selw
  fdWaiters : s'.fdWaiters = s.fdWaiters
  fdw : s'.fdw = s.fdw
  fdWaitingCount : s'.fdWaitingCount = s.fdWaitingCount
  channels : s'.channels = s.channels
  chan : s'.chan = s.chan
  handles : s'.handles = s.handles
  handle : s'.handle = s.handle
  nextAddr : s'.nextAddr = s.nextAddr
  made : s'.made = s.made
  frees : s'.frees = s.frees
  stale : s'.stale = s.stale

/-! ## Congruence

A part of the invariant survives every change of fields it does not read. -/

theorem Frame.live (hf : s.Frame s') (o : Obj) : s'.Live o ↔ s.Live o := by
  rw [Live, Live, hf.made, hf.frees]

theorem TaskInv.congr (h : s.TaskInv) (hall : s'.allTasks = s.allTasks) (htask : s'.task = s.task)
    (hrunq : s'.runq = s.runq) (htimers : s'.timers.items = s.timers.items)
    (hwaitq : s'.waitq = s.waitq) (hlive : s'.liveCount = s.liveCount) : s'.TaskInv := by
  have hslots : ∀ x, s'.slotItems x = s.slotItems x := by
    rintro (_ | _ | r)
    · simp only [slotItems_runq, hrunq]
    · exact htimers
    · simp only [slotItems_waitq, hwaitq]
  constructor
  · rw [hall]
    exact h.nodup
  · exact h.placed.congr hslots (fun t => by rw [hall]) (fun t _ => by rw [htask])
  · rw [hall, htask]
    exact h.chanRef
  · rw [hall, htask]
    exact h.joinRef
  · rw [hlive, hall, htask]
    exact h.live
  · rw [hrunq]
    exact h.runqExact
  · rw [hwaitq]
    exact h.waitqExact

theorem SelectInv.congr (h : s.SelectInv) (hall : s'.allTasks = s.allTasks)
    (htask : s'.task = s.task) (hselectq : s'.selectq = s.selectq) (hselw : s'.selw = s.selw) :
    s'.SelectInv := by
  constructor
  · refine h.placed.congr (fun r => by rw [hselectq]) ?_ (fun w _ => by rw [hselw])
    intro w
    simp only [Listed, hall, htask, hselw]
  · rw [hall, htask, hselw]
    exact h.owner
  · rw [hall, htask]
    exact h.nodup
  · rw [hall, htask]
    exact h.idle
  · rw [hall, htask]
    exact h.counted
  · rw [hselectq]
    exact h.exact

theorem FdInv.congr (h : s.FdInv) (hall : s'.allTasks = s.allTasks) (htask : s'.task = s.task)
    (hfdWaiters : s'.fdWaiters = s.fdWaiters) (hfdw : s'.fdw = s.fdw)
    (hcount : s'.fdWaitingCount = s.fdWaitingCount) : s'.FdInv := by
  constructor
  · rw [hfdWaiters]
    exact h.nodup
  · rw [hfdWaiters, hfdw, hall, htask]
    exact h.owner
  · rw [hfdWaiters, hfdw, hall, htask]
    exact h.linked
  · rw [hall, htask]
    exact h.waiting
  · rw [hcount, hfdWaiters, hfdw]
    exact h.count

theorem ChanInv.congr (h : s.ChanInv) (hall : s'.allTasks = s.allTasks) (htask : s'.task = s.task)
    (hselw : ∀ w, (s'.selw w).ch = (s.selw w).ch) (hchannels : s'.channels = s.channels)
    (hlive : ∀ ch, s'.Live (.chan ch) ↔ s.Live (.chan ch))
    (hchan : ∀ ch, (s.chan ch).closed = true → (s'.chan ch).closed = true) : s'.ChanInv := by
  constructor
  · rw [hchannels]
    exact h.nodup
  · intro ch hch
    exact (hlive ch).mpr (h.live ch (hchannels ▸ hch))
  · intro ch hl hc
    rw [hchannels]
    refine h.registered ch ((hlive ch).mp hl) ?_
    by_contra hclosed
    rw [hchan ch (by simpa using hclosed)] at hc
    cases hc
  · rw [hall, htask, hchannels]
    exact h.waitRegistered
  · rw [hall, htask, hchannels]
    intro t ht w hw
    rw [hselw]
    exact h.selectRegistered t ht w hw

theorem HeapInv.congr (h : s.HeapInv) (hall : s'.allTasks = s.allTasks) (htask : s'.task = s.task)
    (hfdWaiters : s'.fdWaiters ⊆ s.fdWaiters) (hnext : s'.nextAddr = s.nextAddr)
    (hmade : s'.made = s.made) (hfrees : ∀ t, s'.frees (.task t) = s.frees (.task t))
    (hfreed : ∀ o, s'.frees o ≠ 0 → s.frees o ≠ 0 ∨ s.made o = true) : s'.HeapInv := by
  constructor
  · rw [hmade, hnext]
    exact h.fresh
  · rw [hmade]
    exact fun o ho => (hfreed o ho).elim (h.freed o) id
  · rw [hall]
    intro t ht
    rw [Live, hmade, hfrees]
    exact h.task t ht
  · rw [hall, htask, hmade]
    exact h.selectWaiter
  · rw [hmade]
    exact fun w hw => h.fdWaiter w (hfdWaiters hw)

theorem HandleInv.congr (h : s.HandleInv) (hall : s'.allTasks = s.allTasks)
    (htask : s'.task = s.task) (hwaitq : ∀ x, s'.waitq (.joiners x) = s.waitq (.joiners x))
    (hhandles : s'.handles = s.handles) (hhandle : s'.handle = s.handle)
    (hmade : ∀ x, s'.made (.handle x) = s.made (.handle x))
    (hfrees : ∀ x, s'.frees (.handle x) = s.frees (.handle x)) (hstale : s'.stale = s.stale) :
    s'.HandleInv := by
  have hdying : ∀ x, s'.Dying x ↔ s.Dying x := by
    intro x
    simp only [Dying, hall, htask]
  constructor
  · rw [hhandles]
    exact h.nodup
  · intro x hx
    rw [Live, hmade, hfrees]
    exact h.live x (hhandles ▸ hx)
  · rw [hall, htask, hhandles, hhandle]
    exact h.linked
  · rw [hall, htask, hhandles, hhandle]
    exact h.back
  · rw [hhandles, hhandle]
    exact h.completed
  · rw [hhandles, hhandle]
    intro x hx hc hd
    rw [hwaitq]
    exact h.settled x hx hc fun h => hd ((hdying x).mpr h)
  · rw [hall, htask, hhandles]
    exact h.joinRegistered
  · intro x hx
    rw [hhandles, hhandle, hfrees]
    exact h.gone x (hmade x ▸ hx)
  · rw [hstale]
    exact h.notStale

/-- Nothing the invariant reads has changed. -/
theorem Inv.congr (h : s.Inv) (hf : s.Frame s') (htask : s'.task = s.task)
    (hrunq : s'.runq = s.runq) (htimers : s'.timers.items = s.timers.items)
    (hwaitq : s'.waitq = s.waitq) : s'.Inv where
  task := h.task.congr hf.allTasks htask hrunq htimers hwaitq hf.liveCount
  select := h.select.congr hf.allTasks htask hf.selectq hf.selw
  fd := h.fd.congr hf.allTasks htask hf.fdWaiters hf.fdw hf.fdWaitingCount
  chan := h.chan.congr hf.allTasks htask (fun _ => by rw [hf.selw]) hf.channels (fun _ => hf.live _)
    (fun _ => by rw [hf.chan]; exact id)
  heap := h.heap.congr hf.allTasks htask (by simp [hf.fdWaiters]) hf.nextAddr hf.made
    (fun _ => by rw [hf.frees]) (fun _ => by rw [hf.frees]; exact .inl)
  handle := h.handle.congr hf.allTasks htask (fun _ => by rw [hwaitq]) hf.handles hf.handle
    (fun _ => by rw [hf.made]) (fun _ => by rw [hf.frees]) hf.stale

/-! ## One task record -/

theorem TaskInv.update (h : s.TaskInv) (ht : t ∈ s.allTasks) (hall : s'.allTasks = s.allTasks)
    (htask : s'.task = Function.update s.task t k') (hlive : s'.liveCount = s.liveCount)
    (hdead : (s.task t).state ≠ .dead) (hdead' : k'.state ≠ .dead)
    (hslot : k'.slot ≠ (s.task t).slot)
    (hin : ∀ x, k'.slot = some x → (s'.slotItems x).Perm (t :: s.slotItems x))
    (hout : ∀ x, (s.task t).slot = some x → (s.slotItems x).Perm (t :: s'.slotItems x))
    (hsame : ∀ x, (s.task t).slot ≠ some x → k'.slot ≠ some x → s'.slotItems x = s.slotItems x)
    (hchan : k'.state = .waitingChan → k'.chanRef ≠ none)
    (hjoin : k'.state = .waitingJoin → k'.joinWaitingOn ≠ none)
    (hrunq : s'.runq.Exact) (hwaitq : ∀ r, (s'.waitq r).Exact) : s'.TaskInv where
  nodup := by
    rw [hall]
    exact h.nodup
  placed := by
    refine h.placed.move ht (fun y => by rw [hall]) ?_ ?_ ?_ ?_ ?_
    · intro y hy
      rw [htask, Function.update_of_ne hy]
    · rw [htask, Function.update_self]
      exact hslot
    · rw [htask, Function.update_self]
      exact hin
    · exact hout
    · rw [htask, Function.update_self]
      exact hsame
  chanRef u hu := by
    rw [hall] at hu
    by_cases hut : u = t
    · rw [htask, hut, Function.update_self]
      exact hchan
    · rw [htask, Function.update_of_ne hut]
      exact h.chanRef u hu
  joinRef u hu := by
    rw [hall] at hu
    by_cases hut : u = t
    · rw [htask, hut, Function.update_self]
      exact hjoin
    · rw [htask, Function.update_of_ne hut]
      exact h.joinRef u hu
  live := by
    rw [hlive, hall, h.live, htask]
    exact (countP_update_same (p := fun k : Task => decide (k.state ≠ .dead))
      (by simp [hdead, hdead'])).symm
  runqExact := hrunq
  waitqExact := hwaitq

/-- A task is appended to the run queue and leaves whatever held it. -/
theorem TaskInv.wake (h : s.TaskInv) (ht : t ∈ s.allTasks) (hall : s'.allTasks = s.allTasks)
    (hlive : s'.liveCount = s.liveCount) (htask : s'.task = Function.update s.task t k')
    (hdead : (s.task t).state ≠ .dead)
    (hready : (s.task t).state ≠ .ready) (hk : k'.state = .ready) (hrunq : s'.runq = s.runq.push t)
    (hout : ∀ x, (s.task t).slot = some x → (s.slotItems x).Perm (t :: s'.slotItems x))
    (hsame : ∀ x, x ≠ .runq → (s.task t).slot ≠ some x → s'.slotItems x = s.slotItems x)
    (hwaitq : ∀ r, (s'.waitq r).Exact) : s'.TaskInv := by
  have hslot : k'.slot = some .runq := by simp [Task.slot, hk]
  have hne : (s.task t).slot ≠ some .runq := by
    intro hold
    unfold Task.slot at hold
    split at hold <;> simp_all
  refine h.update ht hall htask hlive hdead (by simp [hk]) ?_ ?_ hout ?_ (by simp [hk])
    (by simp [hk]) (hrunq ▸ h.runqExact.push t) hwaitq
  · rw [hslot]
    exact hne.symm
  · intro x hx
    rw [hslot] at hx
    cases hx
    simp [hrunq]
  · intro x hx hx'
    rw [hslot] at hx'
    exact hsame x (fun h => hx' (by rw [h])) hx

/-- The record of a running task changes and the task goes on running. -/
theorem TaskInv.touch (h : s.TaskInv) (hall : s'.allTasks = s.allTasks)
    (hlive : s'.liveCount = s.liveCount) (htask : s'.task = Function.update s.task t k')
    (hrun : (s.task t).state = .running) (hk : k'.state = .running) (hrunq : s'.runq = s.runq)
    (htimers : s'.timers.items = s.timers.items) (hwaitq : s'.waitq = s.waitq) : s'.TaskInv := by
  -- the records differ only where the task names no structure in either
  let mid : Rt := { s' with task := s.task }
  have hmid : mid.TaskInv := h.congr hall rfl hrunq htimers hwaitq hlive
  have hslot : ∀ u, (s'.task u).slot = (s.task u).slot := by
    intro u
    by_cases hu : u = t
    · rw [htask, hu, Function.update_self, Task.slot, Task.slot, hk, hrun]
    · rw [htask, Function.update_of_ne hu]
  constructor
  · exact hmid.nodup
  · exact hmid.placed.congr (fun x => by cases x <;> rfl) (fun _ => Iff.rfl) (fun u _ => hslot u)
  · intro u hu
    by_cases hut : u = t
    · rw [htask, hut, Function.update_self, hk]
      exact fun hs => by cases hs
    · rw [htask, Function.update_of_ne hut]
      exact hmid.chanRef u hu
  · intro u hu
    by_cases hut : u = t
    · rw [htask, hut, Function.update_self, hk]
      exact fun hs => by cases hs
    · rw [htask, Function.update_of_ne hut]
      exact hmid.joinRef u hu
  · refine hmid.live.trans ?_
    rw [htask]
    exact (countP_update_same (f := s.task) (p := fun k => decide (k.state ≠ .dead))
      (by simp [hk, hrun])).symm
  · exact hmid.runqExact
  · exact hmid.waitqExact

theorem SelectInv.update (h : s.SelectInv) (hf : s.Frame s')
    (htask : s'.task = Function.update s.task t k') (hk : (s.task t).SameSelect k') :
    s'.SelectInv := by
  obtain ⟨hold, hnew, hws, hcount, hidle⟩ := hk
  have hsw : ∀ u, (s'.task u).selectWaiters = (s.task u).selectWaiters := by
    intro u
    by_cases hu : u = t
    · rw [htask, hu, Function.update_self, hws]
    · rw [htask, Function.update_of_ne hu]
  have hlisted : ∀ w, s'.Listed w ↔ s.Listed w := by
    intro w
    simp only [Listed, hf.allTasks, hf.selw, hsw]
  constructor
  · exact h.placed.congr (fun r => by rw [hf.selectq]) hlisted (fun w _ => by rw [hf.selw])
  · rw [hf.allTasks, hf.selw]
    intro u hu w hw
    rw [hsw] at hw
    exact h.owner u hu w hw
  · rw [hf.allTasks]
    intro u hu
    rw [hsw]
    exact h.nodup u hu
  · rw [hf.allTasks]
    intro u hu
    by_cases hut : u = t
    · subst hut
      rw [htask, Function.update_self, hws]
      exact fun _ => hidle
    · rw [htask, Function.update_of_ne hut]
      exact h.idle u hu
  · rw [hf.allTasks]
    intro u hu
    by_cases hut : u = t
    · subst hut
      rw [htask, Function.update_self, hcount, h.counted u hu]
      exact iff_of_false hold hnew
    · rw [htask, Function.update_of_ne hut]
      exact h.counted u hu
  · rw [hf.selectq]
    exact h.exact

theorem FdInv.update (h : s.FdInv) (hf : s.Frame s')
    (htask : s'.task = Function.update s.task t k') (hk : (s.task t).SameFd k') : s'.FdInv := by
  obtain ⟨hold, hnew, hfw⟩ := hk
  have hfdw : ∀ u, (s'.task u).fdWaiter = (s.task u).fdWaiter := by
    intro u
    by_cases hu : u = t
    · rw [htask, hu, Function.update_self, hfw]
    · rw [htask, Function.update_of_ne hu]
  have hstate : ∀ u, (s'.task u).state = .waitingFd ↔ (s.task u).state = .waitingFd := by
    intro u
    by_cases hu : u = t
    · rw [htask, hu, Function.update_self]
      exact iff_of_false hnew hold
    · rw [htask, Function.update_of_ne hu]
  constructor
  · rw [hf.fdWaiters]
    exact h.nodup
  · rw [hf.fdWaiters, hf.fdw, hf.allTasks]
    intro w hw
    rw [hfdw, hstate]
    exact h.owner w hw
  · rw [hf.fdWaiters, hf.fdw, hf.allTasks]
    intro u hu w
    rw [hfdw]
    exact h.linked u hu w
  · rw [hf.allTasks]
    intro u hu hw
    have hut : u ≠ t := by
      rintro rfl
      rw [htask, Function.update_self] at hw
      exact hnew hw
    rw [htask, Function.update_of_ne hut] at hw ⊢
    exact h.waiting u hu hw
  · rw [hf.fdWaitingCount, hf.fdWaiters, hf.fdw]
    exact h.count

theorem ChanInv.update (h : s.ChanInv) (hf : s.Frame s')
    (htask : s'.task = Function.update s.task t k')
    (hws : k'.selectWaiters ⊆ (s.task t).selectWaiters)
    (hk : k'.state = .waitingChan → ∀ ch, k'.chanWaitCh = some ch → ch ∈ s.channels) :
    s'.ChanInv := by
  constructor
  · rw [hf.channels]
    exact h.nodup
  · rw [hf.channels]
    exact fun ch hch => (hf.live _).mpr (h.live ch hch)
  · rw [hf.channels, hf.chan]
    exact fun ch hl => h.registered ch ((hf.live _).mp hl)
  · rw [hf.allTasks, hf.channels]
    intro u hu ch
    by_cases hut : u = t
    · rw [htask, hut, Function.update_self]
      exact fun hs hch => hk hs ch hch
    · rw [htask, Function.update_of_ne hut]
      exact h.waitRegistered u hu ch
  · rw [hf.allTasks, hf.channels, hf.selw]
    intro u hu
    by_cases hut : u = t
    · rw [htask, hut, Function.update_self]
      exact fun w hw => h.selectRegistered t (hut ▸ hu) w (hws hw)
    · rw [htask, Function.update_of_ne hut]
      exact h.selectRegistered u hu

theorem HeapInv.update (h : s.HeapInv) (hf : s.Frame s')
    (htask : s'.task = Function.update s.task t k')
    (hws : k'.selectWaiters ⊆ (s.task t).selectWaiters) : s'.HeapInv := by
  constructor
  · rw [hf.made, hf.nextAddr]
    exact h.fresh
  · rw [hf.made, hf.frees]
    exact h.freed
  · rw [hf.allTasks]
    exact fun u hu => (hf.live _).mpr (h.task u hu)
  · rw [hf.allTasks, hf.made]
    intro u hu
    by_cases hut : u = t
    · rw [htask, hut, Function.update_self]
      exact fun w hw => h.selectWaiter t (hut ▸ hu) w (hws hw)
    · rw [htask, Function.update_of_ne hut]
      exact h.selectWaiter u hu
  · rw [hf.fdWaiters, hf.made]
    exact h.fdWaiter

theorem HandleInv.update (h : s.HandleInv) (hf : s.Frame s')
    (htask : s'.task = Function.update s.task t k')
    (hdead : (s.task t).state ≠ .dead) (hdead' : k'.state ≠ .dead)
    (hhandle : k'.handle = (s.task t).handle)
    (hjoin : k'.state = .waitingJoin → ∀ x, k'.joinWaitingOn = some x → x ∈ s.handles)
    (hqueue : ∀ x, (s.handle x).completed = true → (s.waitq (.joiners x)).items = [] →
      (s'.waitq (.joiners x)).items = []) : s'.HandleInv := by
  have hh : ∀ u, (s'.task u).handle = (s.task u).handle := by
    intro u
    by_cases hu : u = t
    · rw [htask, hu, Function.update_self, hhandle]
    · rw [htask, Function.update_of_ne hu]
  have hd : ∀ u, (s'.task u).state = .dead ↔ (s.task u).state = .dead := by
    intro u
    by_cases hu : u = t
    · rw [htask, hu, Function.update_self]
      exact iff_of_false hdead' hdead
    · rw [htask, Function.update_of_ne hu]
  have hdying : ∀ x, s'.Dying x ↔ s.Dying x := by
    intro x
    simp only [Dying, hf.allTasks, hh, hd]
  constructor
  · rw [hf.handles]
    exact h.nodup
  · rw [hf.handles]
    exact fun x hx => (hf.live _).mpr (h.live x hx)
  · rw [hf.allTasks, hf.handles, hf.handle]
    intro u hu hs x hx
    rw [hh] at hx
    exact h.linked u hu (fun hs' => hs ((hd u).mpr hs')) x hx
  · rw [hf.allTasks, hf.handles, hf.handle]
    intro x hx u hu
    rw [hh]
    exact h.back x hx u hu
  · rw [hf.handles, hf.handle]
    exact h.completed
  · rw [hf.handles, hf.handle]
    intro x hx hc hnd
    obtain ⟨hempty, hrel⟩ := h.settled x hx hc fun hd => hnd ((hdying x).mpr hd)
    exact ⟨hqueue x hc hempty, hrel⟩
  · rw [hf.allTasks, hf.handles]
    intro u hu x
    by_cases hut : u = t
    · rw [htask, hut, Function.update_self]
      exact fun hs hx => hjoin hs x hx
    · rw [htask, Function.update_of_ne hut]
      exact h.joinRegistered u hu x
  · rw [hf.made, hf.handles, hf.handle, hf.frees]
    exact h.gone
  · rw [hf.stale]
    exact h.notStale

end Rt

end Microthread
