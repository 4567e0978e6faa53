import Microthread.Invariant.Preservation

/-!
# Creation, destruction and handles keep the invariant
-/

namespace Microthread

open Foundation

namespace Rt

variable {s s' : Rt} {t : TaskId} {k' : Task}

/-! ## Death -/

/-- A task dies; the lists that linked it have been seen to. -/
theorem TaskInv.kill (h : s.TaskInv) (ht : t ∈ s.allTasks) (hall : s'.allTasks = s.allTasks)
    (htask : s'.task = Function.update s.task t k') (hdead : (s.task t).state ≠ .dead)
    (hk : k'.state = .dead) (hlive : s'.liveCount = s.liveCount - 1)
    (hplaced : Placed s'.slotItems (· ∈ s'.allTasks) fun u => (s'.task u).slot)
    (hrunq : s'.runq.Exact) (hwaitq : s'.waitq = s.waitq) : s'.TaskInv := by
  constructor
  · rw [hall]
    exact h.nodup
  · exact hplaced
  · rw [hall]
    intro u hu
    by_cases hut : u = t
    · rw [htask, hut, Function.update_self, hk]
      exact fun hs => by cases hs
    · rw [htask, Function.update_of_ne hut]
      exact h.chanRef u hu
  · rw [hall]
    intro u hu
    by_cases hut : u = t
    · rw [htask, hut, Function.update_self, hk]
      exact fun hs => by cases hs
    · rw [htask, Function.update_of_ne hut]
      exact h.joinRef u hu
  · rw [hall, hlive, htask]
    have hleave := countP_update_leave (f := s.task) (p := fun k => decide (k.state ≠ .dead))
      (v := k') h.nodup ht (by simp [hdead]) (by simp [hk])
    exact Nat.sub_eq_of_eq_add (h.live.trans hleave.symm)
  · exact hrunq
  · rw [hwaitq]
    exact h.waitqExact

theorem HandleInv.kill (h : s.HandleInv) (hall : s'.allTasks = s.allTasks)
    (htask : s'.task = Function.update s.task t k') (hk : k'.state = .dead)
    (hhandle : k'.handle = (s.task t).handle) (hhandles : s'.handles = s.handles)
    (hrec : s'.handle = s.handle) (hwaitq : s'.waitq = s.waitq) (hmade : s'.made = s.made)
    (hfrees : s'.frees = s.frees) (hstale : s'.stale = s.stale) : s'.HandleInv := by
  have hh : ∀ u, (s'.task u).handle = (s.task u).handle := by
    intro u
    by_cases hu : u = t
    · rw [htask, hu, Function.update_self, hhandle]
    · rw [htask, Function.update_of_ne hu]
  have hstate : ∀ u, (s'.task u).state ≠ .dead → u ≠ t := by
    rintro u hu rfl
    rw [htask, Function.update_self] at hu
    exact hu hk
  constructor
  · rw [hhandles]
    exact h.nodup
  · rw [hhandles]
    intro x hx
    rw [Live, hmade, hfrees]
    exact h.live x hx
  · rw [hall, hhandles, hrec]
    intro u hu hs x hx
    have hut := hstate u hs
    rw [htask, Function.update_of_ne hut] at hs hx
    exact h.linked u hu hs x hx
  · rw [hall, hhandles, hrec]
    intro x hx u hu
    rw [hh]
    exact h.back x hx u hu
  · rw [hhandles, hrec]
    exact h.completed
  · rw [hhandles, hrec, hwaitq]
    intro x hx hc hnd
    refine h.settled x hx hc ?_
    rintro ⟨u, hu, hs, hux⟩
    refine hnd ⟨u, hall ▸ hu, ?_, (hh u).trans hux⟩
    by_cases hut : u = t
    · rw [htask, hut, Function.update_self, hk]
    · rw [htask, Function.update_of_ne hut, hs]
  · rw [hall, hhandles]
    intro u hu x hs hx
    have hut : u ≠ t := hstate u (by simp [hs])
    rw [htask, Function.update_of_ne hut] at hs hx
    exact h.joinRegistered u hu x hs hx
  · rw [hmade, hhandles, hrec, hfrees]
    exact h.gone
  · rw [hstale]
    exact h.notStale

theorem Inv.killReady (h : s.Inv) (ht : t ∈ s.allTasks) (hs : (s.task t).state = .ready) :
    (s.killReady t).Inv := by
  have hslot : (s.task t).slot = some .runq := by simp [Task.slot, hs]
  have hmem : t ∈ s.runq.items := (h.task.placed.mem .runq t).mpr ⟨ht, hslot⟩
  have hidle := h.select.idle t ht (by simp [hs]) (by simp [hs])
  let mid : Rt := { s with liveCount := (s.killReady t).liveCount }
  have hf : mid.Frame (s.killReady t) := by constructor <;> rfl
  constructor
  · refine h.task.kill ht rfl rfl (by simp [hs]) rfl rfl ?_ (h.task.runqExact.remove t) rfl
    refine h.task.placed.move ht (fun _ => Iff.rfl) ?_ ?_ ?_ ?_ ?_
    · intro u hu
      simp [Rt.killReady, Function.update_of_ne hu]
    · rw [hslot]
      simp [Rt.killReady, Task.slot]
    · simp [Rt.killReady, Task.slot]
    · rw [hslot]
      rintro x ⟨rfl⟩
      exact remove_perm hmem
    · rw [hslot]
      intro x hx _
      cases x with
      | runq => exact absurd rfl hx
      | timers => rfl
      | waitq r => rfl
  · have hmid : mid.SelectInv := h.select.congr rfl rfl rfl rfl
    exact hmid.update hf rfl ⟨by simp [mid, hs], by simp, rfl, rfl, fun _ => hidle⟩
  · have hmid : mid.FdInv := h.fd.congr rfl rfl rfl rfl rfl
    exact hmid.update hf rfl ⟨by simp [mid, hs], by simp, rfl⟩
  · have hmid : mid.ChanInv := h.chan.congr rfl rfl (fun _ => rfl) rfl (fun _ => Iff.rfl)
      (fun _ => id)
    exact hmid.update hf rfl (List.Subset.refl _) (by simp)
  · have hmid : mid.HeapInv := h.heap.congr rfl rfl (List.Subset.refl _) rfl rfl (fun _ => rfl)
      (fun _ => .inl)
    exact hmid.update hf rfl (List.Subset.refl _)
  · exact h.handle.kill rfl rfl rfl rfl rfl rfl rfl rfl rfl rfl

/-! ## Handles -/

/-- The parts that do not read handles, when only handles and frees of handles change. -/
theorem Inv.ofHandle (h : s.Inv) (hf : s.Frame { s' with
      handles := s.handles, handle := s.handle, frees := s.frees })
    (htask : s'.task = s.task) (hrunq : s'.runq = s.runq)
    (htimers : s'.timers.items = s.timers.items) (hwaitq : s'.waitq = s.waitq)
    (hfrees : ∀ o, (∀ x, o ≠ .handle x) → s'.frees o = s.frees o)
    (hmade : ∀ o, s'.frees o ≠ 0 → s.frees o ≠ 0 ∨ s.made o = true) (hhandle : s'.HandleInv) :
    s'.Inv where
  task := h.task.congr hf.allTasks htask hrunq htimers hwaitq hf.liveCount
  select := h.select.congr hf.allTasks htask hf.selectq hf.selw
  fd := h.fd.congr hf.allTasks htask hf.fdWaiters hf.fdw hf.fdWaitingCount
  chan := h.chan.congr hf.allTasks htask (fun w => congrArg _ (congrFun hf.selw w)) hf.channels
    (fun ch => by rw [Live, Live, hfrees _ (by simp), show s'.made = s.made from hf.made])
    (fun ch => by rw [show s'.chan = s.chan from hf.chan]; exact id)
  heap := h.heap.congr hf.allTasks htask (by rw [show s'.fdWaiters = s.fdWaiters from hf.fdWaiters]
                                             exact List.Subset.refl _) hf.nextAddr hf.made
    (fun _ => hfrees _ (by simp)) hmade
  handle := hhandle

/-- A change of one handle record that keeps what the invariant reads of it. -/
theorem HandleInv.modHandle (h : s.HandleInv) {x : HandleId} {f : Handle → Handle}
    (htask : (f (s.handle x)).task = (s.handle x).task)
    (hcompleted : (f (s.handle x)).completed = (s.handle x).completed)
    (hreleased : (f (s.handle x)).released = (s.handle x).released) :
    (s.modHandle x f).HandleInv := by
  have hrec : ∀ y, ((s.modHandle x f).handle y).task = (s.handle y).task ∧
      ((s.modHandle x f).handle y).completed = (s.handle y).completed ∧
      ((s.modHandle x f).handle y).released = (s.handle y).released := by
    intro y
    by_cases hy : y = x
    · subst hy
      simp [Rt.modHandle, htask, hcompleted, hreleased]
    · simp [Rt.modHandle, Function.update_of_ne hy]
  constructor
  · exact h.nodup
  · exact h.live
  · intro u hu hs y hy
    rw [(hrec y).1]
    exact h.linked u hu hs y hy
  · intro y hy u hu
    rw [(hrec y).1] at hu
    exact h.back y hy u hu
  · intro y hy
    rw [(hrec y).1, (hrec y).2.1]
    exact h.completed y hy
  · intro y hy hc
    rw [(hrec y).2.1] at hc
    rw [(hrec y).2.2]
    exact h.settled y hy hc
  · exact h.joinRegistered
  · intro y hm hy
    rw [(hrec y).1, (hrec y).2.1, (hrec y).2.2]
    exact h.gone y hm hy
  · exact h.notStale

/-- The fields of a handle that decide nothing about its lifetime may change. -/
theorem Inv.modHandle (h : s.Inv) {x : HandleId} {f : Handle → Handle}
    (htask : (f (s.handle x)).task = (s.handle x).task)
    (hcompleted : (f (s.handle x)).completed = (s.handle x).completed)
    (hreleased : (f (s.handle x)).released = (s.handle x).released) : (s.modHandle x f).Inv :=
  h.ofHandle (by constructor <;> rfl) rfl rfl rfl rfl (fun _ _ => rfl) (fun _ => .inl)
    (h.handle.modHandle htask hcompleted hreleased)

theorem HandleInv.release (h : s.HandleInv) {x : HandleId} (hx : x ∈ s.handles)
    (hc : (s.handle x).completed = false) :
    (s.modHandle x fun k => { k with released := true }).HandleInv := by
  have hrec : ∀ y, ((s.modHandle x fun k => { k with released := true }).handle y).task =
        (s.handle y).task ∧
      ((s.modHandle x fun k => { k with released := true }).handle y).completed =
        (s.handle y).completed := by
    intro y
    by_cases hy : y = x
    · subst hy
      simp [Rt.modHandle]
    · simp [Rt.modHandle, Function.update_of_ne hy]
  have hother : ∀ y, y ≠ x →
      (s.modHandle x fun k => { k with released := true }).handle y = s.handle y := by
    intro y hy
    simp [Rt.modHandle, Function.update_of_ne hy]
  constructor
  · exact h.nodup
  · exact h.live
  · intro u hu hs y hy
    rw [(hrec y).1]
    exact h.linked u hu hs y hy
  · intro y hy u hu
    rw [(hrec y).1] at hu
    exact h.back y hy u hu
  · intro y hy
    rw [(hrec y).1, (hrec y).2]
    exact h.completed y hy
  · intro y hy hcy hd
    rw [(hrec y).2] at hcy
    have hyx : y ≠ x := by
      rintro rfl
      rw [hc] at hcy
      cases hcy
    rw [hother y hyx]
    exact h.settled y hy hcy hd
  · exact h.joinRegistered
  · intro y hm hy
    have hyx : y ≠ x := by
      rintro rfl
      exact hy hx
    rw [hother y hyx]
    exact h.gone y hm hy
  · exact h.notStale

/-- A completed handle that nobody needs goes. -/
theorem HandleInv.drop (h : s.HandleInv) {x : HandleId} (hm : s.made (.handle x) = true)
    (hf : s.frees (.handle x) = 0) (ht : (s.handle x).task = none)
    (hall : s'.allTasks = s.allTasks) (htask : s'.task = s.task) (hwaitq : s'.waitq = s.waitq)
    (hhandles : s'.handles = s.handles.erase x) (hmade : s'.made = s.made)
    (hfrees : s'.frees = Function.update s.frees (.handle x) (s.frees (.handle x) + 1))
    (hother : ∀ y, y ≠ x → s'.handle y = s.handle y) (hrel : (s'.handle x).released = true)
    (htaskx : (s'.handle x).task = none) (hjoin : (s.waitq (.joiners x)).items = [])
    (hplaced : s.TaskInv) (hstale : s'.stale = s.stale) : s'.HandleInv := by
  have hdying : ∀ y, s'.Dying y ↔ s.Dying y := by
    intro y
    simp only [Dying, hall, htask]
  have hmem : ∀ y, y ∈ s'.handles ↔ y ≠ x ∧ y ∈ s.handles := by
    intro y
    rw [hhandles]
    exact h.nodup.mem_erase_iff
  have hfr : ∀ y, y ≠ x → s'.frees (.handle y) = s.frees (.handle y) := by
    intro y hy
    rw [hfrees, Function.update_of_ne (by simpa using hy)]
  constructor
  · rw [hhandles]
    exact h.nodup.erase x
  · intro y hy
    obtain ⟨hyx, hy⟩ := (hmem y).mp hy
    rw [Live, hmade, hfr y hyx]
    exact h.live y hy
  · rw [hall, htask]
    intro u hu hs y hy
    obtain ⟨hy1, hy2⟩ := h.linked u hu hs y hy
    have hyx : y ≠ x := by
      rintro rfl
      rw [ht] at hy2
      cases hy2
    rw [hmem, hother y hyx]
    exact ⟨⟨hyx, hy1⟩, hy2⟩
  · rw [hall, htask]
    intro y hy u hu
    obtain ⟨hyx, hy⟩ := (hmem y).mp hy
    rw [hother y hyx] at hu
    exact h.back y hy u hu
  · intro y hy
    obtain ⟨hyx, hy⟩ := (hmem y).mp hy
    rw [hother y hyx]
    exact h.completed y hy
  · intro y hy hc hd
    obtain ⟨hyx, hy⟩ := (hmem y).mp hy
    rw [hother y hyx] at hc ⊢
    rw [hwaitq]
    exact h.settled y hy hc fun hd' => hd ((hdying y).mpr hd')
  · rw [hall, htask]
    intro u hu y hs hy
    refine (hmem y).mpr ⟨?_, h.joinRegistered u hu y hs hy⟩
    rintro rfl
    -- a task parked on the handle would be in its queue
    have : u ∈ (s.waitq (.joiners y)).items :=
      (hplaced.placed.mem (.waitq (.joiners y)) u).mpr ⟨hu, by simp [Task.slot, hs, hy]⟩
    rw [hjoin] at this
    cases this
  · intro y hy hn
    rw [hmade] at hy
    by_cases hyx : y = x
    · subst hyx
      rw [hrel, hfrees, Function.update_self, hf]
      exact ⟨htaskx, rfl, by simp⟩
    · rw [hother y hyx, hfr y hyx]
      exact h.gone y hy fun hmem' => hn ((hmem y).mpr ⟨hyx, hmem'⟩)
  · rw [hstale]
    exact h.notStale

theorem Inv.dropHandle (h : s.Inv) {x : HandleId} (hx : x ∈ s.handles)
    (hc : (s.handle x).completed = true) (hr : (s.handle x).released = true)
    (hj : (s.waitq (.joiners x)).items = []) : (s.dropHandle x).Inv := by
  obtain ⟨hm, hf⟩ := h.handle.live x hx
  have ht := (h.handle.completed x hx).mp hc
  refine h.ofHandle (by constructor <;> rfl) rfl rfl rfl rfl ?_ (freed_update hm) ?_
  · intro o ho
    simp [Rt.dropHandle, Function.update_of_ne (ho x)]
  · exact h.handle.drop hm hf ht rfl rfl rfl rfl rfl rfl (fun _ _ => rfl) hr ht hj h.task rfl

theorem Inv.releaseDrop (h : s.Inv) {x : HandleId} (hm : s.made (.handle x) = true)
    (hf : s.frees (.handle x) = 0) (ht : (s.handle x).task = none)
    (hj : (s.waitq (.joiners x)).items = []) :
    ((s.modHandle x fun k => { k with released := true }).dropHandle x).Inv := by
  refine h.ofHandle (by constructor <;> rfl) rfl rfl rfl rfl ?_ (freed_update hm) ?_
  · intro o ho
    simp [Rt.dropHandle, Rt.modHandle, Function.update_of_ne (ho x)]
  · refine h.handle.drop hm hf ht rfl rfl rfl rfl rfl rfl ?_ ?_ ?_ hj h.task rfl
    · intro y hy
      simp [Rt.dropHandle, Rt.modHandle, Function.update_of_ne hy]
    · simp [Rt.dropHandle, Rt.modHandle]
    · simp [Rt.dropHandle, Rt.modHandle, ht]

theorem HandleInv.completeHandle (h : s.HandleInv) {x : HandleId} (hx : x ∈ s.handles)
    (ht : t ∈ s.allTasks) (hdead : (s.task t).state = .dead) (hxt : (s.handle x).task = some t)
    (cancelled : Bool) : (s.completeHandle x cancelled).HandleInv := by
  have hother : ∀ y, y ≠ x → (s.completeHandle x cancelled).handle y = s.handle y := by
    intro y hy
    simp [Rt.completeHandle, Rt.modHandle, Function.update_of_ne hy]
  have hself : ((s.completeHandle x cancelled).handle x).task = none ∧
      ((s.completeHandle x cancelled).handle x).completed = true := by
    simp [Rt.completeHandle, Rt.modHandle]
  constructor
  · exact h.nodup
  · exact h.live
  · intro u hu hs y hy
    obtain ⟨hy1, hy2⟩ := h.linked u hu hs y hy
    have hyx : y ≠ x := by
      rintro rfl
      rw [hxt] at hy2
      cases hy2
      exact hs hdead
    rw [hother y hyx]
    exact ⟨hy1, hy2⟩
  · intro y hy u hu
    by_cases hyx : y = x
    · rw [hyx, hself.1] at hu
      cases hu
    · rw [hother y hyx] at hu
      exact h.back y hy u hu
  · intro y hy
    by_cases hyx : y = x
    · simp [hyx, hself]
    · rw [hother y hyx]
      exact h.completed y hy
  · intro y hy hcy hnd
    have hyx : y ≠ x := by
      rintro rfl
      exact hnd ⟨t, ht, hdead, (h.back y hy t hxt).2⟩
    rw [hother y hyx] at hcy ⊢
    exact h.settled y hy hcy hnd
  · exact h.joinRegistered
  · intro y hm hy
    have hyx : y ≠ x := by
      rintro rfl
      exact hy hx
    rw [hother y hyx]
    exact h.gone y hm hy
  · exact h.notStale

theorem Inv.release (h : s.Inv) {x : HandleId} (hx : x ∈ s.handles)
    (hc : (s.handle x).completed = false) :
    (s.modHandle x fun k => { k with released := true }).Inv :=
  h.ofHandle (by constructor <;> rfl) rfl rfl rfl rfl (fun _ _ => rfl) (fun _ => .inl)
    (h.handle.release hx hc)

theorem Inv.completeHandle (h : s.Inv) {x : HandleId} (hx : x ∈ s.handles)
    (ht : t ∈ s.allTasks) (hdead : (s.task t).state = .dead) (hxt : (s.handle x).task = some t)
    (cancelled : Bool) : (s.completeHandle x cancelled).Inv :=
  h.ofHandle (by constructor <;> rfl) rfl rfl rfl rfl (fun _ _ => rfl) (fun _ => .inl)
    (h.handle.completeHandle hx ht hdead hxt cancelled)

/-! ## Unregistering a dead task -/

section Unregister

variable (ht : t ∈ s.allTasks) (hall : s'.allTasks = s.allTasks.erase t)
  (hother : ∀ u, u ≠ t → s'.task u = s.task u) (hdead : (s.task t).state = .dead)

include hall in
theorem mem_unregister (h : s.allTasks.Nodup) (u : TaskId) :
    u ∈ s'.allTasks ↔ u ≠ t ∧ u ∈ s.allTasks := by
  rw [hall]
  exact h.mem_erase_iff

include ht hall hother hdead in
theorem TaskInv.unregister (h : s.TaskInv) (hrunq : s'.runq = s.runq)
    (htimers : s'.timers.items = s.timers.items) (hwaitq : s'.waitq = s.waitq)
    (hlive : s'.liveCount = s.liveCount) : s'.TaskInv := by
  have hmem := mem_unregister hall h.nodup
  constructor
  · rw [hall]
    exact h.nodup.erase t
  · refine h.placed.setLive (x := t) ?_ ?_ ?_ ?_ ?_
    · rintro (_ | _ | r)
      · simp only [slotItems_runq, hrunq]
      · exact htimers
      · simp only [slotItems_waitq, hwaitq]
    · intro u hu
      simp [hmem, hu]
    · intro u hu _
      rw [hother u hu]
    · intro x hx
      have := ((h.placed.mem x t).mp hx).2
      simp [Task.slot, hdead] at this
    · intro hlive'
      exact absurd rfl ((hmem t).mp hlive').1
  · intro u hu
    obtain ⟨hut, hu⟩ := (hmem u).mp hu
    rw [hother u hut]
    exact h.chanRef u hu
  · intro u hu
    obtain ⟨hut, hu⟩ := (hmem u).mp hu
    rw [hother u hut]
    exact h.joinRef u hu
  · rw [hlive, h.live, (List.perm_cons_erase ht).countP_eq, List.countP_cons_of_neg (by simp [hdead]),
      hall]
    refine List.countP_congr fun u hu => ?_
    rw [hother u (ne_of_mem_of_not_mem hu h.nodup.not_mem_erase)]
  · rw [hrunq]
    exact h.runqExact
  · rw [hwaitq]
    exact h.waitqExact

include ht hall hother hdead in
theorem SelectInv.unregister (h : s.SelectInv) (hnodup : s.allTasks.Nodup)
    (hselectq : s'.selectq = s.selectq)
    (hselw : s'.selw = s.selw) : s'.SelectInv := by
  have hmem := mem_unregister hall hnodup
  have hidle := h.idle t ht (by simp [hdead]) (by simp [hdead])
  constructor
  · refine h.placed.congr (fun r => by rw [hselectq]) ?_ (fun w _ => by rw [hselw])
    intro w
    simp only [Listed, hselw, hmem]
    by_cases hu : (s.selw w).task = t
    · rw [hu, hidle]
      simp
    · rw [hother _ hu]
      simp [hu]
  · intro u hu w hw
    obtain ⟨hut, hu⟩ := (hmem u).mp hu
    rw [hother u hut] at hw
    rw [hselw]
    exact h.owner u hu w hw
  · intro u hu
    obtain ⟨hut, hu⟩ := (hmem u).mp hu
    rw [hother u hut]
    exact h.nodup u hu
  · intro u hu
    obtain ⟨hut, hu⟩ := (hmem u).mp hu
    rw [hother u hut]
    exact h.idle u hu
  · intro u hu
    obtain ⟨hut, hu⟩ := (hmem u).mp hu
    rw [hother u hut]
    exact h.counted u hu
  · rw [hselectq]
    exact h.exact

include hall hother in
theorem ChanInv.unregister (h : s.ChanInv) (hnodup : s.allTasks.Nodup) (hselw : s'.selw = s.selw)
    (hchannels : s'.channels = s.channels) (hmade : s'.made = s.made)
    (hfrees : ∀ ch, s'.frees (.chan ch) = s.frees (.chan ch)) (hchan : s'.chan = s.chan) :
    s'.ChanInv := by
  have hmem := mem_unregister hall hnodup
  constructor
  · rw [hchannels]
    exact h.nodup
  · rw [hchannels]
    intro ch hch
    rw [Live, hmade, hfrees]
    exact h.live ch hch
  · rw [hchannels, hchan]
    intro ch hl
    rw [Live, hmade, hfrees] at hl
    exact h.registered ch hl
  · rw [hchannels]
    intro u hu
    obtain ⟨hut, hu⟩ := (hmem u).mp hu
    rw [hother u hut]
    exact h.waitRegistered u hu
  · rw [hchannels, hselw]
    intro u hu
    obtain ⟨hut, hu⟩ := (hmem u).mp hu
    rw [hother u hut]
    exact h.selectRegistered u hu

include hall hother in
theorem HeapInv.unregister (h : s.HeapInv) (hnodup : s.allTasks.Nodup)
    (hnext : s'.nextAddr = s.nextAddr) (hmade : s'.made = s.made)
    (hfrees : ∀ u, u ≠ t → s'.frees (.task u) = s.frees (.task u))
    (hfreed : ∀ o, s'.frees o ≠ 0 → s.frees o ≠ 0 ∨ s.made o = true)
    (hfd : s'.fdWaiters ⊆ s.fdWaiters) : s'.HeapInv := by
  have hmem := mem_unregister hall hnodup
  constructor
  · rw [hmade, hnext]
    exact h.fresh
  · rw [hmade]
    exact fun o ho => (hfreed o ho).elim (h.freed o) id
  · intro u hu
    obtain ⟨hut, hu⟩ := (hmem u).mp hu
    rw [Live, hmade, hfrees u hut]
    exact h.task u hu
  · rw [hmade]
    intro u hu
    obtain ⟨hut, hu⟩ := (hmem u).mp hu
    rw [hother u hut]
    exact h.selectWaiter u hu
  · rw [hmade]
    exact fun w hw => h.fdWaiter w (hfd hw)

include ht hall hother hdead in
theorem HandleInv.unregister (h : s.HandleInv) (hnodup : s.allTasks.Nodup)
    (hguard : ∀ x, (s.task t).handle = some x → x ∈ s.handles → (s.handle x).completed = true ∧
      (s.waitq (.joiners x)).items = [] ∧ (s.handle x).released = false)
    (hwaitq : s'.waitq = s.waitq) (hhandles : s'.handles = s.handles)
    (hhandle : s'.handle = s.handle) (hmade : s'.made = s.made)
    (hfrees : ∀ x, s'.frees (.handle x) = s.frees (.handle x)) (hstale : s'.stale = s.stale) :
    s'.HandleInv := by
  have hmem := mem_unregister hall hnodup
  constructor
  · rw [hhandles]
    exact h.nodup
  · rw [hhandles]
    intro x hx
    rw [Live, hmade, hfrees]
    exact h.live x hx
  · rw [hhandles, hhandle]
    intro u hu
    obtain ⟨hut, hu⟩ := (hmem u).mp hu
    rw [hother u hut]
    exact h.linked u hu
  · rw [hhandles, hhandle]
    intro x hx u hu
    obtain ⟨hu1, hu2⟩ := h.back x hx u hu
    have hut : u ≠ t := by
      rintro rfl
      rw [(h.completed x hx).mp (hguard x hu2 hx).1] at hu
      cases hu
    rw [hmem, hother u hut]
    exact ⟨⟨hut, hu1⟩, hu2⟩
  · rw [hhandles, hhandle]
    exact h.completed
  · rw [hhandles, hhandle, hwaitq]
    intro x hx hc hnd
    by_cases htx : (s.task t).handle = some x
    · exact (hguard x htx hx).2
    · refine h.settled x hx hc ?_
      rintro ⟨u, hu, hs, hux⟩
      have hut : u ≠ t := by
        rintro rfl
        exact htx hux
      refine hnd ⟨u, (hmem u).mpr ⟨hut, hu⟩, ?_, ?_⟩
      · rw [hother u hut, hs]
      · rw [hother u hut, hux]
  · rw [hhandles]
    intro u hu
    obtain ⟨hut, hu⟩ := (hmem u).mp hu
    rw [hother u hut]
    exact h.joinRegistered u hu
  · rw [hmade, hhandles, hhandle]
    intro x
    rw [hfrees]
    exact h.gone x
  · rw [hstale]
    exact h.notStale

include hall hother in
theorem FdInv.unregister (h : s.FdInv) (hnodup : s.allTasks.Nodup)
    (hfd : (s.task t).fdWaiter = none)
    (hfdWaiters : s'.fdWaiters = s.fdWaiters) (hfdw : s'.fdw = s.fdw)
    (hcount : s'.fdWaitingCount = s.fdWaitingCount) : s'.FdInv := by
  have hmem := mem_unregister hall hnodup
  constructor
  · rw [hfdWaiters]
    exact h.nodup
  · rw [hfdWaiters, hfdw]
    intro w hw
    have hut : (s.fdw w).task ≠ t := by
      intro ho
      have := (h.owner w hw).2.1
      rw [ho, hfd] at this
      cases this
    rw [hmem, hother _ hut]
    obtain ⟨h1, h2⟩ := h.owner w hw
    exact ⟨⟨hut, h1⟩, h2⟩
  · rw [hfdWaiters, hfdw]
    intro u hu
    obtain ⟨hut, hu⟩ := (hmem u).mp hu
    rw [hother u hut]
    exact h.linked u hu
  · intro u hu
    obtain ⟨hut, hu⟩ := (hmem u).mp hu
    rw [hother u hut]
    exact h.waiting u hu
  · rw [hcount, hfdWaiters, hfdw]
    exact h.count

end Unregister

theorem Inv.reap (h : s.Inv) (ht : t ∈ s.allTasks) (hdead : (s.task t).state = .dead)
    (hguard : ∀ x, (s.task t).handle = some x → x ∈ s.handles → (s.handle x).completed = true ∧
      (s.waitq (.joiners x)).items = [] ∧ (s.handle x).released = false) : (s.reap t).Inv := by
  have hmade := (h.heap.task t ht).1
  unfold Rt.reap
  cases hfd : (s.task t).fdWaiter with
  | none =>
      have hother : ∀ u, u ≠ t → Function.update s.task t
          { s.task t with selectWaiters := [], selectWaiterCount := 0 } u = s.task u :=
        fun u hu => Function.update_of_ne hu _ _
      constructor
      · exact h.task.unregister ht rfl hother hdead rfl rfl rfl rfl
      · exact h.select.unregister ht rfl hother hdead h.task.nodup rfl rfl
      · exact h.fd.unregister rfl hother h.task.nodup hfd rfl rfl rfl
      · exact h.chan.unregister rfl hother h.task.nodup rfl rfl rfl (fun _ => by simp) rfl
      · exact h.heap.unregister rfl hother h.task.nodup rfl rfl
          (fun u hu => by simp [Function.update_of_ne, hu]) (freed_update hmade) (List.Subset.refl _)
      · exact h.handle.unregister ht rfl hother hdead h.task.nodup hguard rfl rfl rfl rfl
          (fun _ => by simp)
          rfl
  | some w =>
      have hw := (h.fd.linked t ht w hfd).1
      have hother : ∀ u, u ≠ t → Function.update s.task t { s.task t with
          selectWaiters := [], selectWaiterCount := 0, fdWaiter := none, fdInTimer := false } u =
          s.task u :=
        fun u hu => Function.update_of_ne hu _ _
      constructor
      · exact h.task.unregister ht rfl hother hdead rfl rfl rfl rfl
      · exact h.select.unregister ht rfl hother hdead h.task.nodup rfl rfl
      · -- first the waiter goes, then its owner
        let mid : Rt := { s with
          fdWaiters := s.fdWaiters.erase w
          fdw := Function.update s.fdw w { s.fdw w with state := .removed }
          task := Function.update s.task t { s.task t with
            selectWaiters := [], selectWaiterCount := 0, fdWaiter := none, fdInTimer := false } }
        have hmid : mid.FdInv := h.fd.forget ht hfd (by simp [hdead]) rfl rfl rfl rfl rfl rfl
          (by simp [hdead])
        refine FdInv.unregister (s := mid) (t := t) rfl ?_ hmid h.task.nodup ?_ rfl rfl rfl
        · exact fun u _ => rfl
        · simp [mid]
      · exact h.chan.unregister rfl hother h.task.nodup rfl rfl rfl (fun _ => by simp) rfl
      · refine h.heap.unregister rfl hother h.task.nodup rfl rfl
          (fun u hu => by simp [Function.update_of_ne, hu]) ?_ List.erase_subset
        intro o (ho : Function.update _ (.task t) _ o ≠ 0)
        by_cases hot : o = .task t
        · exact .inr (hot ▸ hmade)
        · rw [Function.update_of_ne hot] at ho
          exact freed_update (h.heap.fdWaiter w hw) o ho
      · exact h.handle.unregister ht rfl hother hdead h.task.nodup hguard rfl rfl rfl rfl
          (fun _ => by simp)
          rfl

end Rt

end Microthread
