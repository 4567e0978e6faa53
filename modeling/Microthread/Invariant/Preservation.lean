import Microthread.Invariant.Update

/-!
# The elementary changes keep the invariant

One lemma for each change, assembled in `Move.inv` and `Park.inv`.
-/

namespace Microthread

open Foundation

theorem Task.chanRef_of_slot {k : Task} {r : WaitqRef} (h : k.slot = some (.waitq r))
    (hr : r.chan? ≠ none) : k.state = .waitingChan ∧ k.chanRef = some r := by
  unfold Task.slot at h
  split at h <;> simp_all
  case h_6 hj =>
      obtain ⟨x, -, rfl⟩ := h
      exact hr rfl

theorem Task.joinWaitingOn_of_slot {k : Task} {x : HandleId}
    (h : k.slot = some (.waitq (.joiners x))) :
    k.state = .waitingJoin ∧ k.joinWaitingOn = some x := by
  unfold Task.slot at h
  split at h <;> simp_all
  case h_3 hc =>
      unfold Task.chanRef at h
      split at h <;> cases h

namespace Rt

variable {s : Rt} {t : TaskId}

theorem remove_perm {q : Queue TaskId} (h : t ∈ q.items) :
    q.items.Perm (t :: (q.remove t).2.items) := by
  rw [Queue.remove_of_mem h]
  exact List.perm_cons_erase h

theorem waitqExact_update (h : ∀ r, (s.waitq r).Exact) (r : WaitqRef) {q : Queue TaskId}
    (hq : q.Exact) (x : WaitqRef) : (Function.update s.waitq r q x).Exact := by
  by_cases hx : x = r
  · subst hx
    rwa [Function.update_self]
  · rw [Function.update_of_ne hx]
    exact h x

/-- What the queue of a channel says about a task in it. -/
theorem Inv.mem_waitq (h : s.Inv) {r : WaitqRef} (ht : t ∈ (s.waitq r).items) :
    t ∈ s.allTasks ∧ (s.task t).slot = some (.waitq r) :=
  (h.task.placed.mem (.waitq r) t).mp ht

theorem Inv.mem_selectq (h : s.Inv) {r : SelectqRef} {w : WaiterId} (hw : w ∈ (s.selectq r).items) :
    (s.selw w).task ∈ s.allTasks ∧ w ∈ (s.task (s.selw w).task).selectWaiters ∧
      (s.selw w).ref = r := by
  obtain ⟨⟨h1, h2⟩, h3⟩ := (h.select.placed.mem r w).mp hw
  exact ⟨h1, h2, Option.some.inj h3⟩

/-- A task parked on a channel is in the queue its record names. -/
theorem Inv.mem_chanRef (h : s.Inv) (ht : t ∈ s.allTasks) (hs : (s.task t).state = .waitingChan) :
    ∃ r, (s.task t).chanRef = some r ∧ t ∈ (s.waitq r).items := by
  obtain ⟨r, hr⟩ := Option.ne_none_iff_exists'.mp (h.task.chanRef t ht hs)
  exact ⟨r, hr, (h.task.placed.mem (.waitq r) t).mpr ⟨ht, by simp [Task.slot, hs, hr]⟩⟩

/-- A task parked on a handle is in its join queue. -/
theorem Inv.mem_joinRef (h : s.Inv) (ht : t ∈ s.allTasks) (hs : (s.task t).state = .waitingJoin) :
    ∃ x, (s.task t).joinWaitingOn = some x ∧ t ∈ (s.waitq (.joiners x)).items := by
  obtain ⟨x, hx⟩ := Option.ne_none_iff_exists'.mp (h.task.joinRef t ht hs)
  exact ⟨x, hx, (h.task.placed.mem (.waitq (.joiners x)) t).mpr ⟨ht, by simp [Task.slot, hs, hx]⟩⟩

/-- A listed waiter is in the queue its record names. -/
theorem SelectInv.mem_ref (h : s.SelectInv) (ht : t ∈ s.allTasks) {w : WaiterId}
    (hw : w ∈ (s.task t).selectWaiters) : w ∈ (s.selectq (s.selw w).ref).items := by
  have howner := (h.owner t ht w hw).1
  refine (h.placed.mem _ w).mpr ⟨⟨?_, ?_⟩, rfl⟩
  · rwa [howner]
  · rwa [howner]

/-- Unlinking a task from one wait queue changes no other list. -/
theorem slotItems_unlink {s' : Rt} {r : WaitqRef} (hw : s'.waitq = Function.update s.waitq r
    ((s.waitq r).remove t).2) (htm : s'.timers.items = s.timers.items) (x : Slot) (hx : x ≠ .runq)
    (hr : (.waitq r : Slot) ≠ x) : s'.slotItems x = s.slotItems x := by
  cases x with
  | runq => exact absurd rfl hx
  | timers => exact htm
  | waitq y =>
      have hy : y ≠ r := fun h => hr (by rw [h])
      simp only [slotItems_waitq, hw, Function.update_of_ne hy]

/-- An empty join queue stays empty when a task is unlinked. -/
theorem joiners_unlink {r : WaitqRef} {x : HandleId} (h : (s.waitq (.joiners x)).items = []) :
    (Function.update s.waitq r ((s.waitq r).remove t).2 (.joiners x)).items = [] := by
  by_cases hx : WaitqRef.joiners x = r
  · subst hx
    rw [Function.update_self, Queue.remove_of_not_mem (by simp [h]), h]
  · rw [Function.update_of_ne hx, h]

/-- A task leaves a wait queue for the run queue. -/
theorem Inv.wakeFromQueue {s' : Rt} {k' : Task} {r : WaitqRef} (h : s.Inv)
    (ht : t ∈ (s.waitq r).items) (hf : s.Frame s') (htask : s'.task = Function.update s.task t k')
    (hstate : (s.task t).state = .waitingChan ∨ (s.task t).state = .waitingJoin)
    (hwaitq : s'.waitq = Function.update s.waitq r ((s.waitq r).remove t).2)
    (htimers : s'.timers.items = s.timers.items) (hrunq : s'.runq = s.runq.push t)
    (hk : k'.state = .ready) (hws : k'.selectWaiters = (s.task t).selectWaiters)
    (hcount : k'.selectCountedWaiting = (s.task t).selectCountedWaiting)
    (hfd : k'.fdWaiter = (s.task t).fdWaiter) (hhandle : k'.handle = (s.task t).handle) :
    s'.Inv := by
  obtain ⟨hall, hslot⟩ := h.mem_waitq ht
  have hne : (s.task t).state ≠ .dead ∧ (s.task t).state ≠ .ready ∧
      (s.task t).state ≠ .waitingSelect ∧ (s.task t).state ≠ .waitingFd ∧
      (s.task t).state ≠ .running := by
    rcases hstate with hs | hs <;> simp [hs]
  obtain ⟨hdead, hready, hsel, hfds, hrun⟩ := hne
  have hidle := h.select.idle t hall hsel hrun
  constructor
  · refine h.task.wake hall hf.allTasks hf.liveCount htask hdead hready hk hrunq ?_ ?_ ?_
    · rw [hslot]
      rintro x ⟨rfl⟩
      simpa only [slotItems_waitq, hwaitq, Function.update_self] using remove_perm ht
    · rw [hslot]
      intro x hx hx'
      exact slotItems_unlink hwaitq htimers x hx fun hr => hx' (by rw [hr])
    · rw [hwaitq]
      exact waitqExact_update h.task.waitqExact r ((h.task.waitqExact r).remove t)
  · exact h.select.update hf htask ⟨hsel, by simp [hk], hws, hcount, fun _ => hidle⟩
  · exact h.fd.update hf htask ⟨hfds, by simp [hk], hfd⟩
  · exact h.chan.update hf htask (by simp [hws]) (by simp [hk])
  · exact h.heap.update hf htask (by simp [hws])
  · refine h.handle.update hf htask hdead (by simp [hk]) hhandle (by simp [hk]) ?_
    intro x _ hx
    rw [hwaitq]
    exact joiners_unlink hx

theorem Inv.wakeChan (h : s.Inv) {r : WaitqRef} (ht : t ∈ (s.waitq r).items) (hr : r.chan? ≠ none)
    (rc : Rc) : (s.wakeChan r t rc).Inv := by
  have hs := Task.chanRef_of_slot (h.mem_waitq ht).2 hr
  exact h.wakeFromQueue ht (by constructor <;> rfl) rfl (.inl hs.1) rfl rfl rfl rfl rfl rfl rfl rfl

theorem Inv.cancelChan (h : s.Inv) {r : WaitqRef} (ht : t ∈ (s.waitq r).items)
    (hr : r.chan? ≠ none) : (s.cancelChan r t).Inv := by
  have hs := Task.chanRef_of_slot (h.mem_waitq ht).2 hr
  exact h.wakeFromQueue ht (by constructor <;> rfl) rfl (.inl hs.1) rfl rfl rfl rfl rfl rfl rfl rfl

theorem Inv.wakeJoin (h : s.Inv) {x : HandleId} (ht : t ∈ (s.waitq (.joiners x)).items) (rc : Rc) :
    (s.wakeJoin x t rc).Inv := by
  have hs := Task.joinWaitingOn_of_slot (h.mem_waitq ht).2
  exact h.wakeFromQueue ht (by constructor <;> rfl) rfl (.inr hs.1) rfl rfl rfl rfl rfl rfl rfl rfl

theorem Inv.cancelJoin (h : s.Inv) {x : HandleId} (ht : t ∈ (s.waitq (.joiners x)).items) :
    (s.cancelJoin x t).Inv := by
  have hs := Task.joinWaitingOn_of_slot (h.mem_waitq ht).2
  exact h.wakeFromQueue ht (by constructor <;> rfl) rfl (.inr hs.1) rfl rfl rfl rfl rfl rfl rfl rfl

/-- A task leaves the timer heap and nothing else. -/
theorem slotItems_timers_only (s' : Rt) (hw : s'.waitq = s.waitq) (x : Slot) (hx : x ≠ .runq)
    (hx' : x ≠ .timers) : s'.slotItems x = s.slotItems x := by
  cases x with
  | runq => exact absurd rfl hx
  | timers => exact absurd rfl hx'
  | waitq r => simp only [slotItems_waitq, hw]

theorem Inv.wakeSleep (h : s.Inv) (ht : t ∈ s.allTasks) (hs : (s.task t).state = .sleeping)
    {items : List TaskId} (hp : s.Disarms t items) : (s.wakeSleep t items).Inv := by
  have hf : s.Frame (s.wakeSleep t items) := by constructor <;> rfl
  have hslot : (s.task t).slot = some .timers := by simp [Task.slot, hs]
  have hidle := h.select.idle t ht (by simp [hs]) (by simp [hs])
  constructor
  · refine h.task.wake ht rfl rfl rfl (by simp [hs]) (by simp [hs]) rfl rfl ?_ ?_ h.task.waitqExact
    · rw [hslot]
      rintro x ⟨rfl⟩
      exact hp.perm
    · rw [hslot]
      exact fun x hx hx' => slotItems_timers_only _ (by rfl) x hx fun h => hx' (by rw [h])
  · exact h.select.update hf rfl ⟨by simp [hs], by simp, rfl, rfl, fun _ => hidle⟩
  · exact h.fd.update hf rfl ⟨by simp [hs], by simp, rfl⟩
  · exact h.chan.update hf rfl (List.Subset.refl _) (by simp)
  · exact h.heap.update hf rfl (List.Subset.refl _)
  · exact h.handle.update hf rfl (by simp [hs]) (by simp) rfl (by simp) (fun _ _ => id)

/-! ## Select waiters -/

theorem dropWaiters_frees {ws : List WaiterId} {o : Obj} (ho : ∀ w, o ≠ .selectWaiter w) :
    (s.dropWaiters ws).frees o = s.frees o := by
  simp [dropWaiters, ho]

theorem dropWaiters_frees_made {ws : List WaiterId} {o : Obj}
    (hws : ∀ w ∈ ws, s.made (.selectWaiter w) = true) (h : (s.dropWaiters ws).frees o ≠ 0) :
    s.frees o ≠ 0 ∨ s.made o = true := by
  by_cases ho : ∃ w ∈ ws, o = .selectWaiter w
  · obtain ⟨w, hw, rfl⟩ := ho
    exact .inr (hws w hw)
  · refine .inl ?_
    have : (ws.countP fun w => o = .selectWaiter w) = 0 := by
      rw [List.countP_eq_zero]
      exact fun w hw => by simpa using fun h => ho ⟨w, hw, h⟩
    simpa [dropWaiters, this] using h

@[simp] theorem dropWaiters_selw_task (ws : List WaiterId) (w : WaiterId) :
    ((s.dropWaiters ws).selw w).task = (s.selw w).task := by
  simp only [dropWaiters]
  split <;> rfl

@[simp] theorem dropWaiters_selw_ch (ws : List WaiterId) (w : WaiterId) :
    ((s.dropWaiters ws).selw w).ch = (s.selw w).ch := by
  simp only [dropWaiters]
  split <;> rfl

@[simp] theorem dropWaiters_selw_ref (ws : List WaiterId) (w : WaiterId) :
    ((s.dropWaiters ws).selw w).ref = (s.selw w).ref := by
  simp only [dropWaiters]
  split <;> rfl

theorem dropWaiters_selw_of_not_mem {ws : List WaiterId} {w : WaiterId} (hw : w ∉ ws) :
    (s.dropWaiters ws).selw w = s.selw w := by
  simp [dropWaiters, hw]

theorem Inv.dropWaiters_fd (h : s.Inv) (ws : List WaiterId) : (s.dropWaiters ws).FdInv :=
  h.fd.congr rfl rfl rfl rfl rfl

theorem Inv.dropWaiters_chan (h : s.Inv) (ws : List WaiterId) : (s.dropWaiters ws).ChanInv :=
  h.chan.congr rfl rfl (fun w => by simp) rfl
    (fun _ => by rw [Live, Live, dropWaiters_frees (by simp)]; rfl) (fun _ => id)

theorem Inv.dropWaiters_heap (h : s.Inv) (ht : t ∈ s.allTasks) :
    (s.dropWaiters (s.task t).selectWaiters).HeapInv :=
  h.heap.congr rfl rfl (List.Subset.refl _) rfl rfl (fun _ => dropWaiters_frees (by simp))
    (fun _ => dropWaiters_frees_made (h.heap.selectWaiter t ht))

theorem Inv.dropWaiters_handle (h : s.Inv) (ws : List WaiterId) : (s.dropWaiters ws).HandleInv :=
  h.handle.congr rfl rfl (fun _ => rfl) rfl rfl (fun _ => rfl)
    (fun _ => dropWaiters_frees (by simp)) rfl

/-- Every waiter of one task is unlinked, and the task forgets them. -/
theorem SelectInv.drop {s' : Rt} {k' : Task} (h : s.SelectInv) (ht : t ∈ s.allTasks)
    (hall : s'.allTasks = s.allTasks) (htask : s'.task = Function.update s.task t k')
    (hselectq : s'.selectq = (s.dropWaiters (s.task t).selectWaiters).selectq)
    (hselw : s'.selw = (s.dropWaiters (s.task t).selectWaiters).selw)
    (hws : k'.selectWaiters = []) (hstate : k'.state ≠ .waitingSelect)
    (hcount : k'.selectCountedWaiting = false) : s'.SelectInv := by
  have hother : ∀ u, u ≠ t → s'.task u = s.task u := fun u hu => by
    rw [htask, Function.update_of_ne hu]
  have hself : s'.task t = k' := by rw [htask, Function.update_self]
  -- a waiter that another task lists is not among the waiters of `t`
  have hdisjoint : ∀ u ∈ s.allTasks, u ≠ t → ∀ w ∈ (s.task u).selectWaiters,
      w ∉ (s.task t).selectWaiters := by
    intro u hu hut w hw hmem
    exact hut ((h.owner u hu w hw).1.symm.trans (h.owner t ht w hmem).1)
  constructor
  · refine h.placed.filter (fun w => w ∉ (s.task t).selectWaiters) ?_ ?_ ?_
    · intro r
      rw [hselectq]
      rfl
    · intro w
      simp only [Listed, hall, hselw, dropWaiters_selw_task]
      by_cases hu : (s.selw w).task = t
      · rw [hu, hself, hws]
        constructor
        · rintro ⟨-, hw⟩
          cases hw
        · rintro ⟨⟨-, hw⟩, hn⟩
          exact absurd hw hn
      · rw [hother _ hu]
        constructor
        · rintro ⟨ho, hw⟩
          exact ⟨⟨ho, hw⟩, hdisjoint _ ho hu w hw⟩
        · exact fun h => h.1
    · intro w _ _
      rw [hselw, dropWaiters_selw_ref]
  · rw [hall, hselw]
    intro u hu w hw
    by_cases hut : u = t
    · rw [hut, hself, hws] at hw
      cases hw
    · rw [hother u hut] at hw
      rw [dropWaiters_selw_of_not_mem (hdisjoint u hu hut w hw)]
      exact h.owner u hu w hw
  · rw [hall]
    intro u hu
    by_cases hut : u = t
    · rw [hut, hself, hws]
      exact List.nodup_nil
    · rw [hother u hut]
      exact h.nodup u hu
  · rw [hall]
    intro u hu
    by_cases hut : u = t
    · rw [hut, hself, hws]
      exact fun _ _ => rfl
    · rw [hother u hut]
      exact h.idle u hu
  · rw [hall]
    intro u hu
    by_cases hut : u = t
    · rw [hut, hself, hcount]
      simp [hstate]
    · rw [hother u hut]
      exact h.counted u hu
  · rw [hselectq]
    exact fun r => Queue.exact_without _ _

theorem Inv.wakeSelect (h : s.Inv) (ht : t ∈ s.allTasks) (hs : (s.task t).state = .waitingSelect)
    {items : List TaskId} (hp : s.TimersAfter t items) (role : Role) (rc : Rc) (index : Nat) :
    (s.wakeSelect t items role rc index).Inv := by
  have hf : (s.dropWaiters (s.task t).selectWaiters).Frame (s.wakeSelect t items role rc index) := by
    constructor <;> rfl
  replace hp := hp.perm
  constructor
  · refine h.task.wake ht rfl rfl rfl (by simp [hs]) (by simp [hs]) rfl rfl ?_ ?_ h.task.waitqExact
    · intro x hx
      by_cases hin : (s.task t).selectInTimer = true
      · simp only [Task.slot, hs, hin, if_true, Option.some.injEq] at hx hp
        subst hx
        exact hp
      · simp [Task.slot, hs, hin] at hx
    · intro x hx hx'
      by_cases hin : (s.task t).selectInTimer = true
      · refine slotItems_timers_only _ (by rfl) x hx fun h => hx' ?_
        simp [Task.slot, hs, hin, h]
      · rw [if_neg hin] at hp
        subst hp
        cases x with
        | runq => exact absurd rfl hx
        | timers => rfl
        | waitq r => rfl
  · exact h.select.drop ht rfl rfl rfl rfl rfl (by simp) rfl
  · exact (h.dropWaiters_fd _).update hf rfl
      ⟨by simp [Rt.dropWaiters, hs], by simp, rfl⟩
  · exact (h.dropWaiters_chan _).update hf rfl (by simp) (by simp)
  · exact (h.dropWaiters_heap ht).update hf rfl (by simp)
  · exact (h.dropWaiters_handle _).update hf rfl (by simp [Rt.dropWaiters, hs]) (by simp) rfl
      (by simp) (fun _ _ => id)

theorem Inv.abandonSelect (h : s.Inv) (ht : t ∈ s.allTasks) (hs : (s.task t).state = .running) :
    (s.abandonSelect t).Inv := by
  have hf : (s.dropWaiters (s.task t).selectWaiters).Frame (s.abandonSelect t) := by
    constructor <;> rfl
  refine ⟨h.task.touch rfl rfl rfl hs hs rfl rfl rfl,
    h.select.drop ht rfl rfl rfl rfl rfl (by simp [hs]) ?_, ?_,
    (h.dropWaiters_chan _).update hf rfl (by simp) ?_, (h.dropWaiters_heap ht).update hf rfl (by simp),
    (h.dropWaiters_handle _).update hf rfl (by simp [Rt.dropWaiters, hs]) (by simp [hs]) rfl ?_
      (fun _ _ => id)⟩
  · have := h.select.counted t ht
    simpa [hs] using this
  · exact (h.dropWaiters_fd _).update hf rfl
      ⟨by simp [Rt.dropWaiters, hs], by simp [hs], rfl⟩
  · simp [hs]
  · simp [hs]

/-! ## Descriptor waiters -/

/-- Freeing an object that has been made. -/
theorem freed_update {o : Obj} {n : Nat} (ho : s.made o = true) (x : Obj)
    (hx : Function.update s.frees o n x ≠ 0) : s.frees x ≠ 0 ∨ s.made x = true := by
  by_cases hxo : x = o
  · exact .inr (hxo ▸ ho)
  · rw [Function.update_of_ne hxo] at hx
    exact .inl hx

/-- Distinct waiters belong to distinct tasks. -/
theorem FdInv.owner_injective (h : s.FdInv) {v w : FdWaiterId} (hv : v ∈ s.fdWaiters)
    (hw : w ∈ s.fdWaiters) (ho : (s.fdw v).task = (s.fdw w).task) : v = w := by
  have hv' := (h.owner v hv).2.1
  have hw' := (h.owner w hw).2.1
  rw [ho, hw'] at hv'
  exact (Option.some.inj hv').symm

theorem FdInv.wake {w : FdWaiterId} (h : s.FdInv) (hw : w ∈ s.fdWaiters)
    (ha : (s.fdw w).state = .active) (items : List TaskId) (rc : Rc) (ready : Nat) :
    (s.wakeFd w items rc ready).FdInv := by
  obtain ⟨hall, hfd, -, hstate⟩ := h.owner w hw
  constructor
  · exact h.nodup
  · intro v hv
    by_cases hvw : v = w
    · subst hvw
      simp [Rt.wakeFd, hall, hfd]
    · have hne : (s.fdw v).task ≠ (s.fdw w).task := fun ho => hvw (h.owner_injective hv hw ho)
      simp only [Rt.wakeFd, Function.update_of_ne hvw, Function.update_of_ne hne]
      exact h.owner v hv
  · intro u hu v hv
    by_cases hut : u = (s.fdw w).task
    · subst hut
      simp only [Rt.wakeFd, Function.update_self, hfd, Option.some.injEq] at hv
      subst hv
      simp [Rt.wakeFd, hw]
    · simp only [Rt.wakeFd, Function.update_of_ne hut] at hv
      obtain ⟨hv1, hv2⟩ := h.linked u hu v hv
      have hvw : v ≠ w := by
        rintro rfl
        exact hut hv2.symm
      simp only [Rt.wakeFd, Function.update_of_ne hvw]
      exact ⟨hv1, hv2⟩
  · intro u hu hs
    have hut : u ≠ (s.fdw w).task := by
      rintro rfl
      simp [Rt.wakeFd] at hs
    simp only [Rt.wakeFd, Function.update_of_ne hut] at hs ⊢
    exact h.waiting u hu hs
  · have hleave := countP_update_leave (f := s.fdw) (p := fun x => decide (x.state = .active))
      (v := { s.fdw w with state := .readyReserved }) h.nodup hw (by simp [ha]) (by simp)
    exact Nat.sub_eq_of_eq_add (h.count.trans hleave.symm)

theorem Inv.wakeFd {w : FdWaiterId} (h : s.Inv) (hw : w ∈ s.fdWaiters)
    (ha : (s.fdw w).state = .active) {items : List TaskId}
    (hp : s.Disarms (s.fdw w).task items) (rc : Rc) (ready : Nat) :
    (s.wakeFd w items rc ready).Inv := by
  obtain ⟨hall, hfd, -, hstate⟩ := h.fd.owner w hw
  have hs := hstate.mp ha
  have hslot : (s.task (s.fdw w).task).slot = some .timers := by
    simp [Task.slot, hs, (h.fd.waiting _ hall hs).1]
  have hidle := h.select.idle _ hall (by simp [hs]) (by simp [hs])
  -- the change of the waiter alone touches nothing the other parts read
  let mid : Rt := { s with
    fdw := (s.wakeFd w items rc ready).fdw
    fdWaitingCount := (s.wakeFd w items rc ready).fdWaitingCount }
  have hf : mid.Frame (s.wakeFd w items rc ready) := by constructor <;> rfl
  constructor
  · refine h.task.wake hall rfl rfl rfl (by simp [hs]) (by simp [hs]) rfl rfl ?_ ?_
      h.task.waitqExact
    · rw [hslot]
      rintro x ⟨rfl⟩
      exact hp.perm
    · rw [hslot]
      exact fun x hx hx' => slotItems_timers_only _ (by rfl) x hx fun h => hx' (by rw [h])
  · have hmid : mid.SelectInv := h.select.congr rfl rfl rfl rfl
    exact hmid.update hf rfl ⟨by simp [mid, hs], by simp, rfl, rfl, fun _ => hidle⟩
  · exact h.fd.wake hw ha items rc ready
  · have hmid : mid.ChanInv := h.chan.congr rfl rfl (fun _ => rfl) rfl (fun _ => Iff.rfl)
      (fun _ => id)
    exact hmid.update hf rfl (List.Subset.refl _) (by simp)
  · have hmid : mid.HeapInv := h.heap.congr rfl rfl (List.Subset.refl _) rfl rfl (fun _ => rfl)
      (fun _ => .inl)
    exact hmid.update hf rfl (List.Subset.refl _)
  · have hmid : mid.HandleInv := h.handle.congr rfl rfl (fun _ => rfl) rfl rfl (fun _ => rfl)
      (fun _ => rfl) rfl
    exact hmid.update hf rfl (by simp [mid, hs]) (by simp) rfl (by simp) (fun _ _ => id)

/-- A waiter that is no longer active goes, and its owner forgets it. -/
theorem FdInv.forget {s' : Rt} {k' : Task} {w : FdWaiterId} (h : s.FdInv) (ht : t ∈ s.allTasks)
    (hfd : (s.task t).fdWaiter = some w) (hs : (s.task t).state ≠ .waitingFd)
    (hall : s'.allTasks = s.allTasks) (htask : s'.task = Function.update s.task t k')
    (hfdWaiters : s'.fdWaiters = s.fdWaiters.erase w) (hcount : s'.fdWaitingCount = s.fdWaitingCount)
    (hfdw : s'.fdw = Function.update s.fdw w { s.fdw w with state := .removed })
    (hk : k'.fdWaiter = none) (hstate : k'.state ≠ .waitingFd) : s'.FdInv := by
  obtain ⟨hw, hwt⟩ := h.linked t ht w hfd
  have hinactive : (s.fdw w).state ≠ .active := by
    intro ha
    rw [(h.owner w hw).2.2.2, hwt] at ha
    exact hs ha
  have hne : ∀ v ∈ s.fdWaiters, v ≠ w → (s.fdw v).task ≠ t := by
    intro v hv hvw ho
    exact hvw (h.owner_injective hv hw (ho.trans hwt.symm))
  constructor
  · rw [hfdWaiters]
    exact h.nodup.erase w
  · rw [hfdWaiters, hall, htask, hfdw]
    intro v hv
    obtain ⟨hvw, hv⟩ := h.nodup.mem_erase_iff.mp hv
    rw [Function.update_of_ne hvw, Function.update_of_ne (hne v hv hvw)]
    exact h.owner v hv
  · rw [hfdWaiters, hall, htask, hfdw]
    intro u hu v hv
    by_cases hut : u = t
    · rw [hut, Function.update_self, hk] at hv
      cases hv
    · rw [Function.update_of_ne hut] at hv
      obtain ⟨hv1, hv2⟩ := h.linked u hu v hv
      have hvw : v ≠ w := by
        rintro rfl
        exact hut (hv2.symm.trans hwt)
      rw [Function.update_of_ne hvw]
      exact ⟨h.nodup.mem_erase_iff.mpr ⟨hvw, hv1⟩, hv2⟩
  · rw [hall, htask]
    intro u hu hsu
    by_cases hut : u = t
    · rw [hut, Function.update_self] at hsu
      exact absurd hsu hstate
    · rw [Function.update_of_ne hut] at hsu ⊢
      exact h.waiting u hu hsu
  · rw [hcount, hfdWaiters, hfdw, h.count]
    have hperm := List.perm_cons_erase hw
    rw [hperm.countP_eq, List.countP_cons_of_neg (by simpa using hinactive)]
    exact (countP_update_of_not_mem (f := s.fdw) (p := fun x => decide (x.state = .active))
      h.nodup.not_mem_erase).symm

theorem Inv.finishFd {w : FdWaiterId} (h : s.Inv) (ht : t ∈ s.allTasks)
    (hs : (s.task t).state = .running) (hfd : (s.task t).fdWaiter = some w) :
    (s.finishFd t w).Inv := by
  have hw := (h.fd.linked t ht w hfd).1
  let mid : Rt := { s with
    fdWaiters := (s.finishFd t w).fdWaiters, fdw := (s.finishFd t w).fdw
    frees := (s.finishFd t w).frees }
  have hf : mid.Frame (s.finishFd t w) := by constructor <;> rfl
  constructor
  · exact h.task.touch rfl rfl rfl hs hs rfl rfl rfl
  · have hmid : mid.SelectInv := h.select.congr rfl rfl rfl rfl
    exact hmid.update hf rfl ⟨by simp [mid, hs], by simp [hs], rfl, rfl, by simp [hs]⟩
  · exact h.fd.forget ht hfd (by simp [hs]) rfl rfl rfl rfl rfl rfl (by simp [hs])
  · have hmid : mid.ChanInv := h.chan.congr rfl rfl (fun _ => rfl) rfl
      (fun _ => by simp [Live, mid, Rt.finishFd]) (fun _ => id)
    exact hmid.update hf rfl (List.Subset.refl _) (by simp [hs])
  · have hmid : mid.HeapInv := by
      refine h.heap.congr rfl rfl List.erase_subset rfl rfl (fun _ => by simp [mid, Rt.finishFd]) ?_
      exact freed_update (h.heap.fdWaiter w hw)
    exact hmid.update hf rfl (List.Subset.refl _)
  · have hmid : mid.HandleInv := h.handle.congr rfl rfl (fun _ => rfl) rfl rfl (fun _ => rfl)
      (fun _ => by simp [mid, Rt.finishFd]) rfl
    exact hmid.update hf rfl (by simp [mid, hs]) (by simp [hs]) rfl (by simp [hs]) (fun _ _ => id)

end Rt

end Microthread
