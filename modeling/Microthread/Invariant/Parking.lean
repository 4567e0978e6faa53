import Microthread.Invariant.Creation

/-!
# Leaving and entering the processor keeps the invariant

`Move.inv` and `Park.inv` collect the lemmas about all elementary changes.
-/

namespace Microthread

open Foundation

namespace Rt

variable {s s' : Rt} {t : TaskId} {k' : Task}

theorem slot_of_running {k : Task} (h : k.state = .running) : k.slot = none := by
  simp [Task.slot, h]

/-- A running task enters the structure its new record names, if it names one. -/
theorem TaskInv.park (h : s.TaskInv) (ht : t ∈ s.allTasks) (hrun : (s.task t).state = .running)
    (hall : s'.allTasks = s.allTasks) (hlive : s'.liveCount = s.liveCount)
    (htask : s'.task = Function.update s.task t k') (hdead : k'.state ≠ .dead) {x : Slot}
    (hslot : k'.slot = some x) (hin : (s'.slotItems x).Perm (t :: s.slotItems x))
    (hsame : ∀ y, y ≠ x → s'.slotItems y = s.slotItems y)
    (hchan : k'.state = .waitingChan → k'.chanRef ≠ none)
    (hjoin : k'.state = .waitingJoin → k'.joinWaitingOn ≠ none)
    (hrunq : s'.runq.Exact) (hwaitq : ∀ r, (s'.waitq r).Exact) : s'.TaskInv := by
  have hnone := slot_of_running hrun
  refine h.update ht hall htask hlive (by simp [hrun]) hdead ?_ ?_ ?_ ?_ hchan hjoin hrunq hwaitq
  · simp [hslot, hnone]
  · rw [hslot]
    rintro y ⟨rfl⟩
    exact hin
  · simp [hnone]
  · rw [hslot]
    exact fun y _ hy => hsame y fun h => hy (by rw [h])

/-- Pushing on one wait queue changes no other list. -/
theorem slotItems_link (s' : Rt) {r : WaitqRef} {q : Queue TaskId}
    (hw : s'.waitq = Function.update s.waitq r q) (hrunq : s'.runq = s.runq)
    (htm : s'.timers.items = s.timers.items) (x : Slot) (hx : x ≠ .waitq r) :
    s'.slotItems x = s.slotItems x := by
  cases x with
  | runq => simp only [slotItems_runq, hrunq]
  | timers => exact htm
  | waitq y =>
      have hy : y ≠ r := fun h => hx (by rw [h])
      simp only [slotItems_waitq, hw, Function.update_of_ne hy]

theorem Inv.parkChan (h : s.Inv) (ht : t ∈ s.allTasks) (hrun : (s.task t).state = .running)
    (hws : (s.task t).selectWaiters = []) {ch : ChanId} {kind : ChanWaitKind} (hkind : kind ≠ .none)
    (hch : ch ∈ s.channels) (value : Addr) : (s.parkChan t ch kind value).Inv := by
  have hf : s.Frame (s.parkChan t ch kind value) := by constructor <;> rfl
  have href : ∀ k : Task, k.chanWaitKind = kind → k.chanWaitCh = some ch →
      k.chanRef = some (chanQueue kind ch) := by
    intro k hk hkc
    cases kind with
    | none => exact absurd rfl hkind
    | send => simp [Task.chanRef, hk, hkc, chanQueue]
    | recv => simp [Task.chanRef, hk, hkc, chanQueue]
  constructor
  · refine h.task.park ht hrun rfl rfl rfl (by simp) (x := .waitq (chanQueue kind ch)) ?_ ?_ ?_ ?_
      (by simp) h.task.runqExact ?_
    · rw [Task.slot, href _ rfl rfl]
      rfl
    · simp [Rt.parkChan]
    · exact fun y hy => slotItems_link _ (by rfl) (by rfl) (by rfl) y hy
    · rw [href _ rfl rfl]
      simp
    · exact waitqExact_update h.task.waitqExact _ ((h.task.waitqExact _).push t)
  · exact h.select.update hf rfl ⟨by simp [hrun], by simp, rfl, rfl, fun _ => hws⟩
  · exact h.fd.update hf rfl ⟨by simp [hrun], by simp, rfl⟩
  · exact h.chan.update hf rfl (List.Subset.refl _) (by simpa using hch)
  · exact h.heap.update hf rfl (List.Subset.refl _)
  · refine h.handle.update hf rfl (by simp [hrun]) (by simp) rfl (by simp) ?_
    intro x _ hx
    have hne : WaitqRef.joiners x ≠ chanQueue kind ch := by
      unfold chanQueue
      split <;> simp
    simpa [Rt.parkChan, Function.update_of_ne hne] using hx

theorem Inv.parkJoin (h : s.Inv) (ht : t ∈ s.allTasks) (hrun : (s.task t).state = .running)
    (hws : (s.task t).selectWaiters = []) {x : HandleId} (hx : x ∈ s.handles)
    (hc : (s.handle x).completed = false) : (s.parkJoin t x).Inv := by
  have hf : s.Frame (s.parkJoin t x) := by constructor <;> rfl
  constructor
  · refine h.task.park ht hrun rfl rfl rfl (by simp) (x := .waitq (.joiners x)) rfl ?_ ?_ (by simp)
      (by simp) h.task.runqExact ?_
    · simp [Rt.parkJoin]
    · exact fun y hy => slotItems_link _ (by rfl) (by rfl) (by rfl) y hy
    · exact waitqExact_update h.task.waitqExact _ ((h.task.waitqExact _).push t)
  · exact h.select.update hf rfl ⟨by simp [hrun], by simp, rfl, rfl, fun _ => hws⟩
  · exact h.fd.update hf rfl ⟨by simp [hrun], by simp, rfl⟩
  · exact h.chan.update hf rfl (List.Subset.refl _) (by simp)
  · exact h.heap.update hf rfl (List.Subset.refl _)
  · refine h.handle.update hf rfl (by simp [hrun]) (by simp) rfl (by simpa using hx) ?_
    intro y hcy hy
    have hne : WaitqRef.joiners y ≠ .joiners x := by
      rintro ⟨rfl⟩
      rw [hc] at hcy
      cases hcy
    simpa [Rt.parkJoin, Function.update_of_ne hne] using hy

theorem Inv.parkSleep (h : s.Inv) (ht : t ∈ s.allTasks) (hrun : (s.task t).state = .running)
    (hws : (s.task t).selectWaiters = []) {timers : Timers}
    {wakeNs : Nat} (hp : s.Arms t timers wakeNs) :
    (s.parkSleep t timers wakeNs).Inv := by
  have hf : s.Frame (s.parkSleep t timers wakeNs) := by constructor <;> rfl
  constructor
  · refine h.task.park ht hrun rfl rfl rfl (by simp) (x := .timers) rfl hp.perm ?_ (by simp) (by simp)
      h.task.runqExact h.task.waitqExact
    rintro (_ | _ | r) hy
    · rfl
    · exact absurd rfl hy
    · rfl
  · exact h.select.update hf rfl ⟨by simp [hrun], by simp, rfl, rfl, fun _ => hws⟩
  · exact h.fd.update hf rfl ⟨by simp [hrun], by simp, rfl⟩
  · exact h.chan.update hf rfl (List.Subset.refl _) (by simp)
  · exact h.heap.update hf rfl (List.Subset.refl _)
  · exact h.handle.update hf rfl (by simp [hrun]) (by simp) rfl (by simp) (fun _ _ => id)

theorem Inv.parkYield (h : s.Inv) (ht : t ∈ s.allTasks) (hrun : (s.task t).state = .running)
    (hws : (s.task t).selectWaiters = []) : (s.parkYield t).Inv := by
  have hf : s.Frame (s.parkYield t) := by constructor <;> rfl
  constructor
  · refine h.task.park ht hrun rfl rfl rfl (by simp) (x := .runq) rfl ?_ ?_ (by simp) (by simp)
      (h.task.runqExact.push t) h.task.waitqExact
    · simp [Rt.parkYield]
    · rintro (_ | _ | r) hy
      · exact absurd rfl hy
      · rfl
      · rfl
  · exact h.select.update hf rfl ⟨by simp [hrun], by simp, rfl, rfl, fun _ => hws⟩
  · exact h.fd.update hf rfl ⟨by simp [hrun], by simp, rfl⟩
  · exact h.chan.update hf rfl (List.Subset.refl _) (by simp)
  · exact h.heap.update hf rfl (List.Subset.refl _)
  · exact h.handle.update hf rfl (by simp [hrun]) (by simp) rfl (by simp) (fun _ _ => id)

/-- A running task with its waiters registered becomes parked on them. -/
theorem SelectInv.park (h : s.SelectInv) (hf : s.Frame s')
    (htask : s'.task = Function.update s.task t k') (hk : k'.state = .waitingSelect)
    (hws : k'.selectWaiters = (s.task t).selectWaiters) (hcount : k'.selectCountedWaiting = true) :
    s'.SelectInv := by
  have hsw : ∀ u, (s'.task u).selectWaiters = (s.task u).selectWaiters := by
    intro u
    by_cases hu : u = t
    · rw [htask, hu, Function.update_self, hws]
    · rw [htask, Function.update_of_ne hu]
  have hlisted : ∀ w, s'.Listed w ↔ s.Listed w := by
    intro w
    simp only [Listed, hf.allTasks, hf.selw, hsw]
  constructor
  · exact h.placed.congr (fun r => by rw [hf.selectq]) hlisted (fun w _ => by rw [hf.selw])
  · rw [hf.allTasks, hf.selw]
    intro u hu w hw
    rw [hsw] at hw
    exact h.owner u hu w hw
  · rw [hf.allTasks]
    intro u hu
    rw [hsw]
    exact h.nodup u hu
  · rw [hf.allTasks]
    intro u hu
    by_cases hut : u = t
    · rw [htask, hut, Function.update_self]
      exact fun hne => absurd hk hne
    · rw [htask, Function.update_of_ne hut]
      exact h.idle u hu
  · rw [hf.allTasks]
    intro u hu
    by_cases hut : u = t
    · rw [htask, hut, Function.update_self]
      exact iff_of_true hcount hk
    · rw [htask, Function.update_of_ne hut]
      exact h.counted u hu
  · rw [hf.selectq]
    exact h.exact

theorem Inv.parkSelect (h : s.Inv) (hrun : (s.task t).state = .running)
    (htimer : (s.task t).selectInTimer = false) : (s.parkSelect t).Inv := by
  have hf : s.Frame (s.parkSelect t) := by constructor <;> rfl
  have hslot : ∀ u, ((s.parkSelect t).task u).slot = (s.task u).slot := by
    intro u
    by_cases hut : u = t
    · subst hut
      simp [Rt.parkSelect, Task.slot, htimer, hrun]
    · simp [Rt.parkSelect, Function.update_of_ne hut]
  constructor
  · constructor
    · exact h.task.nodup
    · exact h.task.placed.congr (fun x => by cases x <;> rfl) (fun _ => Iff.rfl) (fun u _ => hslot u)
    · intro u hu hs
      have hut : u ≠ t := by
        rintro rfl
        simp [Rt.parkSelect] at hs
      simp only [Rt.parkSelect, Function.update_of_ne hut] at hs ⊢
      exact h.task.chanRef u hu hs
    · intro u hu hs
      have hut : u ≠ t := by
        rintro rfl
        simp [Rt.parkSelect] at hs
      simp only [Rt.parkSelect, Function.update_of_ne hut] at hs ⊢
      exact h.task.joinRef u hu hs
    · refine h.task.live.trans ?_
      exact (countP_update_same (f := s.task) (p := fun k => decide (k.state ≠ .dead))
        (by simp [hrun])).symm
    · exact h.task.runqExact
    · exact h.task.waitqExact
  · exact h.select.park hf rfl rfl rfl rfl
  · exact h.fd.update hf rfl ⟨by simp [hrun], by simp, rfl⟩
  · exact h.chan.update hf rfl (List.Subset.refl _) (by simp)
  · exact h.heap.update hf rfl (List.Subset.refl _)
  · exact h.handle.update hf rfl (by simp [hrun]) (by simp) rfl (by simp) (fun _ _ => id)

theorem Inv.parkSelectTimed (h : s.Inv) (ht : t ∈ s.allTasks) (hrun : (s.task t).state = .running)
    {timers : Timers} {wakeNs : Nat} (hp : s.Arms t timers wakeNs) (index : Nat) :
    (s.parkSelectTimed t timers wakeNs index).Inv := by
  have hf : s.Frame (s.parkSelectTimed t timers wakeNs index) := by constructor <;> rfl
  constructor
  · refine h.task.park ht hrun rfl rfl rfl (by simp) (x := .timers) rfl hp.perm ?_ (by simp) (by simp)
      h.task.runqExact h.task.waitqExact
    rintro (_ | _ | r) hy
    · rfl
    · exact absurd rfl hy
    · rfl
  · exact h.select.park hf rfl rfl rfl rfl
  · exact h.fd.update hf rfl ⟨by simp [hrun], by simp, rfl⟩
  · exact h.chan.update hf rfl (List.Subset.refl _) (by simp)
  · exact h.heap.update hf rfl (List.Subset.refl _)
  · exact h.handle.update hf rfl (by simp [hrun]) (by simp) rfl (by simp) (fun _ _ => id)

theorem Inv.parkFd (h : s.Inv) (ht : t ∈ s.allTasks) (hrun : (s.task t).state = .running)
    (hws : (s.task t).selectWaiters = []) (hfd : (s.task t).fdWaiter = none) {timers : Timers}
    {wakeNs : Nat} (hp : s.Arms t timers wakeNs) (x : FdWaiter) :
    (s.parkFd t timers wakeNs x).Inv := by
  set s' := s.parkFd t timers wakeNs x with hs'
  let mid : Rt := { s with
    nextAddr := s'.nextAddr, made := s'.made, fdw := s'.fdw, fdWaiters := s'.fdWaiters
    fdWaitingCount := s'.fdWaitingCount }
  have hf : mid.Frame s' := by constructor <;> rfl
  have hfresh : s.nextAddr ∉ s.fdWaiters := by
    intro hmem
    have := h.heap.fresh _ (h.heap.fdWaiter _ hmem)
    simp [Obj.addr] at this
  have hfdw : ∀ w ∈ s.fdWaiters, s'.fdw w = s.fdw w := by
    intro w hw
    simp [hs', Rt.parkFd, Function.update_of_ne (ne_of_mem_of_not_mem hw hfresh)]
  have hnew : s'.fdw s.nextAddr = { x with task := t, state := .active } := by
    simp [hs', Rt.parkFd]
  have hother : ∀ u, u ≠ t → s'.task u = s.task u := by
    intro u hu
    simp [hs', Rt.parkFd, Function.update_of_ne hu]
  have hself : (s'.task t).fdWaiter = some s.nextAddr ∧ (s'.task t).state = .waitingFd ∧
      (s'.task t).fdInTimer = true := by simp [hs', Rt.parkFd]
  have hne : ∀ w ∈ s.fdWaiters, (s.fdw w).task ≠ t := by
    intro w hw ho
    have := (h.fd.owner w hw).2.1
    rw [ho, hfd] at this
    cases this
  constructor
  · refine h.task.park ht hrun rfl rfl rfl (by simp) (x := .timers) rfl hp.perm ?_ (by simp) (by simp)
      h.task.runqExact h.task.waitqExact
    rintro (_ | _ | r) hy
    · rfl
    · exact absurd rfl hy
    · rfl
  · have hmid : mid.SelectInv := h.select.congr rfl rfl rfl rfl
    exact hmid.update hf rfl ⟨by simp [mid, hrun], by simp, rfl, rfl, fun _ => hws⟩
  · constructor
    · exact List.nodup_cons.mpr ⟨hfresh, h.fd.nodup⟩
    · intro w hw
      rcases List.mem_cons.mp hw with rfl | hw
      · rw [hnew]
        exact ⟨ht, hself.1, by simp, iff_of_true rfl hself.2.1⟩
      · rw [hfdw w hw, hother _ (hne w hw)]
        exact h.fd.owner w hw
    · intro u hu w hw
      by_cases hut : u = t
      · subst hut
        rw [hself.1] at hw
        cases hw
        exact ⟨List.mem_cons_self, by rw [hnew]⟩
      · rw [hother u hut] at hw
        obtain ⟨h1, h2⟩ := h.fd.linked u hu w hw
        rw [hfdw w h1]
        exact ⟨List.mem_cons_of_mem _ h1, h2⟩
    · intro u hu hsu
      by_cases hut : u = t
      · subst hut
        rw [hself.1]
        exact ⟨hself.2.2, by simp⟩
      · rw [hother u hut] at hsu ⊢
        exact h.fd.waiting u hu hsu
    · change s.fdWaitingCount + 1 = (s.nextAddr :: s.fdWaiters).countP _
      rw [List.countP_cons_of_pos (by simp [hnew]), h.fd.count]
      congr 1
      exact List.countP_congr fun w hw => by rw [hfdw w hw]
  · have hmid : mid.ChanInv := h.chan.congr rfl rfl (fun _ => rfl) rfl
      (fun _ => by simp [Live, mid, hs', Rt.parkFd]) (fun _ => id)
    exact hmid.update hf rfl (List.Subset.refl _) (by simp)
  · refine h.heap.grow (Nat.le_succ _) ?_ ?_ (fun _ _ => rfl) (fun _ => .inl) (fun _ => .inl) ?_ ?_
    · intro o ho
      by_cases hx : o = .fdWaiter s.nextAddr
      · simp [hs', Rt.parkFd, hx]
      · simpa [hs', Rt.parkFd, Function.update_of_ne hx] using ho
    · intro o ho
      by_cases hx : o = .fdWaiter s.nextAddr
      · exact .inr (by simp [hs', Rt.parkFd, hx, Obj.addr])
      · exact .inl (by simpa [hs', Rt.parkFd, Function.update_of_ne hx] using ho)
    · intro u hu w hw
      refine .inl ⟨hu, ?_⟩
      by_cases hut : u = t
      · subst hut
        simpa [hs', Rt.parkFd] using hw
      · rwa [hother u hut] at hw
    · intro w hw
      rcases List.mem_cons.mp hw with rfl | hw
      · exact .inr (by simp [hs', Rt.parkFd])
      · exact .inl hw
  · have hmid : mid.HandleInv := h.handle.congr rfl rfl (fun _ => rfl) rfl rfl
      (fun _ => by simp [mid, hs', Rt.parkFd]) (fun _ => rfl) rfl
    exact hmid.update hf rfl (by simp [mid, hrun]) (by simp) rfl (by simp) (fun _ _ => id)

theorem Inv.die (h : s.Inv) (ht : t ∈ s.allTasks) (hrun : (s.task t).state = .running)
    (hws : (s.task t).selectWaiters = []) : (s.die t).Inv := by
  let mid : Rt := { s with liveCount := (s.die t).liveCount }
  have hf : mid.Frame (s.die t) := by constructor <;> rfl
  constructor
  · refine h.task.kill ht rfl rfl (by simp [hrun]) rfl rfl ?_ h.task.runqExact rfl
    refine h.task.placed.congr (fun x => by cases x <;> rfl) (fun _ => Iff.rfl) fun u _ => ?_
    by_cases hut : u = t
    · subst hut
      simp [Rt.die, Task.slot, hrun]
    · simp [Rt.die, Function.update_of_ne hut]
  · have hmid : mid.SelectInv := h.select.congr rfl rfl rfl rfl
    exact hmid.update hf rfl ⟨by simp [mid, hrun], by simp, rfl, rfl, fun _ => hws⟩
  · have hmid : mid.FdInv := h.fd.congr rfl rfl rfl rfl rfl
    exact hmid.update hf rfl ⟨by simp [mid, hrun], by simp, rfl⟩
  · have hmid : mid.ChanInv := h.chan.congr rfl rfl (fun _ => rfl) rfl (fun _ => Iff.rfl)
      (fun _ => id)
    exact hmid.update hf rfl (List.Subset.refl _) (by simp)
  · have hmid : mid.HeapInv := h.heap.congr rfl rfl (List.Subset.refl _) rfl rfl (fun _ => rfl)
      (fun _ => .inl)
    exact hmid.update hf rfl (List.Subset.refl _)
  · exact h.handle.kill rfl rfl rfl rfl rfl rfl rfl rfl rfl rfl

theorem Inv.dispatch (h : s.Inv) {q : Queue TaskId} (hq : s.runq.pop = some (t, q)) :
    (s.dispatch t q).Inv := by
  have hitems := (Queue.pop_eq_some.mp hq).1
  have hmem : t ∈ s.runq.items := by simp [hitems]
  obtain ⟨ht, hslot⟩ := (h.task.placed.mem .runq t).mp hmem
  have hs : (s.task t).state = .ready := by
    unfold Task.slot at hslot
    split at hslot <;> simp_all
  have hf : s.Frame (s.dispatch t q) := by constructor <;> rfl
  have hidle := h.select.idle t ht (by simp [hs]) (by simp [hs])
  constructor
  · refine h.task.update ht rfl rfl rfl (by simp [hs]) (by simp) ?_ ?_ ?_ ?_ (by simp) (by simp)
      (h.task.runqExact.pop hq).1 h.task.waitqExact
    · rw [hslot, slot_of_running rfl]
      simp
    · simp [Task.slot]
    · rw [hslot]
      rintro x ⟨rfl⟩
      simp [Rt.dispatch, hitems]
    · rw [hslot]
      intro x hx _
      cases x with
      | runq => exact absurd rfl hx
      | timers => rfl
      | waitq r => rfl
  · exact h.select.update hf rfl ⟨by simp [hs], by simp, rfl, rfl, by simp⟩
  · exact h.fd.update hf rfl ⟨by simp [hs], by simp, rfl⟩
  · exact h.chan.update hf rfl (List.Subset.refl _) (by simp)
  · exact h.heap.update hf rfl (List.Subset.refl _)
  · exact h.handle.update hf rfl (by simp [hs]) (by simp) rfl (by simp) (fun _ _ => id)

theorem Inv.leave (h : s.Inv) : s.leave.Inv :=
  h.congr (by constructor <;> rfl) rfl rfl rfl rfl

/-- The record of a running task changes in fields the invariant does not read. -/
theorem Inv.touch (h : s.Inv) (hrun : (s.task t).state = .running) {f : Task → Task}
    (hstate : (f (s.task t)).state = .running)
    (hws : (f (s.task t)).selectWaiters = (s.task t).selectWaiters)
    (hcount : (f (s.task t)).selectCountedWaiting = (s.task t).selectCountedWaiting)
    (hfd : (f (s.task t)).fdWaiter = (s.task t).fdWaiter)
    (hhandle : (f (s.task t)).handle = (s.task t).handle) : (s.modTask t f).Inv := by
  have hf : s.Frame (s.modTask t f) := by constructor <;> rfl
  constructor
  · exact h.task.touch rfl rfl rfl hrun hstate rfl rfl rfl
  · exact h.select.update hf rfl ⟨by simp [hrun], by simp [hstate], hws, hcount, by simp [hstate]⟩
  · exact h.fd.update hf rfl ⟨by simp [hrun], by simp [hstate], hfd⟩
  · exact h.chan.update hf rfl (by simp [hws]) (by simp [hstate])
  · exact h.heap.update hf rfl (by simp [hws])
  · exact h.handle.update hf rfl (by simp [hrun]) (by simp [hstate]) hhandle (by simp [hstate])
      (fun _ _ => id)

/-- A channel record changes and a closed channel stays closed. -/
theorem Inv.modChan (h : s.Inv) {ch : ChanId} {f : Chan → Chan}
    (hclosed : (s.chan ch).closed = true → (f (s.chan ch)).closed = true) :
    (s.modChan ch f).Inv := by
  refine ⟨h.task.congr rfl rfl rfl rfl rfl rfl, h.select.congr rfl rfl rfl rfl,
    h.fd.congr rfl rfl rfl rfl rfl, ?_,
    h.heap.congr rfl rfl (List.Subset.refl _) rfl rfl (fun _ => rfl) (fun _ => .inl),
    h.handle.congr rfl rfl (fun _ => rfl) rfl rfl (fun _ => rfl) (fun _ => rfl) rfl⟩
  refine h.chan.congr rfl rfl (fun _ => rfl) rfl (fun _ => Iff.rfl) ?_
  intro x hx
  by_cases hxc : x = ch
  · subst hxc
    simpa [Rt.modChan] using hclosed hx
  · simpa [Rt.modChan, Function.update_of_ne hxc] using hx

end Rt

open Rt

variable {s s' : Rt} {t : TaskId}

/-- A drained waiter is the completion of a wait on the channel. -/
theorem Drain.inv {ch : ChanId} (hd : Drain ch s s') (h : s.Inv) : s'.Inv := by
  cases hd with
  | task r t hr hc hhead => exact h.wakeChan (List.mem_of_head? hhead) (by simp [hr]) _
  | select r w items hr hc hhead hs hp =>
      exact h.wakeSelect (h.mem_selectq (List.mem_of_head? hhead)).1 hs hp _ _ _

/-- Every elementary change keeps the invariant. -/
theorem Shift.inv (hm : Shift s s') (h : s.Inv) : s'.Inv := by
  cases hm with
  | quiet => exact h.congr (by constructor <;> rfl) rfl rfl rfl rfl
  | drain hd => exact hd.inv h
  | timeout t items ht hs hin hp => exact h.wakeSelect ht hs (by simpa [TimersAfter, hin] using hp) _ _ _
  | wakeJoin x t hx hc hhead => exact h.wakeJoin (List.mem_of_head? hhead) _
  | wakeSleep t items ht hs hp => exact h.wakeSleep ht hs hp
  | wakeFd w items rc ready hw ha hp => exact h.wakeFd hw ha hp rc ready
  | completeHandle x t hx ht hs hxt => exact h.completeHandle hx ht hs hxt _
  | dropHandle x hx hc hr hj => exact h.dropHandle hx hc hr hj
  | status x st => exact h.modHandle rfl rfl rfl
  | request x => exact h.modHandle rfl rfl rfl
  | release x hx hc => exact h.release hx hc
  | releaseDrop x hl hr hc ht hj => exact h.releaseDrop hl.1 hl.2 ht hj
  | waste mk ha hh => exact h.waste ha hh
  | wasteTask k i => exact h.wasteTask k i
  | wasteHandle => exact h.wasteHandle
  | wasteFd x => exact h.wasteFd x

theorem Move.inv (hm : Move s s') (h : s.Inv) : s'.Inv := by
  cases hm with
  | shift hm => exact hm.inv h
  | write => exact h.congr (by constructor <;> rfl) rfl rfl rfl rfl
  | note => exact h.congr (by constructor <;> rfl) rfl rfl rfl rfl
  | ring => exact h.modChan id
  | deliver r t hr ht => exact h.wakeChan ht hr _
  | deliverSelect r w items hw hs hp => exact h.wakeSelect (h.mem_selectq hw).1 hs hp _ _ _
  | close => exact h.modChan fun _ => rfl
  | dropChan ch h1 h2 h3 h4 hm => exact h.dropChan h1 h2 h3 h4 hm

theorem Shifts.moves (hm : Shifts s s') : Moves s s' :=
  Relation.ReflTransGen.mono (fun _ _ h => Move.shift h) s s' hm

theorem Moves.inv (hm : Moves s s') (h : s.Inv) : s'.Inv := by
  induction hm with
  | refl => exact h
  | tail _ hm ih => exact hm.inv ih

theorem Shifts.inv (hm : Shifts s s') (h : s.Inv) : s'.Inv := hm.moves.inv h

theorem FdShifts.inv {k : FdCause} (hm : FdShifts k s s') (h : s.Inv) : s'.Inv := Shifts.inv hm.shifts h

theorem Buries.inv (hb : Buries t s s') (h : s.Inv) : s'.Inv := by
  obtain ⟨hm, ht, hs, hg⟩ := hb
  replace hm := HandleShifts.shifts hm
  exact (Shifts.inv hm h).reap ht hs hg

theorem Cancels.inv (hc : Cancels t s s') (h : s.Inv) : s'.Inv := by
  cases hc with
  | nothing => exact h
  | sleep items ht hs hp => exact h.wakeSleep ht hs hp
  | chan r ht hr => exact h.cancelChan ht hr
  | select items ht hs hp => exact h.wakeSelect ht hs hp _ _ _
  | fd w items hw ha ho hp =>
      have hq : (s.unwatch w).Inv :=
        h.congr (by constructor <;> rfl) rfl rfl rfl rfl
      exact hq.wakeFd hw ha (ho ▸ hp.congr rfl rfl) _ _
  | join x ht => exact h.cancelJoin ht
  | destroy ht hs hb => exact hb.inv (h.killReady ht hs)

/-- A running task that registers waiters keeps running and keeps the invariant. -/
theorem Register.inv (hm : Register t s s') (h : s.Inv) (ht : t ∈ s.allTasks)
    (hr : (s.task t).state = .running) :
    s'.Inv ∧ t ∈ s'.allTasks ∧ (s'.task t).state = .running := by
  cases hm with
  | quiet => exact ⟨h.congr (by constructor <;> rfl) rfl rfl rfl rfl, ht, hr⟩
  | prepare i hws =>
      refine ⟨h.touch hr hr hws.symm ?_ rfl rfl, ht, by simp [Rt.modTask, hr]⟩
      have := h.select.counted t ht
      simpa [hr] using this.symm
  | setIndex i => exact ⟨h.touch hr hr rfl rfl rfl rfl, ht, by simp [Rt.modTask, hr]⟩
  | add i k hop hch => exact ⟨h.addWaiter ht hr i hop hch, ht, by simp [Rt.addWaiter, hr]⟩
  | abandon => exact ⟨h.abandonSelect ht hr, ht, by simp [Rt.abandonSelect, hr]⟩

theorem Registers.inv (hm : Registers t s s') (h : s.Inv) (ht : t ∈ s.allTasks)
    (hr : (s.task t).state = .running) :
    s'.Inv ∧ t ∈ s'.allTasks ∧ (s'.task t).state = .running := by
  induction hm with
  | refl => exact ⟨h, ht, hr⟩
  | tail _ hm ih => exact hm.inv ih.1 ih.2.1 ih.2.2

/-- A running task that leaves the processor keeps the invariant. -/
theorem Park.inv (hp : Park t s s') (h : s.Inv) (ht : t ∈ s.allTasks)
    (hr : (s.task t).state = .running) : s'.Inv := by
  cases hp with
  | chan ch kind value hws hk hch => exact h.parkChan ht hr hws hk hch value
  | join x hws hx hc => exact h.parkJoin ht hr hws hx hc
  | sleep timers wakeNs hws hp => exact h.parkSleep ht hr hws hp
  | yield hws => exact h.parkYield ht hr hws
  | select htm => exact h.parkSelect hr htm
  | selectTimed timers wakeNs index hp => exact h.parkSelectTimed ht hr hp index
  | fd timers wakeNs x hws hfd hp => exact h.parkFd ht hr hws hfd hp x

end Microthread
