import Microthread.Invariant.Lifecycle

/-!
# Allocation keeps the invariant

Addresses are never handed out twice, so an object that has just been made is
nobody's task, waiter, channel or handle yet.
-/

namespace Microthread

open Foundation

namespace Rt

variable {s s' : Rt} {t : TaskId} {k' : Task}

/-! ## Fresh addresses -/

theorem HeapInv.not_made (h : s.HeapInv) {o : Obj} (ho : s.nextAddr ≤ o.addr) : s.made o = false := by
  by_contra hm
  exact absurd (h.fresh o (by simpa using hm)) (by omega)

theorem HeapInv.frees_eq_zero (h : s.HeapInv) {o : Obj} (ho : s.nextAddr ≤ o.addr) :
    s.frees o = 0 := by
  by_contra hf
  have := h.freed o hf
  rw [h.not_made ho] at this
  cases this

theorem HeapInv.task_lt (h : s.HeapInv) (ht : t ∈ s.allTasks) : t < s.nextAddr :=
  h.fresh (.task t) (h.task t ht).1

/-- The heap grows; nothing below its old top is freed. -/
theorem HeapInv.grow (h : s.HeapInv) (hnext : s.nextAddr ≤ s'.nextAddr)
    (hmade : ∀ o, s.made o = true → s'.made o = true)
    (hnew : ∀ o, s'.made o = true → s.made o = true ∨ o.addr < s'.nextAddr)
    (hfrees : ∀ o, o.addr < s.nextAddr → s'.frees o = s.frees o)
    (hfreed : ∀ o, s'.frees o ≠ 0 → s.frees o ≠ 0 ∨ s'.made o = true)
    (htask : ∀ u ∈ s'.allTasks, u ∈ s.allTasks ∨ s'.Live (.task u))
    (hsel : ∀ u ∈ s'.allTasks, ∀ w ∈ (s'.task u).selectWaiters,
      (u ∈ s.allTasks ∧ w ∈ (s.task u).selectWaiters) ∨ s'.made (.selectWaiter w) = true)
    (hfd : ∀ w ∈ s'.fdWaiters, w ∈ s.fdWaiters ∨ s'.made (.fdWaiter w) = true) : s'.HeapInv := by
  constructor
  · intro o ho
    rcases hnew o ho with hm | hlt
    · exact lt_of_lt_of_le (h.fresh o hm) hnext
    · exact hlt
  · exact fun o ho => (hfreed o ho).elim (fun hf => hmade o (h.freed o hf)) id
  · intro u hu
    rcases htask u hu with hold | hnew
    · obtain ⟨hm, hf⟩ := h.task u hold
      exact ⟨hmade _ hm, (hfrees (.task u) (h.fresh (.task u) hm)).trans hf⟩
    · exact hnew
  · intro u hu w hw
    rcases hsel u hu w hw with ⟨hold, hw⟩ | hnew
    · exact hmade _ (h.selectWaiter u hold w hw)
    · exact hnew
  · intro w hw
    rcases hfd w hw with hold | hnew
    · exact hmade _ (h.fdWaiter w hold)
    · exact hnew

/-- The invariant of the other parts, when only the heap and unused records change. -/
theorem Inv.ofAlloc (h : s.Inv) (hall : s'.allTasks = s.allTasks) (htask : s'.task = s.task)
    (hrunq : s'.runq = s.runq) (htimers : s'.timers.items = s.timers.items)
    (hwaitq : s'.waitq = s.waitq) (hlive : s'.liveCount = s.liveCount)
    (hselectq : s'.selectq = s.selectq) (hselw : s'.selw = s.selw)
    (hfd : s'.FdInv) (hchan : s'.ChanInv) (hheap : s'.HeapInv) (hhandle : s'.HandleInv) : s'.Inv where
  task := h.task.congr hall htask hrunq htimers hwaitq hlive
  select := h.select.congr hall htask hselectq hselw
  fd := hfd
  chan := hchan
  heap := hheap
  handle := hhandle

theorem HeapInv.waste (h : s.HeapInv) {mk : Nat → Obj} (haddr : ∀ n, (mk n).addr = n) :
    (s.waste mk).HeapInv := by
  refine h.grow (Nat.le_succ _) ?_ ?_ ?_ ?_ (fun _ => .inl) (fun u hu w hw => .inl ⟨hu, hw⟩)
    (fun _ => .inl)
  · intro o ho
    by_cases hx : o = mk s.nextAddr
    · simp [Rt.waste, hx]
    · simpa [Rt.waste, Function.update_of_ne hx] using ho
  · intro o ho
    by_cases hx : o = mk s.nextAddr
    · exact .inr (by simp [Rt.waste, hx, haddr])
    · simp only [Rt.waste, Function.update_of_ne hx] at ho
      exact .inl ho
  · intro o ho
    have hx : o ≠ mk s.nextAddr := by
      rintro rfl
      rw [haddr] at ho
      omega
    simp [Rt.waste, Function.update_of_ne hx]
  · intro o ho
    by_cases hx : o = mk s.nextAddr
    · exact .inr (by simp [Rt.waste, hx])
    · simp only [Rt.waste, Function.update_of_ne hx] at ho
      exact .inl ho

/-- An object that is made and freed at once is not live, and no other changes. -/
theorem HeapInv.live_waste (h : s.HeapInv) {mk : Nat → Obj} (haddr : ∀ n, (mk n).addr = n) (o : Obj) :
    (s.waste mk).Live o ↔ s.Live o := by
  by_cases hx : o = mk s.nextAddr
  · subst hx
    have := h.not_made (o := mk s.nextAddr) (by rw [haddr])
    simp [Live, Rt.waste, this]
  · simp [Live, Rt.waste, Function.update_of_ne hx]

theorem Inv.waste (h : s.Inv) {mk : Nat → Obj} (haddr : ∀ n, (mk n).addr = n)
    (hhandle : ∀ x n, mk n ≠ .handle x) : (s.waste mk).Inv := by
  have hx : ∀ x, Obj.handle x ≠ mk s.nextAddr := fun x => (hhandle x _).symm
  refine h.ofAlloc rfl rfl rfl rfl rfl rfl rfl rfl (h.fd.congr rfl rfl rfl rfl rfl) ?_
    (h.heap.waste haddr) ?_
  · exact h.chan.congr rfl rfl (fun _ => rfl) rfl (fun _ => h.heap.live_waste haddr _) (fun _ => id)
  · exact h.handle.congr rfl rfl (fun _ => rfl) rfl rfl
      (fun x => by simp [Rt.waste, Function.update_of_ne (hx x)])
      (fun x => by simp [Rt.waste, Function.update_of_ne (hx x)]) rfl

/-- The records of tasks that are not registered may change at will. -/
theorem Inv.unregistered (h : s.Inv) (hf : s.Frame s')
    (htask : ∀ u ∈ s.allTasks, s'.task u = s.task u) (hrunq : s'.runq = s.runq)
    (htimers : s'.timers.items = s.timers.items) (hwaitq : s'.waitq = s.waitq) : s'.Inv := by
  -- the registered tasks could as well have the records of a table that agrees everywhere
  have hmid : ({ s' with task := s.task } : Rt).Inv :=
    h.congr ⟨hf.allTasks, hf.liveCount, hf.selectq, hf.selw, hf.fdWaiters, hf.fdw,
      hf.fdWaitingCount, hf.channels, hf.chan, hf.handles, hf.handle, hf.nextAddr, hf.made,
      hf.frees, hf.stale⟩ rfl hrunq htimers hwaitq
  have htask : ∀ u ∈ s'.allTasks, s'.task u = s.task u := fun u hu => htask u (hf.allTasks ▸ hu)
  constructor
  · constructor
    · exact hmid.task.nodup
    · exact hmid.task.placed.congr (fun x => by cases x <;> rfl) (fun _ => Iff.rfl)
        fun u hu => by rw [htask u hu]
    · intro u hu
      rw [htask u hu]
      exact hmid.task.chanRef u hu
    · intro u hu
      rw [htask u hu]
      exact hmid.task.joinRef u hu
    · refine hmid.task.live.trans (List.countP_congr fun u hu => ?_)
      rw [htask u hu]
    · exact hmid.task.runqExact
    · exact hmid.task.waitqExact
  · have hlisted : ∀ w, s'.Listed w ↔ ({ s' with task := s.task } : Rt).Listed w :=
      fun w => and_congr_right fun hw => by rw [htask _ hw]
    constructor
    · exact hmid.select.placed.congr (fun _ => rfl) hlisted fun _ _ => rfl
    · intro u hu
      rw [htask u hu]
      exact hmid.select.owner u hu
    · intro u hu
      rw [htask u hu]
      exact hmid.select.nodup u hu
    · intro u hu
      rw [htask u hu]
      exact hmid.select.idle u hu
    · intro u hu
      rw [htask u hu]
      exact hmid.select.counted u hu
    · exact hmid.select.exact
  · constructor
    · exact hmid.fd.nodup
    · intro w hw
      have howner := hmid.fd.owner w hw
      rw [htask _ howner.1]
      exact howner
    · intro u hu
      rw [htask u hu]
      exact hmid.fd.linked u hu
    · intro u hu
      rw [htask u hu]
      exact hmid.fd.waiting u hu
    · exact hmid.fd.count
  · constructor
    · exact hmid.chan.nodup
    · exact hmid.chan.live
    · exact hmid.chan.registered
    · intro u hu
      rw [htask u hu]
      exact hmid.chan.waitRegistered u hu
    · intro u hu
      rw [htask u hu]
      exact hmid.chan.selectRegistered u hu
  · constructor
    · exact hmid.heap.fresh
    · exact hmid.heap.freed
    · exact hmid.heap.task
    · intro u hu
      rw [htask u hu]
      exact hmid.heap.selectWaiter u hu
    · exact hmid.heap.fdWaiter
  · constructor
    · exact hmid.handle.nodup
    · exact hmid.handle.live
    · intro u hu
      rw [htask u hu]
      exact hmid.handle.linked u hu
    · intro x hx u hu
      have hback := hmid.handle.back x hx u hu
      rw [htask u hback.1]
      exact hback
    · exact hmid.handle.completed
    · intro x hx hc hd
      refine hmid.handle.settled x hx hc ?_
      rintro ⟨u, hu, hrest⟩
      exact hd ⟨u, hu, by rwa [htask u hu]⟩
    · intro u hu
      rw [htask u hu]
      exact hmid.handle.joinRegistered u hu
    · exact hmid.handle.gone
    · exact hmid.handle.notStale

theorem Inv.wasteTask (h : s.Inv) (k : Task) (nextId : Int) : (s.wasteTask k nextId).Inv := by
  have hbase : (s.waste .task).Inv := h.waste (fun _ => rfl) (by simp)
  refine hbase.unregistered (by constructor <;> rfl) (fun u hu => ?_) rfl rfl rfl
  exact Function.update_of_ne (Nat.ne_of_lt (h.heap.task_lt hu)) _ _

theorem Inv.wasteFd (h : s.Inv) (x : FdWaiter) : (s.wasteFd x).Inv := by
  have hbase : (s.waste .fdWaiter).Inv := h.waste (fun _ => rfl) (by simp)
  have hne : ∀ w ∈ s.fdWaiters, w ≠ s.nextAddr := by
    rintro w hw rfl
    have := h.heap.fresh _ (h.heap.fdWaiter _ hw)
    simp [Obj.addr] at this
  have hfdw : ∀ w ∈ s.fdWaiters, (s.wasteFd x).fdw w = s.fdw w :=
    fun w hw => by simp [Rt.wasteFd, Function.update_of_ne (hne w hw)]
  refine ⟨hbase.task.congr rfl rfl rfl rfl rfl rfl, hbase.select.congr rfl rfl rfl rfl, ?_,
    hbase.chan.congr rfl rfl (fun _ => rfl) rfl (fun _ => Iff.rfl) (fun _ => id),
    hbase.heap.congr rfl rfl (List.Subset.refl _) rfl rfl (fun _ => rfl) (fun _ => .inl),
    hbase.handle.congr rfl rfl (fun _ => rfl) rfl rfl (fun _ => rfl) (fun _ => rfl) rfl⟩
  constructor
  · exact h.fd.nodup
  · intro w hw
    rw [hfdw w hw]
    exact h.fd.owner w hw
  · intro u hu w hw
    obtain ⟨h1, h2⟩ := h.fd.linked u hu w hw
    rw [hfdw w h1]
    exact ⟨h1, h2⟩
  · exact h.fd.waiting
  · refine h.fd.count.trans (List.countP_congr fun w hw => ?_)
    rw [hfdw w hw]

theorem Inv.handle_ne (h : s.Inv) {x : HandleId} (hx : x ∈ s.handles) : x ≠ s.nextAddr := by
  rintro rfl
  have := h.heap.fresh _ (h.handle.live _ hx).1
  simp [Obj.addr] at this

theorem Inv.wasteHandle (h : s.Inv) : s.wasteHandle.Inv := by
  have hw : (s.waste .handle).HeapInv := h.heap.waste (fun _ => rfl)
  have hlive : ∀ o, (s.waste .handle).Live o ↔ s.Live o := h.heap.live_waste fun _ => rfl
  refine h.ofAlloc rfl rfl rfl rfl rfl rfl rfl rfl (h.fd.congr rfl rfl rfl rfl rfl) ?_ ?_ ?_
  · exact h.chan.congr rfl rfl (fun _ => rfl) rfl (fun ch => hlive (.chan ch)) (fun _ => id)
  · exact hw.congr rfl rfl (List.Subset.refl _) rfl rfl (fun _ => rfl) (fun _ => .inl)
  · have hrec : ∀ x, x ≠ s.nextAddr → s.wasteHandle.handle x = s.handle x :=
      fun x hx => by simp [Rt.wasteHandle, Function.update_of_ne hx]
    have hfr : ∀ x, x ≠ s.nextAddr → s.wasteHandle.frees (.handle x) = s.frees (.handle x) ∧
        s.wasteHandle.made (.handle x) = s.made (.handle x) :=
      fun x hx => by simp [Rt.wasteHandle, Rt.waste, Function.update_of_ne, hx]
    constructor
    · exact h.handle.nodup
    · intro x hx
      have hne := h.handle_ne hx
      rw [Live, (hfr x hne).1, (hfr x hne).2]
      exact h.handle.live x hx
    · intro u hu hs x hx
      obtain ⟨h1, h2⟩ := h.handle.linked u hu hs x hx
      rw [hrec x (h.handle_ne h1)]
      exact ⟨h1, h2⟩
    · intro x hx u hu
      rw [hrec x (h.handle_ne hx)] at hu
      exact h.handle.back x hx u hu
    · intro x hx
      rw [hrec x (h.handle_ne hx)]
      exact h.handle.completed x hx
    · intro x hx hc
      rw [hrec x (h.handle_ne hx)] at hc ⊢
      exact h.handle.settled x hx hc
    · exact h.handle.joinRegistered
    · intro x hm hx
      by_cases hne : x = s.nextAddr
      · subst hne
        have := h.heap.frees_eq_zero (o := .handle s.nextAddr) (le_refl _)
        simp [Rt.wasteHandle, Rt.waste, this]
      · rw [hrec x hne, (hfr x hne).1]
        exact h.handle.gone x ((hfr x hne).2 ▸ hm) hx
    · exact h.handle.notStale

/-! ## Channels -/

theorem Inv.newChan (h : s.Inv) (elemSize capacity : Nat) : (s.newChan elemSize capacity).Inv := by
  have hfree := h.heap.frees_eq_zero (o := .chan s.nextAddr) (le_refl _)
  have hfresh : s.nextAddr ∉ s.channels := by
    intro hmem
    have := h.heap.fresh _ (h.chan.live _ hmem).1
    simp [Obj.addr] at this
  refine h.ofAlloc rfl rfl rfl rfl rfl rfl rfl rfl (h.fd.congr rfl rfl rfl rfl rfl) ?_ ?_ ?_
  · constructor
    · exact List.nodup_cons.mpr ⟨hfresh, h.chan.nodup⟩
    · intro ch hch
      rcases List.mem_cons.mp hch with rfl | hch
      · simp [Live, Rt.newChan, hfree]
      · have hne : ch ≠ s.nextAddr := ne_of_mem_of_not_mem hch hfresh
        simpa [Live, Rt.newChan, Function.update_of_ne, hne] using h.chan.live ch hch
    · intro ch hl hc
      by_cases hne : ch = s.nextAddr
      · simp [Rt.newChan, hne]
      · refine List.mem_cons_of_mem _ (h.chan.registered ch ?_ ?_)
        · simpa [Live, Rt.newChan, Function.update_of_ne, hne] using hl
        · simpa [Rt.newChan, Function.update_of_ne hne] using hc
    · exact fun u hu ch hs hch => List.mem_cons_of_mem _ (h.chan.waitRegistered u hu ch hs hch)
    · exact fun u hu w hw => List.mem_cons_of_mem _ (h.chan.selectRegistered u hu w hw)
  · refine h.heap.grow (Nat.le_succ _) ?_ ?_ (fun _ _ => rfl) (fun _ => .inl) (fun _ => .inl)
      (fun u hu w hw => .inl ⟨hu, hw⟩) (fun _ => .inl)
    · intro o ho
      by_cases hx : o = .chan s.nextAddr
      · simp [Rt.newChan, hx]
      · simpa [Rt.newChan, Function.update_of_ne hx] using ho
    · intro o ho
      by_cases hx : o = .chan s.nextAddr
      · exact .inr (by simp [Rt.newChan, hx, Obj.addr])
      · exact .inl (by simpa [Rt.newChan, Function.update_of_ne hx] using ho)
  · exact h.handle.congr rfl rfl (fun _ => rfl) rfl rfl (fun _ => by simp [Rt.newChan])
      (fun _ => rfl) rfl

theorem Inv.dropChan (h : s.Inv) {ch : ChanId} (hsend : (s.waitq (.senders ch)).items = [])
    (hrecv : (s.waitq (.receivers ch)).items = []) (hssend : (s.selectq (.senders ch)).items = [])
    (hsrecv : (s.selectq (.receivers ch)).items = []) (hmade : s.made (.chan ch) = true) :
    (s.dropChan ch).Inv := by
  -- nobody waits on the channel, so unregistering it leaves every wait on a registered one
  have hmem : ∀ {x}, x ∈ s.channels → x ≠ ch → x ∈ s.channels.erase ch := by
    intro x hx hne
    exact h.chan.nodup.mem_erase_iff.mpr ⟨hne, hx⟩
  refine h.ofAlloc rfl rfl rfl rfl rfl rfl rfl rfl (h.fd.congr rfl rfl rfl rfl rfl) ?_ ?_ ?_
  · constructor
    · exact h.chan.nodup.erase ch
    · intro x hx
      obtain ⟨hne, hx⟩ := h.chan.nodup.mem_erase_iff.mp hx
      simpa [Live, Rt.dropChan, Function.update_of_ne, hne] using h.chan.live x hx
    · intro x hl hc
      by_cases hne : x = ch
      · subst hne
        simp [Live, Rt.dropChan] at hl
      · refine hmem (h.chan.registered x ?_ ?_) hne
        · simpa [Live, Rt.dropChan, Function.update_of_ne, hne] using hl
        · simpa [Rt.dropChan, Function.update_of_ne hne] using hc
    · intro u hu x (hs : (s.task u).state = .waitingChan) (hx : (s.task u).chanWaitCh = some x)
      refine hmem (h.chan.waitRegistered u hu x hs hx) ?_
      rintro rfl
      obtain ⟨r, hr, hin⟩ := h.mem_chanRef hu hs
      unfold Task.chanRef at hr
      rw [hx] at hr
      split at hr <;> simp_all
    · intro u hu w hw
      refine hmem (h.chan.selectRegistered u hu w hw) ?_
      intro (hch : (s.selw w).ch = ch)
      have hin := h.select.mem_ref hu hw
      unfold SelectWaiter.ref at hin
      rw [hch] at hin
      split at hin
      · rw [hssend] at hin
        cases hin
      · rw [hsrecv] at hin
        cases hin
  · exact h.heap.congr rfl rfl (List.Subset.refl _) rfl rfl
      (fun _ => by simp [Rt.dropChan]) (freed_update hmade)
  · exact h.handle.congr rfl rfl (fun _ => rfl) rfl rfl (fun _ => rfl)
      (fun _ => by simp [Rt.dropChan]) rfl

/-! ## Tasks -/

section Spawn

variable {n : TaskId} (hn : n ∉ s.allTasks) (hall : s'.allTasks = n :: s.allTasks)
  (htask : s'.task = Function.update s.task n k')

include hn htask in
theorem task_spawn_of_mem {u : TaskId} (hu : u ∈ s.allTasks) : s'.task u = s.task u := by
  rw [htask, Function.update_of_ne (ne_of_mem_of_not_mem hu hn)]

include hn hall htask in
theorem TaskInv.spawn (h : s.TaskInv) (hk : k'.state = .ready) (hrunq : s'.runq = s.runq.push n)
    (htimers : s'.timers.items = s.timers.items) (hwaitq : s'.waitq = s.waitq)
    (hlive : s'.liveCount = s.liveCount + 1) : s'.TaskInv := by
  have hself : s'.task n = k' := by rw [htask, Function.update_self]
  have hold : ∀ {u}, u ∈ s.allTasks → s'.task u = s.task u := task_spawn_of_mem hn htask
  have hslot : k'.slot = some .runq := by simp [Task.slot, hk]
  have hnone : ∀ x, n ∉ s.slotItems x := fun x hx => hn ((h.placed.mem x n).mp hx).1
  -- the new task is registered without a place, then appended to the run queue
  have hreg : Placed s.slotItems (· ∈ s'.allTasks)
      (fun u => if u = n then none else (s.task u).slot) := by
    refine h.placed.setLive (x := n) (fun _ => rfl) ?_ ?_ hnone ?_
    · intro u hu
      simp [hall, hu]
    · intro u hu _
      simp [hu]
    · simp
  constructor
  · rw [hall]
    exact List.nodup_cons.mpr ⟨hn, h.nodup⟩
  · refine hreg.move (x := n) (by simp [hall]) (fun _ => Iff.rfl) ?_ ?_ ?_ ?_ ?_
    · intro u hu
      simp [htask, hu]
    · simp [hself, hslot]
    · rw [hself, hslot]
      rintro x ⟨rfl⟩
      simp [hrunq]
    · simp
    · rw [hself, hslot]
      intro x _ hx
      cases x with
      | runq => exact absurd rfl hx
      | timers => exact htimers
      | waitq r => simp only [slotItems_waitq, hwaitq]
  · rw [hall]
    intro u hu
    rcases List.mem_cons.mp hu with rfl | hu
    · simp [hself, hk]
    · rw [hold hu]
      exact h.chanRef u hu
  · rw [hall]
    intro u hu
    rcases List.mem_cons.mp hu with rfl | hu
    · simp [hself, hk]
    · rw [hold hu]
      exact h.joinRef u hu
  · rw [hlive, hall, List.countP_cons_of_pos (by simp [hself, hk]), h.live]
    congr 1
    exact List.countP_congr fun u hu => by rw [hold hu]
  · rw [hrunq]
    exact h.runqExact.push n
  · rw [hwaitq]
    exact h.waitqExact

include hn hall htask in
theorem SelectInv.spawn (h : s.SelectInv) (hk : k'.state = .ready) (hws : k'.selectWaiters = [])
    (hcount : k'.selectCountedWaiting = false) (hselectq : s'.selectq = s.selectq)
    (hselw : s'.selw = s.selw) : s'.SelectInv := by
  have hself : s'.task n = k' := by rw [htask, Function.update_self]
  have hold : ∀ {u}, u ∈ s.allTasks → s'.task u = s.task u := task_spawn_of_mem hn htask
  constructor
  · refine h.placed.congr (fun r => by rw [hselectq]) ?_ (fun w _ => by rw [hselw])
    intro w
    simp only [Listed, hall, hselw, List.mem_cons]
    by_cases hu : (s.selw w).task = n
    · simp [hu, hself, hws, hn]
    · simp [hu, htask, Function.update_of_ne]
  · rw [hall, hselw]
    intro u hu
    rcases List.mem_cons.mp hu with rfl | hu
    · simp [hself, hws]
    · rw [hold hu]
      exact h.owner u hu
  · rw [hall]
    intro u hu
    rcases List.mem_cons.mp hu with rfl | hu
    · simp [hself, hws]
    · rw [hold hu]
      exact h.nodup u hu
  · rw [hall]
    intro u hu
    rcases List.mem_cons.mp hu with rfl | hu
    · simp [hself, hws]
    · rw [hold hu]
      exact h.idle u hu
  · rw [hall]
    intro u hu
    rcases List.mem_cons.mp hu with rfl | hu
    · simp [hself, hk, hcount]
    · rw [hold hu]
      exact h.counted u hu
  · rw [hselectq]
    exact h.exact

include hn hall htask in
theorem FdInv.spawn (h : s.FdInv) (hk : k'.state = .ready) (hfd : k'.fdWaiter = none)
    (hfdWaiters : s'.fdWaiters = s.fdWaiters) (hfdw : s'.fdw = s.fdw)
    (hcount : s'.fdWaitingCount = s.fdWaitingCount) : s'.FdInv := by
  have hself : s'.task n = k' := by rw [htask, Function.update_self]
  have hold : ∀ {u}, u ∈ s.allTasks → s'.task u = s.task u := task_spawn_of_mem hn htask
  constructor
  · rw [hfdWaiters]
    exact h.nodup
  · rw [hfdWaiters, hfdw, hall]
    intro w hw
    obtain ⟨h1, h2⟩ := h.owner w hw
    rw [hold h1]
    exact ⟨List.mem_cons_of_mem _ h1, h2⟩
  · rw [hfdWaiters, hfdw, hall]
    intro u hu
    rcases List.mem_cons.mp hu with rfl | hu
    · simp [hself, hfd]
    · rw [hold hu]
      exact h.linked u hu
  · rw [hall]
    intro u hu
    rcases List.mem_cons.mp hu with rfl | hu
    · simp [hself, hk]
    · rw [hold hu]
      exact h.waiting u hu
  · rw [hcount, hfdWaiters, hfdw]
    exact h.count

include hn hall htask in
theorem ChanInv.spawn (h : s.ChanInv) (hk : k'.state = .ready) (hws : k'.selectWaiters = [])
    (hselw : s'.selw = s.selw) (hchannels : s'.channels = s.channels) (hchan : s'.chan = s.chan)
    (hlive : ∀ ch, s'.Live (.chan ch) ↔ s.Live (.chan ch)) : s'.ChanInv := by
  have hself : s'.task n = k' := by rw [htask, Function.update_self]
  have hold : ∀ {u}, u ∈ s.allTasks → s'.task u = s.task u := task_spawn_of_mem hn htask
  constructor
  · rw [hchannels]
    exact h.nodup
  · rw [hchannels]
    exact fun ch hch => (hlive ch).mpr (h.live ch hch)
  · rw [hchannels, hchan]
    exact fun ch hl => h.registered ch ((hlive ch).mp hl)
  · rw [hall, hchannels]
    intro u hu
    rcases List.mem_cons.mp hu with rfl | hu
    · simp [hself, hk]
    · rw [hold hu]
      exact h.waitRegistered u hu
  · rw [hall, hchannels, hselw]
    intro u hu
    rcases List.mem_cons.mp hu with rfl | hu
    · simp [hself, hws]
    · rw [hold hu]
      exact h.selectRegistered u hu

end Spawn

theorem Inv.fresh_task (h : s.Inv) {n : TaskId} (hn : s.nextAddr ≤ n) : n ∉ s.allTasks :=
  fun hmem => absurd (h.heap.task_lt hmem) (Nat.not_lt.mpr hn)

theorem Inv.spawn (h : s.Inv) : s.spawn.Inv := by
  have hn := h.fresh_task (le_refl _)
  have hfree := h.heap.frees_eq_zero (o := .task s.nextAddr) (le_refl _)
  constructor
  · exact h.task.spawn hn rfl rfl rfl rfl rfl rfl rfl
  · exact h.select.spawn hn rfl rfl rfl rfl rfl rfl rfl
  · exact h.fd.spawn hn rfl rfl rfl rfl rfl rfl rfl
  · exact h.chan.spawn hn rfl rfl rfl rfl rfl rfl rfl (fun _ => by simp [Live, Rt.spawn])
  · refine h.heap.grow (Nat.le_succ _) ?_ ?_ (fun _ _ => rfl) (fun _ => .inl) ?_ ?_ (fun _ => .inl)
    · intro o ho
      by_cases hx : o = .task s.nextAddr
      · simp [Rt.spawn, hx]
      · simpa [Rt.spawn, Function.update_of_ne hx] using ho
    · intro o ho
      by_cases hx : o = .task s.nextAddr
      · exact .inr (by simp [Rt.spawn, hx, Obj.addr])
      · exact .inl (by simpa [Rt.spawn, Function.update_of_ne hx] using ho)
    · intro u hu
      rcases List.mem_cons.mp hu with rfl | hu
      · exact .inr (by simp [Live, Rt.spawn, hfree])
      · exact .inl hu
    · intro u hu w hw
      rcases List.mem_cons.mp hu with rfl | hu
      · simp [Rt.spawn] at hw
      · simp only [Rt.spawn, Function.update_of_ne (ne_of_mem_of_not_mem hu hn)] at hw
        exact .inl ⟨hu, hw⟩
  · have hold : ∀ {u}, u ∈ s.allTasks → s.spawn.task u = s.task u := task_spawn_of_mem hn rfl
    have hself : s.spawn.task s.nextAddr = { id := s.nextId } := by simp [Rt.spawn]
    constructor
    · exact h.handle.nodup
    · intro x hx
      simpa [Live, Rt.spawn] using h.handle.live x hx
    · intro u hu hs x hx
      rcases List.mem_cons.mp hu with rfl | hu
      · simp [hself] at hx
      · rw [hold hu] at hs hx
        exact h.handle.linked u hu hs x hx
    · intro x hx u hu
      obtain ⟨h1, h2⟩ := h.handle.back x hx u hu
      rw [hold h1]
      exact ⟨List.mem_cons_of_mem _ h1, h2⟩
    · exact h.handle.completed
    · intro x hx hc hnd
      refine h.handle.settled x hx hc ?_
      rintro ⟨u, hu, hs⟩
      refine hnd ⟨u, List.mem_cons_of_mem _ hu, ?_⟩
      rwa [hold hu]
    · intro u hu x hs hx
      rcases List.mem_cons.mp hu with rfl | hu
      · simp [hself] at hs
      · rw [hold hu] at hs hx
        exact h.handle.joinRegistered u hu x hs hx
    · intro x hm
      exact h.handle.gone x (by simpa [Rt.spawn] using hm)
    · exact h.handle.notStale

theorem Inv.spawnHandle (h : s.Inv) : s.spawnHandle.Inv := by
  have hn := h.fresh_task (Nat.le_succ s.nextAddr)
  have hfree := h.heap.frees_eq_zero (o := .task (s.nextAddr + 1)) (Nat.le_succ _)
  have hhfree := h.heap.frees_eq_zero (o := .handle s.nextAddr) (le_refl _)
  have hhn : s.nextAddr ∉ s.handles := fun hmem => h.handle_ne hmem rfl
  constructor
  · exact h.task.spawn hn rfl rfl rfl rfl rfl rfl rfl
  · exact h.select.spawn hn rfl rfl rfl rfl rfl rfl rfl
  · exact h.fd.spawn hn rfl rfl rfl rfl rfl rfl rfl
  · exact h.chan.spawn hn rfl rfl rfl rfl rfl rfl rfl (fun _ => by simp [Live, Rt.spawnHandle])
  · refine h.heap.grow (by simp [Rt.spawnHandle]) ?_ ?_ (fun _ _ => rfl) (fun _ => .inl) ?_ ?_
      (fun _ => .inl)
    · intro o ho
      simp only [Rt.spawnHandle, Function.update_apply]
      split_ifs
      · rfl
      · rfl
      · exact ho
    · intro o ho
      simp only [Rt.spawnHandle, Function.update_apply] at ho
      split_ifs at ho with h1 h2
      · exact .inr (by simp [Rt.spawnHandle, h1, Obj.addr])
      · exact .inr (by simp [Rt.spawnHandle, h2, Obj.addr])
      · exact .inl ho
    · intro u hu
      rcases List.mem_cons.mp hu with rfl | hu
      · exact .inr (by simp [Live, Rt.spawnHandle, hfree])
      · exact .inl hu
    · intro u hu w hw
      rcases List.mem_cons.mp hu with rfl | hu
      · simp [Rt.spawnHandle] at hw
      · simp only [Rt.spawnHandle, Function.update_of_ne (ne_of_mem_of_not_mem hu hn)] at hw
        exact .inl ⟨hu, hw⟩
  · have hold : ∀ {u}, u ∈ s.allTasks → s.spawnHandle.task u = s.task u := task_spawn_of_mem hn rfl
    have hself : s.spawnHandle.task (s.nextAddr + 1) =
        { id := s.nextId, handle := some s.nextAddr } := by simp [Rt.spawnHandle]
    have hrec : ∀ {x}, x ∈ s.handles → s.spawnHandle.handle x = s.handle x :=
      fun hx => by simp [Rt.spawnHandle, Function.update_of_ne (h.handle_ne hx)]
    have hnew : s.spawnHandle.handle s.nextAddr = { task := some (s.nextAddr + 1) } := by
      simp [Rt.spawnHandle]
    constructor
    · exact List.nodup_cons.mpr ⟨hhn, h.handle.nodup⟩
    · intro x hx
      rcases List.mem_cons.mp hx with rfl | hx
      · simp [Live, Rt.spawnHandle, hhfree]
      · simpa [Live, Rt.spawnHandle, Function.update_of_ne, h.handle_ne hx] using h.handle.live x hx
    · intro u hu hs x hx
      rcases List.mem_cons.mp hu with rfl | hu
      · rw [hself] at hx
        cases hx
        exact ⟨List.mem_cons_self, by rw [hnew]⟩
      · rw [hold hu] at hs hx
        obtain ⟨h1, h2⟩ := h.handle.linked u hu hs x hx
        rw [hrec h1]
        exact ⟨List.mem_cons_of_mem _ h1, h2⟩
    · intro x hx u hu
      rcases List.mem_cons.mp hx with rfl | hx
      · rw [hnew] at hu
        cases hu
        exact ⟨List.mem_cons_self, by rw [hself]⟩
      · rw [hrec hx] at hu
        obtain ⟨h1, h2⟩ := h.handle.back x hx u hu
        rw [hold h1]
        exact ⟨List.mem_cons_of_mem _ h1, h2⟩
    · intro x hx
      rcases List.mem_cons.mp hx with rfl | hx
      · simp [hnew]
      · rw [hrec hx]
        exact h.handle.completed x hx
    · intro x hx hc hnd
      rcases List.mem_cons.mp hx with rfl | hx
      · simp [hnew] at hc
      · rw [hrec hx] at hc ⊢
        refine h.handle.settled x hx hc ?_
        rintro ⟨u, hu, hs⟩
        refine hnd ⟨u, List.mem_cons_of_mem _ hu, ?_⟩
        rwa [hold hu]
    · intro u hu x hs hx
      rcases List.mem_cons.mp hu with rfl | hu
      · simp [hself] at hs
      · rw [hold hu] at hs hx
        exact List.mem_cons_of_mem _ (h.handle.joinRegistered u hu x hs hx)
    · intro x hm hx
      have hne : x ≠ s.nextAddr := fun hx' => hx (hx' ▸ List.mem_cons_self)
      have := h.handle.gone x (by simpa [Rt.spawnHandle, Function.update_of_ne, hne] using hm)
        fun hmem => hx (List.mem_cons_of_mem _ hmem)
      simpa [Rt.spawnHandle, Function.update_of_ne hne] using this
    · exact h.handle.notStale

/-! ## Select waiters -/

theorem SelectInv.addWaiter (h : s.SelectInv) (ht : t ∈ s.allTasks)
    (hs : (s.task t).state = .running)
    (hfresh : ∀ u ∈ s.allTasks, s.nextAddr ∉ (s.task u).selectWaiters) (i : Nat) {k : SelectCase}
    (hop : k.op = .send ∨ k.op = .recv) : (s.addWaiter t i k).SelectInv := by
  set n := s.nextAddr with hn
  set x : SelectWaiter := { task := t, ch := k.ch.getD 0, op := k.op, value := k.value.getD 0
                            index := i, active := true } with hx
  have hnew : (s.addWaiter t i k).selw n = x := by simp [Rt.addWaiter, hn, hx]
  have hselw : ∀ w, w ≠ n → (s.addWaiter t i k).selw w = s.selw w :=
    fun w hw => by simp [Rt.addWaiter, ← hn, Function.update_of_ne hw]
  have hother : ∀ u, u ≠ t → (s.addWaiter t i k).task u = s.task u :=
    fun u hu => by simp [Rt.addWaiter, Function.update_of_ne hu]
  have hself : ((s.addWaiter t i k).task t).selectWaiters = n :: (s.task t).selectWaiters := by
    simp [Rt.addWaiter, hn]
  have hstate : ∀ u, ((s.addWaiter t i k).task u).state = (s.task u).state := by
    intro u
    by_cases hut : u = t
    · simp [Rt.addWaiter, hut]
    · rw [hother u hut]
  have hlisted : ∀ w, w ≠ n → ((s.addWaiter t i k).Listed w ↔ s.Listed w) := by
    intro w hw
    simp only [Listed, hselw w hw]
    by_cases hu : (s.selw w).task = t
    · rw [hu, hself, List.mem_cons, or_iff_right hw]
      rfl
    · rw [hother _ hu]
      rfl
  have hlists : ∀ r, ((s.addWaiter t i k).selectq r).items =
      if r = x.ref then (s.selectq r).items ++ [n] else (s.selectq r).items := by
    intro r
    simp only [Rt.addWaiter, Function.update_apply, ← hx, ← hn]
    split_ifs with hr
    · subst hr
      rfl
    · rfl
  constructor
  · -- the new waiter is listed without a place first, then linked
    have hreg : Placed (fun r => (s.selectq r).items) (s.addWaiter t i k).Listed
        (fun w => if w = n then none else some (s.selw w).ref) := by
      refine h.placed.setLive (x := n) (fun _ => rfl) hlisted ?_ ?_ ?_
      · intro w hw _
        simp [hw]
      · intro r hr
        obtain ⟨⟨h1, h2⟩, -⟩ := (h.placed.mem r n).mp hr
        exact hfresh _ h1 h2
      · simp
    refine hreg.move (x := n) ?_ (fun _ => Iff.rfl) ?_ ?_ ?_ ?_ ?_
    · refine ⟨?_, ?_⟩
      · rw [hnew]
        exact ht
      · rw [hnew]
        change n ∈ ((s.addWaiter t i k).task t).selectWaiters
        rw [hself]
        exact List.mem_cons_self
    · intro w hw
      simp [hw, hselw w hw]
    · simp
    · rw [hnew]
      rintro r ⟨rfl⟩
      simp [hlists]
    · simp
    · rw [hnew]
      intro r _ hr
      rw [hlists, if_neg fun hr' => hr (by rw [hr'])]
  · intro u hu w hw
    by_cases hut : u = t
    · subst hut
      rw [hself] at hw
      rcases List.mem_cons.mp hw with rfl | hw
      · rw [hnew]
        exact ⟨rfl, rfl, hop⟩
      · rw [hselw w (ne_of_mem_of_not_mem hw (hfresh u hu))]
        exact h.owner u hu w hw
    · rw [hother u hut] at hw
      rw [hselw w (ne_of_mem_of_not_mem hw (hfresh u hu))]
      exact h.owner u hu w hw
  · intro u hu
    by_cases hut : u = t
    · subst hut
      rw [hself]
      exact List.nodup_cons.mpr ⟨hfresh u hu, h.nodup u hu⟩
    · rw [hother u hut]
      exact h.nodup u hu
  · intro u hu
    by_cases hut : u = t
    · subst hut
      rw [hstate, hs]
      exact fun _ hne => absurd rfl hne
    · rw [hother u hut]
      exact h.idle u hu
  · intro u hu
    rw [hstate, ← h.counted u hu]
    by_cases hut : u = t
    · simp [Rt.addWaiter, hut]
    · rw [hother u hut]
  · intro r
    simp only [Rt.addWaiter, Function.update_apply]
    split_ifs
    · exact (h.exact _).push _
    · exact h.exact r

theorem Inv.addWaiter (h : s.Inv) (ht : t ∈ s.allTasks) (hs : (s.task t).state = .running)
    (i : Nat) {k : SelectCase} (hop : k.op = .send ∨ k.op = .recv)
    (hch : k.ch.getD 0 ∈ s.channels) : (s.addWaiter t i k).Inv := by
  have hfresh : ∀ u ∈ s.allTasks, s.nextAddr ∉ (s.task u).selectWaiters := by
    intro u hu hmem
    have := h.heap.fresh _ (h.heap.selectWaiter u hu _ hmem)
    simp [Obj.addr] at this
  have hws : ∀ u w, w ∈ ((s.addWaiter t i k).task u).selectWaiters → w ≠ s.nextAddr →
      w ∈ (s.task u).selectWaiters := by
    intro u w hw hne
    by_cases hut : u = t
    · subst hut
      simpa [Rt.addWaiter, hne] using hw
    · simpa [Rt.addWaiter, Function.update_of_ne hut] using hw
  let mid : Rt := { s with
    nextAddr := (s.addWaiter t i k).nextAddr, made := (s.addWaiter t i k).made
    selw := (s.addWaiter t i k).selw, selectq := (s.addWaiter t i k).selectq }
  have hf : mid.Frame (s.addWaiter t i k) := by constructor <;> rfl
  have hlive : ∀ ch, (s.addWaiter t i k).Live (.chan ch) ↔ s.Live (.chan ch) :=
    fun ch => by simp [Live, Rt.addWaiter]
  constructor
  · exact h.task.touch rfl rfl rfl hs hs rfl rfl rfl
  · exact h.select.addWaiter ht hs hfresh i hop
  · have hmid : mid.FdInv := h.fd.congr rfl rfl rfl rfl rfl
    exact hmid.update hf rfl ⟨by simp [mid, hs], by simp [hs], rfl⟩
  · constructor
    · exact h.chan.nodup
    · exact fun ch hch => (hlive ch).mpr (h.chan.live ch hch)
    · exact fun ch hl => h.chan.registered ch ((hlive ch).mp hl)
    · intro u hu ch hsu hch'
      have hut : u ≠ t := by
        rintro rfl
        simp [Rt.addWaiter, hs] at hsu
      simp only [Rt.addWaiter, Function.update_of_ne hut] at hsu hch'
      exact h.chan.waitRegistered u hu ch hsu hch'
    · intro u hu w hw
      by_cases hne : w = s.nextAddr
      · simpa [Rt.addWaiter, hne] using hch
      · simpa [Rt.addWaiter, Function.update_of_ne hne] using
          h.chan.selectRegistered u hu w (hws u w hw hne)
  · refine h.heap.grow (Nat.le_succ _) ?_ ?_ (fun _ _ => rfl) (fun _ => .inl) (fun _ => .inl) ?_
      (fun _ => .inl)
    · intro o ho
      by_cases hx : o = .selectWaiter s.nextAddr
      · simp [Rt.addWaiter, hx]
      · simpa [Rt.addWaiter, Function.update_of_ne hx] using ho
    · intro o ho
      by_cases hx : o = .selectWaiter s.nextAddr
      · exact .inr (by simp [Rt.addWaiter, hx, Obj.addr])
      · exact .inl (by simpa [Rt.addWaiter, Function.update_of_ne hx] using ho)
    · intro u hu w hw
      by_cases hne : w = s.nextAddr
      · exact .inr (by simp [Rt.addWaiter, hne])
      · exact .inl ⟨hu, hws u w hw hne⟩
  · have hmid : mid.HandleInv := h.handle.congr rfl rfl (fun _ => rfl) rfl rfl
      (fun _ => by simp [mid, Rt.addWaiter]) (fun _ => rfl) rfl
    exact hmid.update hf rfl (by simp [mid, hs]) (by simp [hs]) rfl (by simp [hs]) (fun _ _ => id)

end Rt

end Microthread
