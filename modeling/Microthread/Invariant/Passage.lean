import Microthread.Invariant.Shutdown

/-!
# What a section does to the rest of the system

`Passes` collects what the system needs to know about a section that takes no
task off its processor: the runtime is at rest again, the same tasks run, every
registered task either kept its place or is new, and a channel that was found
registered stays so until it is freed.
-/

namespace Microthread

open Foundation

/-- The record of a registered task after a section: unchanged, woken, or that of a
running task with other results of its waits. -/
inductive Task.Stays (k : Task) : Task → Prop where
  | same : k.Stays k
  | woken {k'} (o) : k.Wake k' o → k.Stays k'
  | touched {k'} : k.state = .running → k'.state = .running → k'.call = k.call →
      k'.fdWaiter = k.fdWaiter → k.Stays k'

/-- The record of a task that has just been made. -/
def Task.New (k : Task) : Prop := k.state = .ready ∧ k.fdWaiter = none

namespace Rt

variable {s s' a : Rt} {t u : TaskId}

/-- The channel is registered, or not alive. -/
def Known (s : Rt) (ch : ChanId) : Prop := ch ∈ s.channels ∨ ¬s.Live (.chan ch)

/-- What the system needs to know of a section that stops no task. -/
structure Passes (s s' : Rt) : Prop where
  rest : s'.Rest
  runs : ∀ u, s'.Runs u ↔ s.Runs u
  tasks : ∀ u ∈ s'.allTasks, (u ∈ s.allTasks ∧ (s.task u).Stays (s'.task u)) ∨
    (s.made (.task u) = false ∧ (s'.task u).New)
  made : ∀ o, s.made o = true → s'.made o = true
  known : ∀ ch, s.Known ch → s'.Known ch
  control : s'.control = s.control
  off : s.initialized = false → s.Off → s'.Off

/-- A runtime at rest whose registries are empty is off. -/
theorem Rest.off (h : s.Rest) (ht : s.allTasks = []) (hc : s.channels = [])
    (hh : s.handles = []) : s.Off := by
  have hslots : ∀ x, s.slotItems x = [] := fun x => List.eq_nil_iff_forall_not_mem.mpr fun u hu => by
    have := ((h.inv.task.placed.mem x u).mp hu).1
    simp [ht] at this
  have hqueue : ∀ q : Queue TaskId, q.items = [] → q.Exact → q = {} := fun q hi he => by
    obtain ⟨items, count⟩ := q
    simp only [Queue.Exact] at he
    simp_all
  have hfd : s.fdWaiters = [] := List.eq_nil_iff_forall_not_mem.mpr fun w hw => by
    have := (h.inv.fd.owner w hw).1
    simp [ht] at this
  refine ⟨ht, hc, hh, hfd, hqueue _ (hslots .runq) h.inv.task.runqExact, hslots .timers,
    fun r => hqueue _ (hslots (.waitq r)) (h.inv.task.waitqExact r), fun r => ?_, ?_, ?_, ?_,
    h.inv.heap.fresh, h.inv.heap.freed, fun ch hl => ?_, fun x hx => ?_, h.inv.handle.notStale⟩
  · have hi : (s.selectq r).items = [] := List.eq_nil_iff_forall_not_mem.mpr fun w hw => by
      have := ((h.inv.select.placed.mem r w).mp hw).1.1
      simp [ht] at this
    exact hqueue _ hi (h.inv.select.exact r)
  · simp [h.inv.task.live, ht]
  · simp [h.running, ht]
  · simp [h.inv.fd.count, hfd]
  · by_contra hcl
    have := h.inv.chan.registered ch hl (by simpa using hcl)
    simp [hc] at this
  · exact h.inv.handle.gone x hx (by simp [hh])

/-- The registries have not grown. -/
structure Fewer (s s' : Rt) : Prop where
  allTasks : s'.allTasks ⊆ s.allTasks
  channels : s'.channels ⊆ s.channels
  handles : s'.handles ⊆ s.handles

theorem Fewer.of_eq (ht : s'.allTasks = s.allTasks) (hc : s'.channels = s.channels)
    (hh : s'.handles = s.handles) : s.Fewer s' :=
  ⟨ht ▸ List.Subset.refl _, hc ▸ List.Subset.refl _, hh ▸ List.Subset.refl _⟩

theorem Fewer.refl (s : Rt) : s.Fewer s := .of_eq rfl rfl rfl

theorem Fewer.trans (h : s.Fewer a) (h' : a.Fewer s') : s.Fewer s' :=
  ⟨List.Subset.trans h'.allTasks h.allTasks, List.Subset.trans h'.channels h.channels,
    List.Subset.trans h'.handles h.handles⟩

theorem Fewer.off (hf : s.Fewer s') (h : s.Off) (hr : s'.Rest) : s'.Off :=
  hr.off (List.subset_nil.mp (h.allTasks ▸ hf.allTasks))
    (List.subset_nil.mp (h.channels ▸ hf.channels)) (List.subset_nil.mp (h.handles ▸ hf.handles))

theorem Passes.trans (h : Passes s a) (h' : Passes a s')
    (htasks : ∀ u ∈ s'.allTasks, (u ∈ s.allTasks ∧ (s.task u).Stays (s'.task u)) ∨
      (s.made (.task u) = false ∧ (s'.task u).New)) : Passes s s' where
  rest := h'.rest
  runs u := (h'.runs u).trans (h.runs u)
  tasks := htasks
  made o ho := h'.made o (h.made o ho)
  known ch hch := h'.known ch (h.known ch hch)
  control := h'.control.trans h.control
  off hi ho := by
    have hctrl := h.control
    simp only [Rt.control, Prod.mk.injEq] at hctrl
    exact h'.off (hctrl.1.trans hi) (h.off hi ho)

end Rt

open Rt

variable {s s' : Rt} {t u : TaskId}

theorem Rt.Woken.stays (h : Woken s s' u) : (s.task u).Stays (s'.task u) := by
  rcases h with heq | ⟨o, hw⟩
  · exact heq ▸ .same
  · exact .woken o hw

/-! ## Elementary changes -/

theorem Rt.Known.of_live {ch : ChanId} (h : s.Known ch) (hc : s'.channels = s.channels)
    (hl : s'.Live (.chan ch) → s.Live (.chan ch)) : s'.Known ch :=
  h.imp (fun hm => hc ▸ hm) fun hn hl' => hn (hl hl')

theorem Shift.known (hm : Shift s s') (ch : ChanId) (h : s.Known ch) : s'.Known ch := by
  cases hm with
  | drain hd =>
      cases hd with
      | task => exact h
      | select => exact h.of_live rfl fun hl => ⟨hl.1, Nat.eq_zero_of_add_eq_zero_right hl.2⟩
  | timeout => exact h.of_live rfl fun hl => ⟨hl.1, Nat.eq_zero_of_add_eq_zero_right hl.2⟩
  | dropHandle => exact h.of_live rfl fun hl => by simpa [Live, Rt.dropHandle] using hl
  | releaseDrop =>
      exact h.of_live rfl fun hl => by simpa [Live, Rt.dropHandle, Rt.modHandle] using hl
  | waste mk =>
      refine h.of_live rfl fun hl => ?_
      simp only [Live, Rt.waste] at hl
      by_cases hch : Obj.chan ch = mk s.nextAddr
      · rw [hch] at hl
        simp at hl
      · simpa [Live, Function.update_of_ne hch] using hl
  | wasteTask => exact h.of_live rfl fun hl => by simpa [Live, Rt.wasteTask, Rt.waste] using hl
  | wasteHandle => exact h.of_live rfl fun hl => by simpa [Live, Rt.wasteHandle, Rt.waste] using hl
  | wasteFd => exact h.of_live rfl fun hl => by simpa [Live, Rt.wasteFd, Rt.waste] using hl
  | _ => exact h

theorem Move.known (hm : Move s s') (ch : ChanId) (h : s.Known ch) : s'.Known ch := by
  cases hm with
  | shift hm => exact hm.known ch h
  | deliverSelect => exact h.of_live rfl fun hl => ⟨hl.1, Nat.eq_zero_of_add_eq_zero_right hl.2⟩
  | dropChan x =>
      by_cases hx : ch = x
      · subst hx
        exact .inr fun hl => by simp [Live, Rt.dropChan] at hl
      · refine h.imp (fun hm => ?_) fun hn hl => hn ?_
        · simpa [Rt.dropChan, List.mem_erase_of_ne hx] using hm
        · simpa [Live, Rt.dropChan, hx] using hl
  | _ => exact h

theorem Shift.fewer (hm : Shift s s') : s.Fewer s' := by
  cases hm with
  | drain hd => cases hd <;> exact .of_eq rfl rfl rfl
  | dropHandle => exact ⟨List.Subset.refl _, List.Subset.refl _, List.erase_subset⟩
  | releaseDrop => exact ⟨List.Subset.refl _, List.Subset.refl _, List.erase_subset⟩
  | _ => exact .of_eq rfl rfl rfl

theorem Move.fewer (hm : Move s s') : s.Fewer s' := by
  cases hm with
  | shift hm => exact hm.fewer
  | dropChan => exact ⟨List.Subset.refl _, List.erase_subset, List.Subset.refl _⟩
  | _ => exact .of_eq rfl rfl rfl

theorem Moves.known (hm : Moves s s') (ch : ChanId) (h : s.Known ch) : s'.Known ch := by
  induction hm with
  | refl => exact h
  | tail _ hm ih => exact hm.known ch ih

theorem Moves.fewer (hm : Moves s s') : s.Fewer s' := by
  induction hm with
  | refl => exact .refl s
  | tail _ hm ih => exact ih.trans hm.fewer

theorem Moves.passes (hm : Moves s s') (h : s.Rest) : Passes s s' := by
  obtain ⟨hrest, hruns⟩ := Moves.rest hm h
  refine ⟨hrest, hruns, fun u hu => ?_, (Moves.grows hm).made, Moves.known hm, hm.control_eq,
    fun _ hoff => (Moves.fewer hm).off hoff hrest⟩
  have hmem : u ∈ s.allTasks := hm.allTasks_eq ▸ hu
  exact .inl ⟨hmem, (Moves.woken hm h.inv hmem).stays⟩

theorem Shifts.passes (hm : Shifts s s') (h : s.Rest) : Passes s s' :=
  Moves.passes (Shifts.moves hm) h

/-! ## Sections -/

theorem Rt.Created.passes (hc : Created s s') (h : s.Rest) (hi : s.initialized = true) :
    Passes s s' := by
  obtain ⟨hrest, hruns⟩ := hc.rest h
  cases hc with
  | no a hs => exact Shifts.passes (Wastes.shifts hs) h
  | task tape =>
      refine ⟨hrest, hruns, fun u hu => ?_, fun o ho => made_update ho, fun ch hch => ?_, rfl,
        fun hno => by simp [hi] at hno⟩
      · rcases List.mem_cons.mp hu with rfl | hu
        · exact .inr ⟨h.inv.heap.not_made (le_refl _), by simp [Task.New, Rt.spawn]⟩
        · have hne : u ≠ s.nextAddr := (h.inv.heap.task_lt hu).ne
          exact .inl ⟨hu, by simpa [Rt.spawn, hne] using Task.Stays.same⟩
      · exact hch.of_live rfl fun hl => by simpa [Live, Rt.spawn] using hl
  | handle tape =>
      refine ⟨hrest, hruns, fun u hu => ?_, fun o ho => made_update (made_update ho),
        fun ch hch => ?_, rfl, fun hno => by simp [hi] at hno⟩
      · rcases List.mem_cons.mp hu with rfl | hu
        · exact .inr ⟨h.inv.heap.not_made (Nat.le_succ _), by simp [Task.New, Rt.spawnHandle]⟩
        · have hne : u ≠ s.nextAddr + 1 :=
            ((h.inv.heap.task_lt hu).trans (Nat.lt_succ_self _)).ne
          exact .inl ⟨hu, by simpa [Rt.spawnHandle, hne] using Task.Stays.same⟩
      · exact hch.of_live rfl fun hl => by simpa [Live, Rt.spawnHandle] using hl
  | chan tape elemSize capacity =>
      refine ⟨hrest, hruns, fun u hu => .inl ⟨hu, .same⟩, fun o ho => made_update ho,
        fun ch hch => ?_, rfl, fun hno => by simp [hi] at hno⟩
      by_cases hn : ch = s.nextAddr
      · exact .inl (by simp [Rt.newChan, hn])
      · refine hch.imp (fun hm => ?_) fun hno hl => hno ?_
        · simpa [Rt.newChan, hn] using hm
        · simpa [Live, Rt.newChan, hn] using hl

theorem Buries.fewer (hb : Buries t s s') : s.Fewer s' := by
  obtain ⟨hm, ht, hd, hset⟩ := hb
  replace hm := HandleShifts.shifts hm
  refine (Moves.fewer (Shifts.moves hm)).trans ⟨?_, ?_, ?_⟩
  · rw [reap_allTasks]
    exact List.erase_subset
  · unfold Rt.reap
    split <;> exact List.Subset.refl _
  · unfold Rt.reap
    split <;> exact List.Subset.refl _

theorem reap_live_chan (s : Rt) (t : TaskId) (ch : ChanId) :
    (s.reap t).Live (.chan ch) ↔ s.Live (.chan ch) := by
  unfold Rt.reap Live
  split <;> simp

theorem reap_channels (s : Rt) (t : TaskId) : (s.reap t).channels = s.channels := by
  unfold Rt.reap
  split <;> rfl

theorem reap_made (s : Rt) (t : TaskId) : (s.reap t).made = s.made := by
  unfold Rt.reap
  split <;> rfl

theorem Buries.known (hb : Buries t s s') (ch : ChanId) (h : s.Known ch) : s'.Known ch := by
  obtain ⟨hm, ht, hd, hset⟩ := hb
  replace hm := HandleShifts.shifts hm
  exact (Moves.known (Shifts.moves hm) ch h).of_live (reap_channels _ _) (reap_live_chan _ _ _).mp

theorem Buries.made (hb : Buries t s s') (o : Obj) (h : s.made o = true) : s'.made o = true := by
  obtain ⟨hm, ht, hd, hset⟩ := hb
  replace hm := HandleShifts.shifts hm
  rw [reap_made]
  exact (Moves.grows (Shifts.moves hm)).made o h

theorem Cancels.fewer (hc : Cancels t s s') : s.Fewer s' := by
  cases hc with
  | destroy _ _ hb => exact Fewer.trans (a := s.killReady t) (.of_eq rfl rfl rfl) hb.fewer
  | _ => exact .of_eq rfl rfl rfl

/-- A cancellation wakes its task or destroys it. -/
theorem Cancels.passes (hc : Cancels t s s') (h : s.Rest) : Passes s s' := by
  obtain ⟨hrest, hruns⟩ := hc.rest h
  have hctrl := hc.control_eq
  have hfew := hc.fewer
  have hknown : ∀ ch, s.Known ch → s'.Known ch := fun ch hch => by
    cases hc with
    | destroy _ _ hb => exact hb.known ch hch
    | select => exact hch.of_live rfl fun hl => ⟨hl.1, Nat.eq_zero_of_add_eq_zero_right hl.2⟩
    | _ => exact hch
  have hmade : ∀ o, s.made o = true → s'.made o = true := fun o ho => by
    cases hc with
    | destroy _ _ hb => exact hb.made o ho
    | _ => exact ho
  refine ⟨hrest, hruns, fun u hu => .inl ⟨hfew.allTasks hu, ?_⟩, hmade, hknown, hctrl,
    fun _ hoff => hfew.off hoff hrest⟩
  rcases hc.effect_or h.inv with ⟨he, hall⟩ | ⟨ht, hs, hb⟩
  · exact (he.woken (hfew.allTasks hu)).stays
  · have hkill := h.inv.killReady ht hs
    obtain ⟨hne, hmem⟩ := (hb.mem hkill).mp hu
    have hsame : (s.killReady t).task u = s.task u := Function.update_of_ne hne _ _
    have hw := hb.task_eq_or hkill hmem hne
    rw [hsame] at hw
    rcases hw with heq | ⟨o, hw, -⟩
    · exact heq ▸ .same
    · exact .woken o hw

theorem Rt.CancelCall.passes {x : HandleId} (hc : CancelCall s x s') (h : s.Rest) :
    Passes s s' := by
  cases hc with
  | late => exact Shifts.passes (.single (.request x)) h
  | wake t a hx hcomp htask hcancel =>
      have hrep := Shifts.passes (reported_shifts hcomp) h
      have hcan := hcancel.passes hrep.rest
      exact hrep.trans hcan hcan.tasks

/-- Only fields of the calling task's record change, and waiters are made and freed. -/
theorem Rt.Passes.of_touched (hr : s'.Rest ∧ ∀ u, s'.Runs u ↔ s.Runs u)
    (hall : s'.allTasks = s.allTasks) (hch : s'.channels = s.channels)
    (hhd : s'.handles = s.handles) (hrun : s.Runs t)
    (hne : ∀ u, u ≠ t → s'.task u = s.task u) (hcall : (s'.task t).call = (s.task t).call)
    (hfd : (s'.task t).fdWaiter = (s.task t).fdWaiter)
    (hmade : ∀ o, s.made o = true → s'.made o = true)
    (hlive : ∀ ch, s'.Live (.chan ch) → s.Live (.chan ch)) (hctrl : s'.control = s.control) :
    Passes s s' := by
  have hfew : s.Fewer s' := .of_eq hall hch hhd
  refine ⟨hr.1, hr.2, fun u hu => .inl ⟨hall ▸ hu, ?_⟩, hmade,
    fun ch hk => hk.of_live hch (hlive ch), hctrl, fun _ hoff => hfew.off hoff hr.1⟩
  by_cases hut : u = t
  · subst hut
    exact .touched hrun.2 ((hr.2 u).mpr hrun).2 hcall hfd
  · rw [hne u hut]
    exact .same

theorem Register.made (hm : Register t s s') (o : Obj) (ho : s.made o = true) :
    s'.made o = true := by
  cases hm with
  | add => exact made_update ho
  | _ => exact ho

theorem Register.live_chan (hm : Register t s s') (ch : ChanId) (hl : s'.Live (.chan ch)) :
    s.Live (.chan ch) := by
  cases hm with
  | add => simpa [Live, Rt.addWaiter] using hl
  | abandon => exact ⟨hl.1, Nat.eq_zero_of_add_eq_zero_right hl.2⟩
  | _ => exact hl

theorem Registers.made (hm : Registers t s s') (o : Obj) (ho : s.made o = true) :
    s'.made o = true := by
  induction hm with
  | refl => exact ho
  | tail _ hm ih => exact hm.made o ih

theorem Registers.live_chan (hm : Registers t s s') (ch : ChanId) (hl : s'.Live (.chan ch)) :
    s.Live (.chan ch) := by
  induction hm with
  | refl => exact hl
  | tail _ hm ih => exact ih (hm.live_chan ch hl)

theorem Rt.SelectFails.passes (hf : SelectFails t s s') (h : s.Rest) (hrun : s.Runs t) :
    Passes s s' := by
  have hrest := hf.rest h hrun
  have hmade := Registers.made hf.registers
  have hlive := Registers.live_chan hf.registers
  obtain ⟨_, _, _, _, _, _, _, _, _, _, _, _, rfl⟩ := Registers.enrols hf.registers
  exact .of_touched hrest rfl rfl rfl hrun (fun u hu => Function.update_of_ne hu _ _) (by simp)
    (by simp) hmade hlive rfl

theorem Rt.Section.passes {does : Op → Prop} {c : CallId} {o : Option (Role × Rc)}
    (hs : Section does c s o s') (h : s.Rest) : Passes s s' := by
  cases hs with
  | idle o tape => exact Shifts.passes (.single (.quiet _ _ _ _ tape)) h
  | release x rc _ hr => exact Shifts.passes (.single hr.shift) h
  | fd o _ _ ho => exact Shifts.passes (ho.shifts h.inv) h
  | go rc _ hi hc => exact hc.passes h hi
  | chanCreate rc _ hi hc => exact hc.created.passes h hi
  | cancel x _ hc => exact hc.passes h
  | send kind ch value rc _ _ hsend => exact Moves.passes hsend.moves h
  | sendNot => exact Shifts.passes .refl h
  | recv ch out rc _ _ hrecv => exact Moves.passes hrecv.moves h
  | recvNot => exact Shifts.passes .refl h
  | close ch rc _ _ hc => exact Moves.passes hc.moves h
  | destroy ch rc _ hl hd => exact Moves.passes (hd.moves hl.1) h
  | unselect t rc _ hrun hf => exact hf.passes h hrun
  | unwait t rc x hd hfd hrun hq hw =>
      have hq := hq
      obtain ⟨gens, polling, interest, filters, tape, rfl⟩ := hq
      have hsec : Section does c s _ _ :=
        .unwait t rc x hd hfd hrun ⟨gens, polling, interest, filters, tape, rfl⟩ hw
      have hrest := hsec.rest h
      refine .of_touched hrest rfl rfl rfl hrun (fun u hu => ?_) ?_ ?_ (fun o ho => ?_)
        (fun ch hl => ?_) rfl
      · simp [Rt.wasteFd, Rt.waste, Rt.touchFd, Rt.modTask, hu]
      · simp [Rt.wasteFd, Rt.waste, Rt.touchFd, Rt.modTask]
      · simp [Rt.wasteFd, Rt.waste, Rt.touchFd, Rt.modTask]
      · exact made_update ho
      · simpa [Live, Rt.wasteFd, Rt.waste, Rt.touchFd, Rt.modTask] using hl

theorem Rt.Rest.finishFd_passes {w : FdWaiterId} (h : s.Rest) (hrun : s.Runs t)
    (hw : (s.task t).fdWaiter = some w) :
    (s.finishFd t w).Rest ∧ (∀ u, (s.finishFd t w).Runs u ↔ s.Runs u) ∧
      ∀ ch, s.Known ch → (s.finishFd t w).Known ch := by
  obtain ⟨hrest, hruns⟩ := h.finishFd hrun hw
  refine ⟨hrest, hruns, fun ch hch => hch.of_live rfl fun hl => ?_⟩
  simpa [Live, Rt.finishFd] using hl

end Microthread
