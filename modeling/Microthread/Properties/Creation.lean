import Microthread.Properties.Counters
import Microthread.System.Records
import Microthread.System.Trace

/-!
# Creating a task

A creation that fails at any point undoes what it has done, and answers with a negative code
or no handle. One that succeeds answers with the identifier of the new task, which it takes
from a counter, or with its handle. The counter is a 32-bit number that only goes on: as long
as it is positive it is above the identifiers of all tasks. After the largest number it is
negative, and a creation that succeeds then reports a failure.
-/

namespace Microthread

open Foundation Rt

/-! ## Sections that create nothing -/

namespace Rt

variable {s s' a : Rt} {t : TaskId} {x : HandleId} {ch : ChanId} {c : CallId}

/-- No task is registered, and the counter of identifiers stands still. -/
structure Barren (s s' : Rt) : Prop where
  nextId : s'.nextId = s.nextId
  mem : ∀ u ∈ s'.allTasks, u ∈ s.allTasks

theorem Barren.of_eq (hn : s'.nextId = s.nextId) (hall : s'.allTasks = s.allTasks) :
    s.Barren s' :=
  ⟨hn, fun _ hu => hall ▸ hu⟩

theorem Barren.refl (s : Rt) : s.Barren s := .of_eq rfl rfl

theorem Barren.trans (h : s.Barren a) (h' : a.Barren s') : s.Barren s' :=
  ⟨h'.nextId.trans h.nextId, fun u hu => h.mem u (h'.mem u hu)⟩

end Rt

variable {s s' : Rt} {t : TaskId}

theorem HandleShift.barren (hm : HandleShift s s') : s.Barren s' := by
  cases hm <;> exact .of_eq rfl rfl

theorem HandleShifts.barren (hm : HandleShifts s s') : s.Barren s' := by
  induction hm with
  | refl => exact .refl s
  | tail _ hm ih => exact ih.trans hm.barren

theorem Drain.barren {ch : ChanId} (hm : Drain ch s s') : s.Barren s' := by
  cases hm <;> exact .of_eq rfl rfl

theorem Drains.barren {ch : ChanId} (hm : Drains ch s s') : s.Barren s' := by
  induction hm with
  | refl => exact .refl s
  | tail _ hm ih => exact ih.trans hm.barren

theorem Tick.barren {k : FdCause} (hm : Tick k s s') : s.Barren s' := by
  cases hm with
  | fd hm => cases hm <;> exact .of_eq rfl rfl
  | _ => exact .of_eq rfl rfl

theorem Ticks.barren {k : FdCause} (hm : Ticks k s s') : s.Barren s' := by
  induction hm with
  | refl => exact .refl s
  | tail _ hm ih => exact ih.trans hm.barren

theorem Registers.barren (hm : Registers t s s') : s.Barren s' := by
  obtain ⟨_, _, _, _, _, _, _, _, _, _, _, _, rfl⟩ := Registers.enrols hm
  exact .of_eq rfl rfl

theorem Buries.barren (hb : Buries t s s') : s.Barren s' := by
  obtain @⟨a, hm, -, -, -⟩ := hb
  have hreap : a.Barren (a.reap t) := by
    refine ⟨?_, fun u hu => ?_⟩
    · unfold Rt.reap
      split <;> rfl
    · rw [reap_allTasks] at hu
      exact List.mem_of_mem_erase hu
  exact (HandleShifts.barren hm).trans hreap

theorem Cancels.barren (hc : Cancels t s s') : s.Barren s' := by
  cases hc with
  | destroy _ _ hb =>
      have hkill : s.Barren (s.killReady t) := .of_eq rfl rfl
      exact hkill.trans hb.barren
  | _ => exact .of_eq rfl rfl

theorem Rt.CancelCall.barren {x : HandleId} (hc : CancelCall s x s') : s.Barren s' := by
  cases hc with
  | late => exact .of_eq rfl rfl
  | wake u a hx hcomp htask hcancel =>
      have hreported : s.Barren (s.reported x) := .of_eq rfl rfl
      exact hreported.trans hcancel.barren

theorem Rt.Marked.barren (hm : Marked s s') : s.Barren s' := by
  obtain rfl | ⟨x, status, -, rfl⟩ := hm <;> exact .of_eq rfl rfl

theorem Rt.FdOp.barren {does : Op → Prop} (ho : FdOp does s s') (h : s.Inv) : s.Barren s' := by
  have quiet : ∀ {r : Rt}, Regen s r → s.Barren r := by
    rintro r ⟨gens, tape, rfl⟩
    exact .of_eq rfl rfl
  cases ho with
  | tape => exact .of_eq rfl rfl
  | adopt fd flags => exact quiet (s.fdAdopt_regen fd flags)
  | release fd => exact quiet (s.fdRelease_regen fd)
  | close fd hd =>
      obtain ⟨a, hr, hm⟩ := h.fdCloseBegin fd
      exact (quiet hr).trans (Ticks.barren (FdShifts.ticks hm))
  | unmark fd => exact quiet (s.fdCloseEnd_regen fd)
  | forget fd => exact .of_eq rfl rfl

theorem transfer_barren (s : Rt) (ch : ChanId) (sender : CallId) (kind : SendKind) (src : Addr)
    (receiver : CallId) (out : Addr) : s.Barren (s.transfer ch sender kind src receiver out) :=
  .of_eq rfl rfl

theorem enqueue_barren (s : Rt) (ch : ChanId) (c : CallId) (kind : SendKind) (src : Addr) :
    s.Barren (s.enqueue ch c kind src) :=
  .of_eq rfl rfl

theorem dequeue_barren (s : Rt) (ch : ChanId) (c : CallId) (out : Addr) :
    s.Barren (s.dequeue ch c out) :=
  .of_eq rfl rfl

theorem wakeChan_barren (s : Rt) (r : WaitqRef) (t : TaskId) (rc : Rc) :
    s.Barren (s.wakeChan r t rc) :=
  .of_eq rfl rfl

theorem wakeSelect_barren (s : Rt) (t : TaskId) (items : List TaskId) (role : Role) (rc : Rc)
    (index : Nat) : s.Barren (s.wakeSelect t items role rc index) :=
  .of_eq rfl rfl

theorem Rt.SendNow.barren {c : CallId} {kind : SendKind} {ch : ChanId} {value : Addr} {rc : Rc}
    (hs : SendNow s c kind ch value rc s') : s.Barren s' := by
  cases hs with
  | closed => exact .refl s
  | plain t => exact (transfer_barren ..).trans (wakeChan_barren ..)
  | select w items => exact (transfer_barren ..).trans (wakeSelect_barren ..)
  | buffer => exact enqueue_barren ..

theorem Rt.Filled.barren {ch : ChanId} (hf : Filled s ch s') : s.Barren s' := by
  cases hf with
  | nothing => exact .refl s
  | plain t => exact (enqueue_barren ..).trans (wakeChan_barren ..)
  | select w items => exact (enqueue_barren ..).trans (wakeSelect_barren ..)

theorem Rt.RecvNow.barren {c : CallId} {ch : ChanId} {out : Addr} {rc : Rc}
    (hr : RecvNow s c ch out rc s') : s.Barren s' := by
  cases hr with
  | buffer a _ hf => exact (dequeue_barren ..).trans hf.barren
  | plain t => exact (transfer_barren ..).trans (wakeChan_barren ..)
  | select w items => exact (transfer_barren ..).trans (wakeSelect_barren ..)
  | closedPlain t => exact wakeChan_barren ..
  | closedSelect w items => exact wakeSelect_barren ..
  | closed => exact .refl s

theorem Rt.Closes.barren {ch : ChanId} {rc : Rc} (hc : Closes s ch rc s') : s.Barren s' := by
  cases hc with
  | again => exact .refl s
  | drained _ _ hd =>
      have hmark : s.Barren (s.modChan ch fun k => { k with closed := true }) := .of_eq rfl rfl
      exact hmark.trans (Drains.barren hd)

theorem Rt.Destroys.barren {ch : ChanId} {rc : Rc} (hd : Destroys s ch rc s') : s.Barren s' := by
  cases hd with
  | refused => exact .refl s
  | dropped => exact .of_eq rfl rfl
  | drained a hd =>
      have hmark : s.Barren (s.modChan ch fun k => { k with closed := true }) := .of_eq rfl rfl
      have hdrop : a.Barren (a.dropChan ch) := .of_eq rfl rfl
      exact (hmark.trans (Drains.barren hd)).trans hdrop

theorem Rt.ChanCreated.barren (hc : ChanCreated s s') : s.Barren s' := by
  cases hc with
  | no a hs hn => exact .of_eq hn (Moves.allTasks_eq (Shifts.moves (Wastes.shifts hs)))
  | chan tape elemSize capacity => exact .of_eq rfl rfl

/-- A section creates nothing, unless it is the section of a creation. -/
theorem Rt.Section.barren {does : Op → Prop} {c : CallId} {o : Option (Role × Rc)}
    (hs : Section does c s o s') (h : s.Inv) (hgo : ¬does .go) : s.Barren s' := by
  cases hs with
  | idle o tape => exact .of_eq rfl rfl
  | release x rc _ hr => cases hr <;> exact .of_eq rfl rfl
  | fd o _ _ ho => exact ho.barren h
  | go rc hd => exact absurd hd hgo
  | chanCreate rc _ _ hc => exact hc.barren
  | cancel x _ hc => exact hc.barren
  | send kind ch value rc _ _ hsend => exact hsend.barren
  | sendNot => exact .refl s
  | recv ch out rc _ _ hrecv => exact hrecv.barren
  | recvNot => exact .refl s
  | close ch rc _ _ hc => exact hc.barren
  | destroy ch rc _ _ hd => exact hd.barren
  | unselect u rc _ _ hf => exact Registers.barren hf.registers
  | unwait u rc x _ _ _ hq =>
      obtain ⟨gens, polling, interest, filters, tape, rfl⟩ := hq
      exact .of_eq rfl rfl

theorem Parks.barren {c : CallId} {q p : Pc} (hp : Parks t c q s p s')
    (hws : (s.task t).selectWaiters = []) : s.Barren s' := by
  cases hp with
  | select cases plan _ hch hp =>
      have key := fun tape => Registers.barren (enrolled_registers hws hch plan tape)
      cases hp with
      | untimed tape => exact (key tape).trans (.of_eq rfl rfl)
      | timed tape => exact (key tape).trans (.of_eq rfl rfl)
  | fd timers wakeNs x use _ hq =>
      obtain ⟨gens, polling, interest, filters, tape, rfl⟩ := hq
      exact .of_eq rfl rfl
  | _ => exact .of_eq rfl rfl

/-! ## The counter -/

theorem bumpId_lt (n : Int) : bumpId n < 2 ^ 31 := by
  simp only [bumpId, Int.bmod]
  split <;> omega

/-- The counter goes on by one unless it overflows. -/
theorem bumpId_of_pos {n : Int} (hn : 0 < n) (hlt : n < 2 ^ 31) (hpos : 0 < bumpId n) :
    bumpId n = n + 1 := by
  simp only [bumpId, Int.bmod] at hpos ⊢
  split at hpos <;> omega

theorem Task.Step.id_eq {own : Prop} {k k' : Task} (h : k.Step own k') : k'.id = k.id := by
  cases h with
  | woken o hw => cases hw <;> rfl
  | leaves _ _ hl => cases hl <;> rfl
  | _ => rfl

namespace Rt

variable {s s' a : Rt} {t : TaskId}

/-- A positive counter is above the identifiers of all tasks. -/
structure Numbered (s : Rt) : Prop where
  small : s.nextId < 2 ^ 31
  below : 0 < s.nextId → ∀ u ∈ s.allTasks, (s.task u).id < s.nextId

theorem Numbered.of_barren (h : s.Numbered) (hb : s.Barren s')
    (hid : ∀ u ∈ s'.allTasks, (s'.task u).id = (s.task u).id) : s'.Numbered := by
  refine ⟨hb.nextId ▸ h.small, fun hpos u hu => ?_⟩
  rw [hb.nextId] at hpos ⊢
  rw [hid u hu]
  exact h.below hpos u (hb.mem u hu)

theorem Numbered.of_empty (hall : s.allTasks = []) (hn : s.nextId < 2 ^ 31) : s.Numbered :=
  ⟨hn, fun _ u hu => by simp [hall] at hu⟩

/-- Nothing that is registered changes. -/
structure Unmade (s s' : Rt) : Prop where
  runq : s'.runq = s.runq
  allTasks : s'.allTasks = s.allTasks
  liveCount : s'.liveCount = s.liveCount
  handles : s'.handles = s.handles
  task : ∀ u ∈ s.allTasks, s'.task u = s.task u

theorem Unmade.refl (s : Rt) : s.Unmade s := ⟨rfl, rfl, rfl, rfl, fun _ _ => rfl⟩

theorem Unmade.trans (h : s.Unmade a) (h' : a.Unmade s') : s.Unmade s' :=
  ⟨h'.runq.trans h.runq, h'.allTasks.trans h.allTasks, h'.liveCount.trans h.liveCount,
    h'.handles.trans h.handles, fun u hu =>
      (h'.task u (h.allTasks.symm ▸ hu)).trans (h.task u hu)⟩

end Rt

theorem Waste.unmade (hm : Waste s s') (h : s.Inv) : s.Unmade s' := by
  cases hm with
  | task k nextId =>
      exact ⟨rfl, rfl, rfl, rfl, fun u hu => Function.update_of_ne (h.heap.task_lt hu).ne _ _⟩
  | _ => exact ⟨rfl, rfl, rfl, rfl, fun _ _ => rfl⟩

theorem Wastes.unmade (hm : Wastes s s') (h : s.Inv) : s.Unmade s' := by
  induction hm with
  | refl => exact .refl s
  | tail hms hm ih => exact ih.trans (hm.unmade (Shifts.inv (Wastes.shifts hms) h))

namespace Rt

variable {s s' a : Rt} {t : TaskId}

/-- A ready task `t` with the new identifier `n` is registered, and nothing else changes. -/
structure Spawned (s s' : Rt) (t : TaskId) (n : Int) : Prop where
  new : t ∉ s.allTasks
  allTasks : s'.allTasks = t :: s.allTasks
  runq : s'.runq.items = s.runq.items ++ [t]
  liveCount : s'.liveCount = s.liveCount + 1
  ready : (s'.task t).state = .ready
  id : (s'.task t).id = n
  fresh : ∀ u ∈ s.allTasks, (s.task u).id ≠ n
  task : ∀ u ∈ s.allTasks, s'.task u = s.task u

theorem Numbered.fresh (h : s.Numbered) (hpos : 0 < s.nextId) :
    ∀ u ∈ s.allTasks, (s.task u).id ≠ s.nextId :=
  fun u hu => (h.below hpos u hu).ne

theorem Inv.spawned (h : s.Inv) (hn : s.Numbered) (hpos : 0 < s.nextId) (tape : List Bool) :
    s.Spawned ({ s with tape := tape } : Rt).spawn s.nextAddr s.nextId := by
  have hlt : ∀ u ∈ s.allTasks, u < s.nextAddr := fun u hu => h.heap.task_lt hu
  have hself : ({ s with tape := tape } : Rt).spawn.task s.nextAddr = { id := s.nextId } :=
    Function.update_self ..
  exact ⟨fun hu => lt_irrefl _ (hlt _ hu), rfl, rfl, rfl, by rw [hself], by rw [hself],
    hn.fresh hpos, fun u hu => Function.update_of_ne (hlt u hu).ne _ _⟩

theorem Inv.spawnedHandle (h : s.Inv) (hn : s.Numbered) (hpos : 0 < s.nextId)
    (tape : List Bool) :
    s.Spawned ({ s with tape := tape } : Rt).spawnHandle (s.nextAddr + 1) s.nextId := by
  have hlt : ∀ u ∈ s.allTasks, u < s.nextAddr + 1 := fun u hu =>
    (h.heap.task_lt hu).trans (Nat.lt_succ_self _)
  have hself : ({ s with tape := tape } : Rt).spawnHandle.task (s.nextAddr + 1) =
      { id := s.nextId, handle := some s.nextAddr } := Function.update_self ..
  exact ⟨fun hu => lt_irrefl _ (hlt _ hu), rfl, rfl, rfl, by rw [hself], by rw [hself],
    hn.fresh hpos, fun u hu => Function.update_of_ne (hlt u hu).ne _ _⟩

theorem Numbered.spawned {id : Int} (h : s.Numbered) (hs : s.Spawned s' t id)
    (hid : id = s.nextId) (hpos : 0 < s.nextId) (hnext : s'.nextId = bumpId s.nextId) :
    s'.Numbered := by
  refine ⟨hnext ▸ bumpId_lt _, fun hpos' u hu => ?_⟩
  rw [hnext] at hpos' ⊢
  rw [bumpId_of_pos hpos h.small hpos']
  rw [hs.allTasks] at hu
  rcases List.mem_cons.mp hu with rfl | hu
  · rw [hs.id, hid]
    omega
  · rw [hs.task u hu]
    have hlt := h.below hpos u hu
    omega

/-- The counter stays above the identifiers. -/
theorem Made.numbered {wantHandle : Bool} {r : Int × Option HandleId × Rt}
    (hm : Made s wantHandle r) (hi : s.Inv) (h : s.Numbered) (hpos : 0 < s.nextId) :
    r.2.2.Numbered := by
  cases hm with
  | no id a _ hs hn =>
      have hsame := Wastes.unmade hs hi
      have hbelow : ∀ u ∈ a.allTasks, (a.task u).id < s.nextId := fun u hu => by
        rw [hsame.allTasks] at hu
        rw [hsame.task u hu]
        exact h.below hpos u hu
      rcases hn with hn | hn
      · exact ⟨hn ▸ h.small, fun _ u hu => hn ▸ hbelow u hu⟩
      · refine ⟨hn ▸ bumpId_lt _, fun hpos' u hu => ?_⟩
        simp only [hn] at hpos' ⊢
        rw [bumpId_of_pos hpos h.small hpos']
        exact (hbelow u hu).trans (by omega)
  | task tape => exact h.spawned (hi.spawned h hpos tape) rfl hpos rfl
  | handle tape => exact h.spawned (hi.spawnedHandle h hpos tape) rfl hpos rfl

/-! ## What a creation answers -/

/-- `mt_go_with_stack` answers with a negative number and has made nothing, or with the
identifier of the task that it has made. -/
def GoSound (s : Rt) (fn : Bool) (stackSize : Nat) : Prop :=
  ((s.goWithStack fn stackSize).1 < 0 ∧ s.Unmade (s.goWithStack fn stackSize).2) ∨
    (0 ≤ (s.goWithStack fn stackSize).1 ∧
      (s.goWithStack fn stackSize).2.handles = s.handles ∧
      ∃ t, s.Spawned (s.goWithStack fn stackSize).2 t (s.goWithStack fn stackSize).1)

/-- `mt_go_handle_with_stack` answers with `NULL` and has made nothing, or with the new handle
of the task that it has made. -/
def GoHandleSound (s : Rt) (fn : Bool) (stackSize : Nat) : Prop :=
  ((s.goHandleWithStack fn stackSize).1 = none ∧
      s.Unmade (s.goHandleWithStack fn stackSize).2) ∨
    ∃ x t id, (s.goHandleWithStack fn stackSize).1 = some x ∧ x ∉ s.handles ∧
      (s.goHandleWithStack fn stackSize).2.handles = x :: s.handles ∧
      ((s.goHandleWithStack fn stackSize).2.handle x).task = some t ∧
      ((s.goHandleWithStack fn stackSize).2.task t).handle = some x ∧
      s.Spawned (s.goHandleWithStack fn stackSize).2 t id

theorem Spawned.of_unmade {id : Int} (h : s.Unmade a) (hs : a.Spawned s' t id) :
    s.Spawned s' t id := by
  refine ⟨h.allTasks ▸ hs.new, hs.allTasks.trans (h.allTasks ▸ rfl), hs.runq.trans (h.runq ▸ rfl),
    hs.liveCount.trans (h.liveCount ▸ rfl), hs.ready, hs.id, fun u hu => ?_, fun u hu => ?_⟩
  · rw [← h.task u hu]
    exact hs.fresh u (h.allTasks.symm ▸ hu)
  · exact (hs.task u (h.allTasks.symm ▸ hu)).trans (h.task u hu)

/-- The identifiers of a freshly initialised runtime start at 1. -/
theorem init_nextId (hi : s.initialized = false) :
    s.init.2.nextId < 2 ^ 31 ∧ (s.init.1 = .ok → s.init.2.nextId = 1) := by
  unfold Rt.init
  rw [if_neg (by simp [hi])]
  obtain ⟨ok, tape, hask⟩ := s.reset.ask_eq
  rw [hask]
  cases ok with
  | false => exact ⟨show (0 : Int) < 2 ^ 31 by decide, fun hok => by cases hok⟩
  | true => exact ⟨show (1 : Int) < 2 ^ 31 by decide, fun _ => rfl⟩

/-- The runtime is initialised before anything is created, or that fails. -/
theorem init_ready (hi : s.Inv) (hoff : s.initialized = false → s.Off) (hn : s.Numbered)
    (hpos : s.initialized = true → 0 < s.nextId) :
    s.Unmade s.init.2 ∧ s.init.2.Numbered ∧
      (s.init.1 = .ok → s.init.2.Inv ∧ 0 < s.init.2.nextId) := by
  cases hinit : s.initialized with
  | true =>
      rw [Sys.init_of_initialized hinit]
      exact ⟨.refl s, hn, fun _ => ⟨hi, hpos hinit⟩⟩
  | false =>
      have hboot := Sys.init_booted hinit (hoff hinit)
      have hempty := hoff hinit
      obtain ⟨hsmall, hone⟩ := init_nextId hinit
      refine ⟨⟨hboot.off.runq.trans hempty.runq.symm, hboot.off.allTasks.trans hempty.allTasks.symm,
        hboot.off.live.trans hempty.live.symm, hboot.off.handles.trans hempty.handles.symm,
        fun u _ => by rw [hboot.task]⟩, .of_empty hboot.off.allTasks hsmall, fun hok => ?_⟩
      exact ⟨hboot.off.inv, by rw [hone hok]; decide⟩

theorem Inv.goSound (hi : s.Inv) (hoff : s.initialized = false → s.Off) (hn : s.Numbered)
    (hpos : s.initialized = true → 0 < s.nextId) (fn : Bool) (stackSize : Nat) :
    s.GoSound fn stackSize := by
  obtain ⟨hsame, hnum, hready⟩ := init_ready hi hoff hn hpos
  have herr : Rc.err.toInt < 0 := by decide
  unfold GoSound goWithStack
  generalize s.init = r at hsame hnum hready
  obtain ⟨rc, a⟩ := r
  cases rc with
  | ok =>
      obtain ⟨ha, hposa⟩ := hready rfl
      simp only at ha hnum hposa hsame ⊢
      have hmade := ha.createTaskInternal fn stackSize false
      generalize a.createTaskInternal fn stackSize false = q at hmade ⊢
      cases hmade with
      | no id b hneg hs => exact .inl ⟨hneg, hsame.trans (Wastes.unmade hs ha)⟩
      | task tape =>
          exact .inr ⟨hposa.le, hsame.handles, _, .of_unmade hsame (ha.spawned hnum hposa tape)⟩
      | handle tape hwant => cases hwant
  | _ => exact .inl ⟨herr, hsame⟩

theorem Inv.goHandleSound (hi : s.Inv) (hoff : s.initialized = false → s.Off) (hn : s.Numbered)
    (hpos : s.initialized = true → 0 < s.nextId) (fn : Bool) (stackSize : Nat) :
    s.GoHandleSound fn stackSize := by
  obtain ⟨hsame, hnum, hready⟩ := init_ready hi hoff hn hpos
  unfold GoHandleSound goHandleWithStack
  generalize s.init = r at hsame hnum hready
  obtain ⟨rc, a⟩ := r
  cases rc with
  | ok =>
      obtain ⟨ha, hposa⟩ := hready rfl
      simp only at ha hnum hposa hsame ⊢
      have hmade := ha.createTaskInternal fn stackSize true
      generalize a.createTaskInternal fn stackSize true = q at hmade ⊢
      cases hmade with
      | no id b hneg hs => exact .inl ⟨if_pos hneg, hsame.trans (Wastes.unmade hs ha)⟩
      | task tape hwant => cases hwant
      | handle tape =>
          refine .inr ⟨a.nextAddr, a.nextAddr + 1, a.nextId, if_neg hposa.le.not_gt, fun hx => ?_,
            hsame.handles ▸ rfl, ?_, ?_, .of_unmade hsame (ha.spawnedHandle hnum hposa tape)⟩
          · exact ha.handle_ne (hsame.handles.symm ▸ hx) rfl
          · simp [Rt.spawnHandle]
          · simp [Rt.spawnHandle]
  | _ => exact .inl ⟨rfl, hsame⟩

end Rt

/-! ## Runs -/

namespace Sys

variable {s s' s₀ : Sys} {a : Actor} {c : CallId} {act : Act}

/-- A creation finds the counter of an initialised runtime positive. -/
def Counting (s : Sys) : Act → Prop
  | .cont a _ =>
    match s.pc a.agent with
    | .called _ (.go ..) => s.rt.initialized = true → 0 < s.rt.nextId
    | _ => True
  | _ => True

instance (s : Sys) (act : Act) : Decidable (s.Counting act) := by
  induction act using Act.casesOn with
  | cont a env =>
      dsimp only [Counting]
      generalize s.pc a.agent = p
      induction p using Pc.casesOn with
      | called c call =>
          induction call using Api.casesOn with
          | go => exact inferInstanceAs (Decidable (_ → _))
          | _ => exact instDecidableTrue
      | _ => exact instDecidableTrue
  | _ => exact instDecidableTrue

/-- The step is the section of a creation. -/
def Creating (s : Sys) (act : Act) : Prop :=
  ∃ a env c fn n b, act = .cont a env ∧ s.pc a.agent = .called c (.go fn n b)

/-- Every other step creates nothing, or ends with no task at all. -/
theorem Case.barren (hc : Case s act s') (hok : s.Ok) (hnot : ¬s.Creating act) :
    s.rt.Barren s'.rt ∨ (s'.rt.allTasks = [] ∧ s'.rt.nextId < 2 ^ 31) := by
  have hi := hok.rest.inv
  have same : ∀ {r r' : Rt}, r.Barren r' → r.nextId = s.rt.nextId → r.allTasks = s.rt.allTasks →
      s.rt.Barren r' := fun h hn hall => (Barren.of_eq hn hall).trans h
  cases hc with
  | calls a call => cases a <;> exact .inl (.of_eq rfl rfl)
  | acts a env c o p es os sel hen hcall hnp hr _ hs hon =>
      refine .inl ((hs.barren hi fun hgo => hnot ?_).trans (.of_eq rfl rfl))
      obtain ⟨d, fn, n, b, hpc⟩ := hgo
      exact ⟨a, env, d, fn, n, b, rfl, hpc⟩
  | parks w t env c p hw hl hcall hnp hp hm =>
      have hpark := hp.barren (hok.rest.noWaiters t ((hok.runs t).mpr ⟨w, hw⟩))
      have hleave : ∀ r : Rt, r.Barren r.leave := fun r => .of_eq rfl rfl
      exact .inl ((hpark.trans (hleave _)).trans hm.barren)
  | finishes w t hw hl hpc hb => exact .inl (same hb.barren rfl rfl)
  | halts n env c hpc hr hm =>
      have hhalt := Ticks.barren (FdShifts.ticks hm)
      exact .inl ((same hhalt rfl rfl).trans (.of_eq rfl rfl))
  | shutsDown n env c hpc hinit hr halone hd => exact .inr ⟨hd.off.allTasks, hd.nextId ▸ by decide⟩
  | loops w q lock _ hl hm => exact .inl (Ticks.barren hm)
  | dispatches w env t q hw hl hq hm => exact .inl (same hm.barren rfl rfl)
  | _ => exact .inl (.of_eq rfl rfl)

/-- The section of a creation. -/
theorem go_of_step {env : Env} {fn : Bool} {n : Nat} {b : Bool}
    (hpc : s.pc a.agent = .called c (.go fn n b)) (hs : machine.step s (.cont a env) = some s') :
    ∃ rc, s'.rt = ((if b then ((s.tick env.tape).rt.goHandleWithStack fn n).2
      else ((s.tick env.tape).rt.goWithStack fn n).2).record (.done c .neither rc)).record
        (.ret c rc) := by
  rw [callApi_of_step hpc hs]
  simp only [callApi, ensureInit, goWithStack, goHandleWithStack]
  generalize (s.tick env.tape).rt.init = r
  obtain ⟨rc, r⟩ := r
  cases b with
  | false =>
      cases rc with
      | ok => exact ⟨_, rfl⟩
      | _ => exact ⟨_, rfl⟩
  | true =>
      cases rc with
      | ok => exact ⟨_, rfl⟩
      | _ => exact ⟨_, rfl⟩

/-- The section of a creation takes the identifier from the counter. -/
theorem numbered_creates (hok : s.Ok) (h : s.rt.Numbered) (hcount : s.Counting act)
    (hgo : s.Creating act) (hs : machine.step s act = some s') : s'.rt.Numbered := by
  obtain ⟨a, env, c, fn, n, b, rfl, hpc⟩ := hgo
  simp only [Counting, hpc] at hcount
  have hok' := hok.tick env.tape
  have hnum : (s.tick env.tape).rt.Numbered := ⟨h.small, h.below⟩
  obtain ⟨-, hnum', hready⟩ := init_ready hok'.rest.inv (fun hi => (hok'.off hi).1) hnum hcount
  obtain ⟨rc, heq⟩ := go_of_step hpc hs
  have hlog : ∀ {r : Rt}, r.Numbered → ((r.record (.done c .neither rc)).record
      (.ret c rc)).Numbered := fun hr => ⟨hr.small, hr.below⟩
  rw [heq]
  refine hlog ?_
  simp only [goWithStack, goHandleWithStack]
  generalize (s.tick env.tape).rt.init = r at hnum' hready
  obtain ⟨rc, r⟩ := r
  cases rc with
  | ok =>
      obtain ⟨hi, hpos⟩ := hready rfl
      have hmade := (hi.createTaskInternal fn n b).numbered hi hnum' hpos
      cases b with
      | false => exact hmade
      | true => exact hmade
  | _ =>
      cases b with
      | false => exact hnum'
      | true => exact hnum'

/-- Every other step leaves the identifiers alone. -/
theorem Case.numbered (hc : Case s act s') (hok : s.Ok) (hnot : ¬s.Creating act)
    (h : s.rt.Numbered) : s'.rt.Numbered := by
  rcases hc.barren hok hnot with hbarren | ⟨hall, hsmall⟩
  · refine h.of_barren hbarren fun u hu => ?_
    have hmem := hbarren.mem u hu
    rcases hc.recorded hok hu with ⟨-, hstep⟩ | ⟨hnew, -⟩
    · exact hstep.id_eq
    · have hmade := (hok.rest.inv.heap.task u hmem).1
      rw [hnew] at hmade
      cases hmade
  · exact .of_empty hall hsmall

theorem Prepared.numbered (hp : s.Prepared s₀) (hok : s.Ok) (h : s.rt.Numbered) :
    s₀.rt.Numbered := by
  obtain ⟨tape, rfl | rfl⟩ := hp
  · exact ⟨h.small, h.below⟩
  · have hok' := hok.tick tape
    have hnum : (s.tick tape).rt.Numbered := ⟨h.small, h.below⟩
    cases hinit : (s.tick tape).rt.initialized with
    | true =>
        rw [Sys.boot, init_of_initialized hinit]
        exact hnum
    | false =>
        have hboot := init_booted hinit (hok'.off hinit).1
        exact .of_empty hboot.off.allTasks (init_nextId hinit).1

/-- The counter stays above the identifiers of the tasks. -/
theorem numbered_of_reach (h : machine.Reach (Under Counting) s) : s.rt.Numbered := by
  refine h.invariant (I := fun s => s.rt.Numbered) (fun s hs => ?_) fun s act s' hr ih hact hs => ?_
  · obtain ⟨kind, rfl⟩ := hs
    exact .of_empty rfl (by simp)
  · have hok := ok_of_under hr
    by_cases hgo : s.Creating act
    · exact numbered_creates hok ih hact.2 hgo hs
    · obtain ⟨s₀, hp, hcase⟩ := hok.step_cases hact.1 hs
      refine hcase.numbered (hp.ok hok) (fun hgo' => hgo ?_) (hp.numbered hok ih)
      obtain ⟨a, env, c, fn, n, b, rfl, hpc⟩ := hgo'
      exact ⟨a, env, c, fn, n, b, rfl, hp.pc_eq ▸ hpc⟩

/-! ### The end of the counter -/

/-- The runtime is idle for the external thread 0, and the counter stands at `n`. -/
structure Poised (s : Sys) (n : Int) : Prop where
  initialized : s.rt.initialized = true
  lock : s.lock = none
  pc : s.pc (.ext 0) = .user
  nextId : s.rt.nextId = n

/-- What thread 0 calls to use up an identifier. -/
def nextGo : Api := .go true minStackSizeBytes false

theorem createTask_ample {r : Rt} (htape : r.tape = []) :
    (r.createTaskInternal true minStackSizeBytes false).2.2 = r.spawn := by
  obtain ⟨⟩ := r
  cases htape
  rfl

/-- The section of that call, in an initialised runtime. -/
theorem callApi_nextGo (c : CallId) (hinit : s.rt.initialized = true) (htape : s.rt.tape = []) :
    ∃ rc, s.callApi (.ext 0) c {} nextGo = s.ret (.ext 0) c .neither rc s.rt.spawn := by
  have hmade := createTask_ample htape
  simp only [nextGo, callApi, ensureInit, init_of_initialized hinit]
  generalize s.rt.createTaskInternal true minStackSizeBytes false = r at hmade
  obtain ⟨id, x, r⟩ := r
  exact ⟨_, congrArg _ hmade⟩

/-- A creation moves the counter on. -/
theorem Poised.next {n : Int} (hp : s.Poised n) (hn : 0 < n)
    (h : machine.Reach (Under Counting) s) :
    ∃ s', machine.Reach (Under Counting) s' ∧ s'.Poised (bumpId n) := by
  have henter : machine.step s (.api (.ext 0) nextGo) = some (s.enter (.ext 0) nextGo) :=
    if_pos (by simp [enabled, Actor.agent, hp.pc])
  have hpc : (s.enter (.ext 0) nextGo).pc (.ext 0) = .called s.nextCall nextGo := by
    simp [enter, setPc, Actor.agent]
  have hreach : machine.Reach (Under Counting) (s.enter (.ext 0) nextGo) :=
    h.step ⟨by simp [Contract], by simp [Counting]⟩ henter
  have hready : (s.enter (.ext 0) nextGo).rt.initialized = true := hp.initialized
  have hnext : (s.enter (.ext 0) nextGo).rt.nextId = n := hp.nextId
  have hfree : (s.enter (.ext 0) nextGo).lock = none := hp.lock
  generalize s.enter (.ext 0) nextGo = s₁ at hpc hreach hready hnext hfree
  obtain ⟨rc, hgo⟩ := callApi_nextGo (s := s₁.tick []) s.nextCall hready rfl
  have hcont : machine.step s₁ (.cont (.ext 0) {}) =
      some ((s₁.tick []).ret (.ext 0) s.nextCall .neither rc (s₁.tick []).rt.spawn) := by
    rw [← hgo]
    have hpc' : (s₁.tick []).pc (Actor.ext 0).agent = .called s.nextCall nextGo := hpc
    have hopen : (nextGo.unlocked || s₁.lock.isNone) = true := by simp [hfree]
    have hsection : (s₁.tick []).continueCall (.ext 0) {} =
        some ((s₁.tick []).callApi (.ext 0) s.nextCall {} nextGo) := by
      simp only [continueCall, hpc']
      exact if_pos hopen
    exact hsection
  refine ⟨_, hreach.step ⟨?_, ?_⟩ hcont, ?_⟩
  · simp [Contract, SectionOk, Actor.agent, hpc, nextGo, Api.Valid]
  · simp [Counting, Actor.agent, hpc, nextGo, hnext, hn]
  · exact ⟨hready, hfree, by simp [ret, setPc, Actor.agent], congrArg bumpId hnext⟩

/-- The counter overflows in the end. -/
theorem exists_poised (k : Nat) (hk : k < 2 ^ 31) : ∃ s, machine.Reach (Under Counting) s ∧
    s.Poised (bumpId k) := by
  induction k with
  | zero =>
      obtain ⟨s, hs, hp⟩ := reach_of_trace_under Counting .poll (invoke (.ext 0) (.go false 0 false))
        (fun s => s.rt.initialized && s.lock == none && s.pc (.ext 0) == .user &&
          s.rt.nextId == 1) (by decide +kernel)
      simp only [Bool.and_eq_true, beq_iff_eq] at hp
      exact ⟨s, hs, hp.1.1.1, hp.1.1.2, hp.1.2, hp.2⟩
  | succ k ih =>
      obtain ⟨s, hs, hp⟩ := ih (by omega)
      have hpos : bumpId k = k + 1 := by
        have hsmall : (k : Int) + 1 < 2 ^ 31 := by exact_mod_cast hk
        exact Int.bmod_eq_of_le (by omega) (by omega)
      rw [hpos] at hp
      exact hp.next (by omega) hs

end Sys

/-! ## All or nothing -/

namespace Rt

variable {s : Rt}

/-- After an overflow the only sound creation is one that makes nothing. -/
theorem Inv.goSound_iff (hi : s.Inv) (hinit : s.initialized = true) (hneg : s.nextId < 0)
    (fn : Bool) (n : Nat) : s.GoSound fn n ↔ s.Unmade (s.goWithStack fn n).2 := by
  have hmade := hi.createTaskInternal fn n false
  simp only [GoSound, goWithStack, Sys.init_of_initialized hinit]
  generalize s.createTaskInternal fn n false = q at hmade
  cases hmade with
  | no id a hid hs =>
      have hsame := Wastes.unmade hs hi
      exact iff_of_true (.inl ⟨hid, hsame⟩) hsame
  | task tape =>
      have hnot : ¬s.Unmade ({ s with tape := tape } : Rt).spawn := fun hsame => by
        have hall : s.nextAddr :: s.allTasks = s.allTasks := hsame.allTasks
        simp at hall
      refine iff_of_false ?_ hnot
      rintro (⟨-, hsame⟩ | ⟨hpos, -⟩)
      · exact hnot hsame
      · exact absurd hpos (not_le.mpr hneg)
  | handle tape hwant => cases hwant

/-- Nor does a sound creation of a handle make one after an overflow. -/
theorem Inv.goHandleSound_iff (hi : s.Inv) (hinit : s.initialized = true) (hneg : s.nextId < 0)
    (fn : Bool) (n : Nat) : s.GoHandleSound fn n ↔ s.Unmade (s.goHandleWithStack fn n).2 := by
  have hmade := hi.createTaskInternal fn n true
  simp only [GoHandleSound, goHandleWithStack, Sys.init_of_initialized hinit]
  generalize s.createTaskInternal fn n true = q at hmade
  cases hmade with
  | no id a hid hs =>
      have hsame := Wastes.unmade hs hi
      exact iff_of_true (.inl ⟨if_pos hid, hsame⟩) hsame
  | task tape hwant => cases hwant
  | handle tape =>
      have hnot : ¬s.Unmade ({ s with tape := tape } : Rt).spawnHandle := fun hsame => by
        have hall : (s.nextAddr + 1) :: s.allTasks = s.allTasks := hsame.allTasks
        simp at hall
      refine iff_of_false ?_ hnot
      rintro (⟨-, hsame⟩ | ⟨x, t, id, hx, -⟩)
      · exact hnot hsame
      · rw [if_pos hneg] at hx
        cases hx

end Rt

/-- In every run in which no creation has found the counter overflowed, the next one is all or
nothing and its answer tells which, as long as the counter is positive. In every run at all, a
creation that finds it negative is sound only if it makes nothing, and some runs get there. -/
theorem creation_all_or_nothing :
    (∀ (s s' : Sys) (a : Actor) (env : Env) (c : CallId) (fn : Bool) (n : Nat) (b : Bool),
      machine.Reach Sys.Contract s → s.pc a.agent = .called c (.go fn n b) →
      machine.step s (.cont a env) = some s' →
      (∃ rc, s'.rt = ((if b then ((s.tick env.tape).rt.goHandleWithStack fn n).2
          else ((s.tick env.tape).rt.goWithStack fn n).2).record (.done c .neither rc)).record
            (.ret c rc)) ∧
      (machine.Reach (Sys.Under Sys.Counting) s → (s.rt.initialized = true → 0 < s.rt.nextId) →
        (s.tick env.tape).rt.GoSound fn n ∧ (s.tick env.tape).rt.GoHandleSound fn n) ∧
      (s.rt.initialized = true → s.rt.nextId < 0 →
        ((s.tick env.tape).rt.GoSound fn n ↔
          (s.tick env.tape).rt.Unmade ((s.tick env.tape).rt.goWithStack fn n).2) ∧
        ((s.tick env.tape).rt.GoHandleSound fn n ↔
          (s.tick env.tape).rt.Unmade ((s.tick env.tape).rt.goHandleWithStack fn n).2))) ∧
    ∃ s, machine.Reach (Sys.Under Sys.Counting) s ∧ s.rt.initialized = true ∧
      s.rt.nextId = -2 ^ 31 := by
  refine ⟨fun s s' a env c fn n b h hpc hs => ⟨Sys.go_of_step hpc hs, fun hcount hpos => ?_,
    fun hinit hneg => ?_⟩, ?_⟩
  · have hok := (Sys.ok_of_under hcount).tick env.tape
    have hreach := Sys.numbered_of_reach hcount
    have hnum : (s.tick env.tape).rt.Numbered := ⟨hreach.small, hreach.below⟩
    have hoff := fun hi => (hok.off hi).1
    exact ⟨hok.rest.inv.goSound hoff hnum hpos fn n, hok.rest.inv.goHandleSound hoff hnum hpos fn n⟩
  · have hi := ((Sys.ok_of_reach (fun _ _ hc => hc) h).tick env.tape).rest.inv
    exact ⟨hi.goSound_iff hinit hneg fn n, hi.goHandleSound_iff hinit hneg fn n⟩
  · obtain ⟨s, hs, hp⟩ := Sys.exists_poised (2 ^ 31 - 1) (by decide)
    exact ⟨s, hs, hp.initialized, hp.nextId.trans (by decide)⟩

/-- The second creation of a process gets the identifier 2, and fails without memory. -/
theorem creation_all_or_nothing_second : ∃ s s' : Sys, machine.Reach Sys.Contract s ∧
    s.rt.nextId = 2 ∧ machine.step s (.cont (.ext 0) { tape := [true, false] }) = some s' ∧
    (s.tick [true, false]).rt.GoHandleSound true 0 ∧
    s'.rt.allTasks = [0] := by
  obtain ⟨s, hs, hp⟩ := reach_of_trace_under Sys.Counting .poll
    (invoke (.ext 0) (.go true 0 false) ++ [.api (.ext 0) (.go true 0 true)]) (fun s =>
      s.pc (.ext 0) == .called 1 (.go true 0 true) && s.rt.nextId == 2 &&
      (machine.step s (.cont (.ext 0) { tape := [true, false] })).any fun s' : Sys =>
        s'.rt.allTasks == [0]) (by decide +kernel)
  simp only [Bool.and_eq_true, beq_iff_eq, Option.any_eq_true] at hp
  obtain ⟨⟨hpc, hnext⟩, s', hstep, hall⟩ := hp
  have hsound := (creation_all_or_nothing.1 s s' (.ext 0) { tape := [true, false] } 1 true 0 true
    (hs.mono fun _ _ h => h.1) hpc hstep).2.1 hs fun _ => by omega
  exact ⟨s, s', hs.mono fun _ _ h => h.1, hnext, hstep, hsound.2, hall⟩

end Microthread
