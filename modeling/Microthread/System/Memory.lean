import Microthread.System.Calls

/-!
# The history and the memory

User memory is written by user code and by the copies of the channel operations, and by
nothing else. Every copy of the history has been made: it has read the sender's value at
the sender's address and stored it at the receiver's, one copy after the other.
-/

namespace Microthread

open Foundation

/-- `n` bytes of a memory. -/
def load (m : Addr → Byte) (a : Addr) (n : Nat) : List Byte := (List.range n).map fun i => m (a + i)

/-- A memory with `v` at `a`. -/
def store (m : Addr → Byte) (a : Addr) (v : List Byte) : Addr → Byte :=
  fun x => if a ≤ x then (v[x - a]?).getD (m x) else m x

/-- The entries take the memory from one state to the other: whatever is pushed or handed over
is read where its sender has it, and whatever is popped or handed over is stored where its
receiver wants it. -/
inductive Copied (size : ChanId → Nat) : (Addr → Byte) → List Event → (Addr → Byte) → Prop where
  | nil (m) : Copied size m [] m
  | push (ch c kind src) {m es m'} : Copied size m es m' →
      Copied size m (.push ch c kind src (load m src (size ch)) :: es) m'
  | pop (ch c out v) {m es m'} : Copied size (store m out v) es m' →
      Copied size m (.pop ch c out v :: es) m'
  | handoff (ch c kind src d out) {m es m'} :
      Copied size (store m out (load m src (size ch))) es m' →
      Copied size m (.handoff ch c kind src d out (load m src (size ch)) :: es) m'
  | other (e) {m es m'} : ¬e.IsTransfer → Copied size m es m' → Copied size m (e :: es) m'

variable {size : ChanId → Nat} {m m₁ m' : Addr → Byte} {es fs : List Event}

theorem Copied.append (h : Copied size m es m₁) (h' : Copied size m₁ fs m') :
    Copied size m (es ++ fs) m' := by
  induction h with
  | nil => exact h'
  | push ch c kind src _ ih => exact .push ch c kind src (ih h')
  | pop ch c out v _ ih => exact .pop ch c out v (ih h')
  | handoff ch c kind src d out _ ih => exact .handoff ch c kind src d out (ih h')
  | other e he _ ih => exact .other e he (ih h')

theorem Copied.of_not_transfer (h : ∀ e ∈ es, ¬e.IsTransfer) : Copied size m es m := by
  induction es with
  | nil => exact .nil m
  | cons e es ih =>
      exact .other e (h e List.mem_cons_self) (ih fun e' he' => h e' (List.mem_cons_of_mem e he'))

namespace Rt

variable {s s' a : Rt} {ch : ChanId} {c : CallId}

/-- The memory has changed by the copies that have been entered into the history. -/
def Copies (s s' : Rt) : Prop :=
  ∃ es, s'.log = s.log ++ es ∧ Copied (fun ch => (s.chan ch).elemSize) s.mem es s'.mem

theorem Murmurs.copies (h : s.Murmurs s') (hmem : s'.mem = s.mem) : s.Copies s' := by
  obtain ⟨es, hes, hidle⟩ := h
  refine ⟨es, hes, ?_⟩
  rw [hmem]
  exact .of_not_transfer fun e he => (hidle e he).1

theorem Copies.of_eq (hlog : s'.log = s.log) (hmem : s'.mem = s.mem) : s.Copies s' :=
  Murmurs.copies (.of_eq hlog) hmem

/-- Entries that record no copy follow. -/
theorem Copies.append (h : s.Copies a) (hlog : s'.log = a.log ++ es) (hmem : s'.mem = a.mem)
    (hes : ∀ e ∈ es, ¬e.IsTransfer) : s.Copies s' := by
  obtain ⟨fs, hfs, hcopied⟩ := h
  refine ⟨fs ++ es, by rw [hlog, hfs, List.append_assoc], hcopied.append ?_⟩
  rw [hmem]
  exact .of_not_transfer hes

theorem not_transfer_done (c : CallId) (role : Role) (rc : Rc) :
    ∀ e ∈ [Event.done c role rc], ¬e.IsTransfer := fun e he => by
  rw [List.mem_singleton.mp he]
  exact id

theorem transfer_copies (s : Rt) (ch : ChanId) (sender : CallId) (kind : SendKind) (src : Addr)
    (receiver : CallId) (out : Addr) : s.Copies (s.transfer ch sender kind src receiver out) :=
  ⟨[_], rfl, .handoff ch sender kind src receiver out (.nil _)⟩

theorem enqueue_copies (s : Rt) (ch : ChanId) (c : CallId) (kind : SendKind) (src : Addr) :
    s.Copies (s.enqueue ch c kind src) :=
  ⟨[_], rfl, .push ch c kind src (.nil _)⟩

theorem SendNow.copies {kind : SendKind} {value : Addr} {rc : Rc}
    (hs : SendNow s c kind ch value rc s') : s.Copies s' := by
  cases hs with
  | closed => exact .of_eq rfl rfl
  | plain t => exact (transfer_copies ..).append rfl rfl (not_transfer_done _ _ _)
  | select w items => exact (transfer_copies ..).append rfl rfl (not_transfer_done _ _ _)
  | buffer => exact enqueue_copies ..

theorem dequeue_elemSize (s : Rt) (ch : ChanId) (c : CallId) (out : Addr) :
    (fun x => ((s.dequeue ch c out).chan x).elemSize) = fun x => (s.chan x).elemSize := by
  funext x
  by_cases hx : x = ch
  · subst hx
    simp [dequeue, chanBufferPop, Rt.modChan, Rt.record, Rt.writeMem, RingBuffer.pop]
  · simp [dequeue, chanBufferPop, Rt.modChan, Rt.record, Rt.writeMem, hx]

/-- The refill reads the sender's value after the receiver's has been stored. -/
theorem Filled.copies {out : Addr} (hf : Filled (s.dequeue ch c out) ch s') : s.Copies s' := by
  have hpop : s.Copies (s.dequeue ch c out) := ⟨[_], rfl, .pop ch c out _ (.nil _)⟩
  have refill : ∀ d kind src, s.Copies ((s.dequeue ch c out).enqueue ch d kind src) :=
    fun d kind src => by
      obtain ⟨es, hes, hcopied⟩ := hpop
      obtain ⟨fs, hfs, hcopied'⟩ := enqueue_copies (s.dequeue ch c out) ch d kind src
      rw [dequeue_elemSize] at hcopied'
      exact ⟨es ++ fs, by rw [hfs, hes, List.append_assoc], hcopied.append hcopied'⟩
  cases hf with
  | nothing => exact hpop
  | plain t => exact (refill _ _ _).append rfl rfl (not_transfer_done _ _ _)
  | select w items => exact (refill _ _ _).append rfl rfl (not_transfer_done _ _ _)

theorem RecvNow.copies {out : Addr} {rc : Rc} (hr : RecvNow s c ch out rc s') : s.Copies s' := by
  cases hr with
  | buffer a _ hf => exact hf.copies
  | plain t => exact (transfer_copies ..).append rfl rfl (not_transfer_done _ _ _)
  | select w items => exact (transfer_copies ..).append rfl rfl (not_transfer_done _ _ _)
  | closedPlain t => exact (Copies.of_eq rfl rfl).append rfl rfl (not_transfer_done _ _ _)
  | closedSelect w items => exact (Copies.of_eq rfl rfl).append rfl rfl (not_transfer_done _ _ _)
  | closed => exact .of_eq rfl rfl

end Rt

open Rt

variable {s s' : Rt} {t : TaskId}

/-! ## Sections that leave the memory alone -/

theorem Shift.mem_eq (hm : Shift s s') : s'.mem = s.mem := by
  cases hm with
  | drain hd => cases hd <;> rfl
  | _ => rfl

theorem Shifts.mem_eq (hm : Shifts s s') : s'.mem = s.mem := by
  induction hm with
  | refl => rfl
  | tail _ hm ih => exact hm.mem_eq.trans ih

theorem Buries.mem_eq (hb : Buries t s s') : s'.mem = s.mem := by
  obtain @⟨a, hm, -, -, -⟩ := hb
  have hreap : (a.reap t).mem = a.mem := by
    unfold Rt.reap
    split <;> rfl
  exact hreap.trans (Shifts.mem_eq (HandleShifts.shifts hm))

theorem Cancels.mem_eq (hc : Cancels t s s') : s'.mem = s.mem := by
  cases hc with
  | destroy _ _ hb => exact hb.mem_eq
  | _ => rfl

theorem Rt.CancelCall.mem_eq {x : HandleId} (hc : CancelCall s x s') : s'.mem = s.mem := by
  cases hc with
  | late => rfl
  | wake t a hx hcomp htask hcancel => exact hcancel.mem_eq

theorem Rt.Created.mem_eq (hc : Created s s') : s'.mem = s.mem := by
  cases hc with
  | no a hs => exact Shifts.mem_eq (Wastes.shifts hs)
  | _ => rfl

theorem Rt.Closes.mem_eq {ch : ChanId} {rc : Rc} (hc : Closes s ch rc s') : s'.mem = s.mem := by
  cases hc with
  | again => rfl
  | drained _ _ hd =>
      have hmem := Shifts.mem_eq (Drains.shifts hd)
      exact hmem

theorem Rt.Destroys.mem_eq {ch : ChanId} {rc : Rc} (hd : Destroys s ch rc s') : s'.mem = s.mem := by
  cases hd with
  | refused => rfl
  | dropped => rfl
  | drained a hd =>
      have hmem := Shifts.mem_eq (Drains.shifts hd)
      exact hmem

theorem Registers.mem_eq (hm : Registers t s s') : s'.mem = s.mem := by
  obtain ⟨_, _, _, _, _, _, _, _, _, _, _, _, rfl⟩ := Registers.enrols hm
  rfl

theorem Rt.Section.copies {does : Op → Prop} {c : CallId} {o : Option (Role × Rc)}
    (hs : Section does c s o s') (h : s.Inv) : s.Copies s' := by
  cases hs with
  | idle o tape => exact .of_eq rfl rfl
  | release x rc _ hr => exact hr.shift.murmurs.copies hr.shift.mem_eq
  | fd o _ _ hop => exact (Shifts.murmurs (hop.shifts h)).copies (Shifts.mem_eq (hop.shifts h))
  | go rc _ _ hc => exact hc.murmurs.copies hc.mem_eq
  | chanCreate rc _ _ hc => exact hc.created.murmurs.copies hc.created.mem_eq
  | cancel x _ hc => exact hc.murmurs.copies hc.mem_eq
  | send kind ch value rc _ _ hsend => exact hsend.copies
  | sendNot => exact .of_eq rfl rfl
  | recv ch out rc _ _ hrecv => exact hrecv.copies
  | recvNot => exact .of_eq rfl rfl
  | close ch rc _ _ hc => exact hc.murmurs.copies hc.mem_eq
  | destroy ch rc _ _ hd => exact hd.murmurs.copies hd.mem_eq
  | unselect t rc _ _ hf =>
      exact .of_eq (Registers.log_eq hf.registers) (Registers.mem_eq hf.registers)
  | unwait t rc x _ _ _ hq =>
      obtain ⟨gens, polling, interest, filters, tape, rfl⟩ := hq
      exact .of_eq rfl rfl

theorem Rt.Marked.mem_eq (hm : Marked s s') : s'.mem = s.mem := Shifts.mem_eq hm.shifts

theorem Parks.mem_eq {c : CallId} {q p : Pc} (hp : Parks t c q s p s')
    (hws : (s.task t).selectWaiters = []) : s'.mem = s.mem := by
  cases hp with
  | select cases plan _ hch hp =>
      have key := fun tape => Registers.mem_eq (enrolled_registers hws hch plan tape)
      cases hp with
      | untimed tape => exact key tape
      | timed tape => exact key tape
  | fd timers wakeNs x use _ hq =>
      obtain ⟨gens, polling, interest, filters, tape, rfl⟩ := hq
      rfl
  | _ => rfl

namespace Sys

variable {s s' : Sys} {act : Act}

theorem Onward.not_transfer {c : CallId} {q p : Pc} {r : Rt} {o : Option (Role × Rc)}
    (hon : Onward c q r o p es) : ∀ e ∈ es, ¬e.IsTransfer := by
  cases hon with
  | on => exact nofun
  | out role rc =>
      intro e he
      rcases List.mem_cons.mp he with rfl | he
      · exact id
      · rw [List.mem_singleton.mp he]
        exact id

theorem copies_ret {s₁ : Sys} {r r' : Rt} (h : r.Copies r') (a : Actor) (c : CallId) (role : Role)
    (rc : Rc) : r.Copies (s₁.ret a c role rc r').rt :=
  h.append (List.append_assoc ..)  rfl (Onward.not_transfer (q := .user) (r := r) (.out role rc))

theorem Case.copies (hc : Case s act s') (hok : s.Ok) (hact : ∀ a addr v, act ≠ .write a addr v) :
    s.rt.Copies s'.rt := by
  have hi := hok.rest.inv
  cases hc with
  | calls a call =>
      cases a with
      | ext n => exact .of_eq rfl rfl
      | task w t => exact .of_eq rfl rfl
  | acts a env c o p es os sel hen hcall hnp hr _ hs hon =>
      exact (hs.copies hi).append rfl rfl (Onward.not_transfer hon)
  | resumesFd w t env c v use o p es hw hpc ho hon =>
      have hkeep : s.rt.Copies (s.rt.finishFd t v) := .of_eq rfl rfl
      exact hkeep.append rfl rfl (Onward.not_transfer hon)
  | returns w t env c rc sel =>
      have hkeep : s.rt.Copies s.rt := .of_eq rfl rfl
      refine hkeep.append (rfl : _ = s.rt.log ++ [.ret c rc]) rfl fun e he => ?_
      rw [List.mem_singleton.mp he]
      exact id
  | parks w t env c p hw hl hcall hnp hp hm =>
      have hws := hok.rest.noWaiters t ((hok.runs t).mpr ⟨w, hw⟩)
      exact .of_eq (hm.log_eq.trans (hp.log_eq hws)) (hm.mem_eq.trans (hp.mem_eq hws))
  | finishes w t hw hl hpc hb =>
      exact Murmurs.copies (.trans (a := s.rt.leave.die t) (.of_eq rfl) hb.murmurs) hb.mem_eq
  | writes a addr v => exact absurd rfl (hact a addr v)
  | runFails n env c k tape => exact copies_ret (.of_eq rfl rfl) _ _ _ _
  | runEnds n env c => exact copies_ret (.of_eq rfl rfl) _ _ _ _
  | abortEnds n env c => exact copies_ret (.of_eq rfl rfl) _ _ _ _
  | halts n env c hpc hr hm =>
      have hshifts := FdShifts.shifts hm
      exact copies_ret (Murmurs.copies (.trans (a := s.rt.halt) (.of_eq rfl) (Shifts.murmurs hshifts))
        (Shifts.mem_eq hshifts)) _ _ _ _
  | shutsDown n env c _ _ _ _ hd => exact copies_ret (.of_eq hd.log hd.mem) _ _ _ _
  | loops w q lock _ hl hm =>
      exact (Shifts.murmurs (Ticks.shifts hm)).copies (Shifts.mem_eq (Ticks.shifts hm))
  | dispatches w env t q hw hl hq hm => exact .of_eq hm.log_eq hm.mem_eq
  | _ => exact .of_eq rfl rfl

/-- In every run, the copies that a step enters into the history are those that it makes; the
memory changes by nothing else, unless user code writes it. -/
theorem copies_of_step (h : machine.Reach Contract s) (hact : s.Contract act)
    (hstep : machine.step s act = some s') (hno : ∀ a addr v, act ≠ .write a addr v) :
    s.rt.Copies s'.rt := by
  have hok := ok_of_reach (fun _ _ hc => hc) h
  obtain ⟨s₀, hp, hcase⟩ := hok.step_cases hact hstep
  have hcopies := hcase.copies (hp.ok hok) hno
  rcases hp.cases hok with ⟨tape, rfl⟩ | ⟨-, -, rt, hb, rfl⟩
  · exact hcopies
  · obtain ⟨es, hes, hcopied⟩ := hcopies
    refine ⟨es, by rw [hes, hb.log], ?_⟩
    rw [hb.chan, hb.mem] at hcopied
    exact hcopied

end Sys

end Microthread
