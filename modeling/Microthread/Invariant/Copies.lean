import Microthread.Invariant.Passage

/-!
# Copies and completions

Every copy of a value takes place in the section that completes the sending and the
receiving call it serves. So the history shows, for each channel, the senders of the copies
and the sends that have been completed with `MT_OK` in the same order, and likewise the
receivers.
-/

namespace Microthread

open Foundation

namespace Event

/-- The call whose value was copied on channel `ch`. -/
def sender? (ch : ChanId) : Event → Option CallId
  | .push x c .. | .handoff x c .. => if x = ch then some c else none
  | _ => none

/-- The call that got a value of channel `ch`. -/
def receiver? (ch : ChanId) : Event → Option CallId
  | .pop x c .. | .handoff x _ _ _ c .. => if x = ch then some c else none
  | _ => none

/-- The call that was completed as a send on `ch` with `MT_OK`. -/
def sentOk? (ch : ChanId) : Event → Option CallId
  | .done c (.send x) .ok => if x = ch then some c else none
  | _ => none

/-- The call that was completed as a receive on `ch` with `MT_OK`. -/
def receivedOk? (ch : ChanId) : Event → Option CallId
  | .done c (.recv x) .ok => if x = ch then some c else none
  | _ => none

section Simp

variable (ch x : ChanId) (c d : CallId) (kind : SendKind) (src out : Addr) (v : List Byte)
  (role : Role) (rc : Rc)

@[simp] theorem sender?_push :
    (Event.push x c kind src v).sender? ch = if x = ch then some c else none := rfl
@[simp] theorem sender?_handoff :
    (Event.handoff x c kind src d out v).sender? ch = if x = ch then some c else none := rfl
@[simp] theorem sender?_pop : (Event.pop x c out v).sender? ch = none := rfl
@[simp] theorem sender?_done : (Event.done c role rc).sender? ch = none := rfl

@[simp] theorem receiver?_pop :
    (Event.pop x c out v).receiver? ch = if x = ch then some c else none := rfl
@[simp] theorem receiver?_handoff :
    (Event.handoff x c kind src d out v).receiver? ch = if x = ch then some d else none := rfl
@[simp] theorem receiver?_push : (Event.push x c kind src v).receiver? ch = none := rfl
@[simp] theorem receiver?_done : (Event.done c role rc).receiver? ch = none := rfl

@[simp] theorem sentOk?_push : (Event.push x c kind src v).sentOk? ch = none := rfl
@[simp] theorem sentOk?_pop : (Event.pop x c out v).sentOk? ch = none := rfl
@[simp] theorem sentOk?_handoff : (Event.handoff x c kind src d out v).sentOk? ch = none := rfl
@[simp] theorem sentOk?_send :
    (Event.done c (.send x) .ok).sentOk? ch = if x = ch then some c else none := rfl
@[simp] theorem sentOk?_recv : (Event.done c (.recv x) rc).sentOk? ch = none := rfl

@[simp] theorem receivedOk?_push : (Event.push x c kind src v).receivedOk? ch = none := rfl
@[simp] theorem receivedOk?_pop : (Event.pop x c out v).receivedOk? ch = none := rfl
@[simp] theorem receivedOk?_handoff :
    (Event.handoff x c kind src d out v).receivedOk? ch = none := rfl
@[simp] theorem receivedOk?_recv :
    (Event.done c (.recv x) .ok).receivedOk? ch = if x = ch then some c else none := rfl
@[simp] theorem receivedOk?_send : (Event.done c (.send x) rc).receivedOk? ch = none := rfl

end Simp

/-- Neither a copy nor the success of a send or a receive. -/
def Idle (e : Event) : Prop :=
  ¬e.IsTransfer ∧ ∀ ch, e.sentOk? ch = none ∧ e.receivedOk? ch = none

theorem Idle.copies {e : Event} (h : e.Idle) (ch : ChanId) :
    e.sender? ch = none ∧ e.receiver? ch = none := by
  obtain ⟨h, -⟩ := h
  cases e with
  | done => exact ⟨rfl, rfl⟩
  | ret => exact ⟨rfl, rfl⟩
  | _ => exact absurd trivial h

theorem idle_ret (c : CallId) (rc : Rc) : (Event.ret c rc).Idle := ⟨id, fun _ => ⟨rfl, rfl⟩⟩

theorem idle_done (c : CallId) {role : Role} {rc : Rc} (h : role = .neither ∨ rc ≠ .ok) :
    (Event.done c role rc).Idle := by
  refine ⟨id, fun ch => ?_⟩
  cases role with
  | neither => exact ⟨rfl, rfl⟩
  | send x =>
      have hrc : rc ≠ .ok := h.resolve_left (by simp)
      cases rc with
      | ok => exact absurd rfl hrc
      | _ => exact ⟨rfl, rfl⟩
  | recv x =>
      have hrc : rc ≠ .ok := h.resolve_left (by simp)
      cases rc with
      | ok => exact absurd rfl hrc
      | _ => exact ⟨rfl, rfl⟩

end Event

/-- The senders and receivers of the copies are the sends and receives that succeed, in the
same order. -/
structure Even (es : List Event) : Prop where
  sends : ∀ ch, es.filterMap (Event.sender? ch) = es.filterMap (Event.sentOk? ch)
  receives : ∀ ch, es.filterMap (Event.receiver? ch) = es.filterMap (Event.receivedOk? ch)

theorem Even.append {es fs : List Event} (h : Even es) (h' : Even fs) : Even (es ++ fs) where
  sends ch := by rw [List.filterMap_append, List.filterMap_append, h.sends, h'.sends]
  receives ch := by rw [List.filterMap_append, List.filterMap_append, h.receives, h'.receives]

theorem Even.of_idle {es : List Event} (h : ∀ e ∈ es, e.Idle) : Even es := by
  have none : ∀ f : Event → Option CallId, (∀ e ∈ es, f e = none) → es.filterMap f = [] :=
    fun f hf => List.filterMap_eq_nil_iff.mpr hf
  refine ⟨fun ch => ?_, fun ch => ?_⟩
  · rw [none _ fun e he => ((h e he).copies ch).1, none _ fun e he => ((h e he).2 ch).1]
  · rw [none _ fun e he => ((h e he).copies ch).2, none _ fun e he => ((h e he).2 ch).2]

namespace Rt

variable {s s' a : Rt} {ch : ChanId} {t : TaskId}

/-- No value is copied, and no send or receive succeeds. -/
def Murmurs (s s' : Rt) : Prop := ∃ es, s'.log = s.log ++ es ∧ ∀ e ∈ es, e.Idle

theorem Murmurs.refl (s : Rt) : s.Murmurs s := ⟨[], (List.append_nil _).symm, nofun⟩

theorem Murmurs.of_eq (h : s'.log = s.log) : s.Murmurs s' :=
  ⟨[], h.trans (List.append_nil _).symm, nofun⟩

theorem Murmurs.trans (h : s.Murmurs a) (h' : a.Murmurs s') : s.Murmurs s' := by
  obtain ⟨es, hes, h⟩ := h
  obtain ⟨fs, hfs, h'⟩ := h'
  refine ⟨es ++ fs, by rw [hfs, hes, List.append_assoc], fun e he => ?_⟩
  exact (List.mem_append.mp he).elim (h e) (h' e)

/-- A task is woken whose call succeeds neither as a send nor as a receive. -/
theorem Murmurs.done {c : CallId} {role : Role} {rc : Rc} (h : role = .neither ∨ rc ≠ .ok)
    (hlog : s'.log = s.log ++ [.done c role rc]) : s.Murmurs s' :=
  ⟨_, hlog, fun e he => by rw [List.mem_singleton.mp he]; exact Event.idle_done c h⟩

theorem reap_murmurs (s : Rt) (t : TaskId) : s.Murmurs (s.reap t) := .of_eq (reap_log s t)

end Rt

open Rt

variable {s s' : Rt} {t : TaskId}

theorem Drain.murmurs {ch : ChanId} (hd : Drain ch s s') : s.Murmurs s' := by
  cases hd with
  | task r t => exact .done (.inr (by decide)) rfl
  | select r w items => exact .done (.inr (by decide)) rfl

theorem Shift.murmurs (hm : Shift s s') : s.Murmurs s' := by
  cases hm with
  | drain hd => exact hd.murmurs
  | timeout => exact .done (.inl rfl) rfl
  | wakeJoin => exact .done (.inl rfl) rfl
  | _ => exact .of_eq rfl

theorem Shifts.murmurs (hm : Shifts s s') : s.Murmurs s' := by
  induction hm with
  | refl => exact .refl s
  | tail _ hm ih => exact ih.trans hm.murmurs

theorem Buries.murmurs (hb : Buries t s s') : s.Murmurs s' := by
  obtain ⟨hm, -, -, -⟩ := hb
  exact (Shifts.murmurs (HandleShifts.shifts hm)).trans (reap_murmurs _ t)

theorem Cancels.murmurs (hc : Cancels t s s') : s.Murmurs s' := by
  cases hc with
  | nothing => exact .refl s
  | sleep => exact .of_eq rfl
  | chan => exact .done (.inl rfl) rfl
  | select => exact .done (.inl rfl) rfl
  | fd => exact .of_eq rfl
  | join => exact .done (.inl rfl) rfl
  | destroy _ _ hb => exact .trans (a := s.killReady t) (.of_eq rfl) hb.murmurs

theorem Rt.CancelCall.murmurs {x : HandleId} (hc : CancelCall s x s') : s.Murmurs s' := by
  cases hc with
  | late => exact .of_eq rfl
  | wake t a hx hcomp htask hcancel =>
      exact (Shifts.murmurs (reported_shifts hcomp)).trans hcancel.murmurs

theorem Rt.Created.murmurs (hc : Created s s') : s.Murmurs s' := by
  cases hc with
  | no a hs => exact Shifts.murmurs (Wastes.shifts hs)
  | _ => exact .of_eq rfl

theorem Rt.Closes.murmurs {ch : ChanId} {rc : Rc} (hc : Closes s ch rc s') : s.Murmurs s' := by
  cases hc with
  | again => exact .refl s
  | drained _ _ hd =>
      exact .trans (a := s.modChan ch fun k => { k with closed := true }) (.of_eq rfl)
        (Shifts.murmurs (Drains.shifts hd))

theorem Rt.Destroys.murmurs {ch : ChanId} {rc : Rc} (hd : Destroys s ch rc s') : s.Murmurs s' := by
  cases hd with
  | refused => exact .refl s
  | dropped => exact .of_eq rfl
  | drained a hd =>
      have hdrain : s.Murmurs a :=
        .trans (a := s.modChan ch fun k => { k with closed := true }) (.of_eq rfl)
          (Shifts.murmurs (Drains.shifts hd))
      exact hdrain.trans (.of_eq rfl)

/-! ## Sends and receives -/

namespace Rt

variable {ch : ChanId} {c : CallId}

/-- The section serves call `c`, which ends as `o` says. -/
def Serves (c : CallId) (o : Option (Role × Rc)) (s s' : Rt) : Prop :=
  ∃ es, s'.log = s.log ++ es ∧ Even (es ++ completion c o)

theorem Murmurs.serves {o : Option (Role × Rc)} (h : s.Murmurs s')
    (ho : ∀ p ∈ o, p.1 = Role.neither ∨ p.2 ≠ .ok) : Serves c o s s' := by
  obtain ⟨es, hes, h⟩ := h
  refine ⟨es, hes, (Even.of_idle h).append (Even.of_idle fun e he => ?_)⟩
  cases o with
  | none => cases he
  | some p =>
      rw [List.mem_singleton.mp he]
      exact Event.idle_done c (ho p rfl)

theorem Inv.sender_role (h : s.Inv) (ht : (s.waitq (.senders ch)).items.head? = some t) :
    (s.task t).chanRole = .send ch := by
  obtain ⟨-, hslot⟩ := h.mem_waitq (List.mem_of_head? ht)
  have href := (Task.chanRef_of_slot hslot (by simp [WaitqRef.chan?])).2
  unfold Task.chanRef at href
  unfold Task.chanRole
  split at href <;> simp_all

theorem Inv.receiver_role (h : s.Inv) (ht : (s.waitq (.receivers ch)).items.head? = some t) :
    (s.task t).chanRole = .recv ch := by
  obtain ⟨-, hslot⟩ := h.mem_waitq (List.mem_of_head? ht)
  have href := (Task.chanRef_of_slot hslot (by simp [WaitqRef.chan?])).2
  unfold Task.chanRef at href
  unfold Task.chanRole
  split at href <;> simp_all

theorem Inv.selectSender_role (h : s.Inv) {w : WaiterId}
    (hw : (s.selectq (.senders ch)).items.head? = some w) : (s.selw w).role = .send ch := by
  have href := (h.mem_selectq (List.mem_of_head? hw)).2.2
  unfold SelectWaiter.ref at href
  unfold SelectWaiter.role
  split at href <;> simp_all

theorem Inv.selectReceiver_role (h : s.Inv) {w : WaiterId}
    (hw : (s.selectq (.receivers ch)).items.head? = some w) : (s.selw w).role = .recv ch := by
  have href := (h.mem_selectq (List.mem_of_head? hw)).2.2
  unfold SelectWaiter.ref at href
  unfold SelectWaiter.role
  split at href <;> simp_all

/-- A handoff completes both calls. -/
theorem even_handoff (ch : ChanId) (c : CallId) (kind : SendKind) (src : Addr) (d : CallId)
    (out : Addr) (v : List Byte) :
    Even [.handoff ch c kind src d out v, .done d (.recv ch) .ok, .done c (.send ch) .ok] ∧
      Even [.handoff ch c kind src d out v, .done c (.send ch) .ok, .done d (.recv ch) .ok] := by
  refine ⟨⟨fun x => ?_, fun x => ?_⟩, ⟨fun x => ?_, fun x => ?_⟩⟩ <;>
    by_cases hx : ch = x <;> simp [List.filterMap_cons, hx]

theorem even_push (ch : ChanId) (c : CallId) (kind : SendKind) (src : Addr) (v : List Byte) :
    Even [.push ch c kind src v, .done c (.send ch) .ok] := by
  refine ⟨fun x => ?_, fun x => ?_⟩ <;>
    by_cases hx : ch = x <;> simp [List.filterMap_cons, hx]

theorem even_pop (ch : ChanId) (c : CallId) (out : Addr) (v : List Byte) :
    Even [.pop ch c out v, .done c (.recv ch) .ok] := by
  refine ⟨fun x => ?_, fun x => ?_⟩ <;>
    by_cases hx : ch = x <;> simp [List.filterMap_cons, hx]

/-- A receive that lets the next sender refill the buffer. -/
theorem even_refill (ch : ChanId) (c : CallId) (out : Addr) (v : List Byte) (d : CallId)
    (kind : SendKind) (src : Addr) (v' : List Byte) :
    Even [.pop ch c out v, .push ch d kind src v', .done d (.send ch) .ok,
      .done c (.recv ch) .ok] := by
  refine ⟨fun x => ?_, fun x => ?_⟩ <;>
    by_cases hx : ch = x <;> simp [List.filterMap_cons, hx]

theorem SendNow.serves {kind : SendKind} {value : Addr} {rc : Rc}
    (hs : SendNow s c kind ch value rc s') (h : s.Inv) : Serves c (some (.send ch, rc)) s s' := by
  cases hs with
  | closed => exact (Murmurs.refl s).serves (by simp)
  | plain t _ ht =>
      refine ⟨_, List.append_assoc .., ?_⟩
      change Even [_, .done (s.task t).call (s.task t).chanRole .ok, _]
      rw [h.receiver_role ht]
      exact (even_handoff ch c kind value (s.task t).call (s.chanValueOf t) _).1
  | select w items _ _ hw =>
      refine ⟨_, List.append_assoc .., ?_⟩
      change Even [_, .done (s.task (s.selw w).task).call (s.selw w).role .ok, _]
      rw [h.selectReceiver_role hw]
      exact (even_handoff ch c kind value _ (s.selw w).value _).1
  | buffer => exact ⟨[_], rfl, even_push ch c kind value _⟩

/-- What the refill adds to a receive from the buffer. -/
theorem Filled.serves {out : Addr} (hf : Filled (s.dequeue ch c out) ch s')
    (h : (s.dequeue ch c out).Inv) : Serves c (some (.recv ch, .ok)) s s' := by
  generalize hv : (s.chanBufferPop ch out).1 = v
  have hlog : (s.dequeue ch c out).log = s.log ++ [.pop ch c out v] := by rw [← hv]; rfl
  generalize s.dequeue ch c out = b at hf h hlog
  cases hf with
  | nothing => exact ⟨_, hlog, even_pop ch c out v⟩
  | plain t _ _ ht =>
      have heven := even_refill ch c out v (b.task t).call .plain (b.chanValueOf t)
        (b.valueAt ch (b.chanValueOf t))
      rw [← h.sender_role ht] at heven
      refine ⟨[_, _, _], ?_, heven⟩
      change (b.log ++ [_]) ++ [_] = _
      rw [hlog, List.append_assoc, List.append_assoc]
      rfl
  | select w items _ _ _ hw =>
      have heven := even_refill ch c out v (b.task (b.selw w).task).call .select (b.selw w).value
        (b.valueAt ch (b.selw w).value)
      rw [← h.selectSender_role hw] at heven
      refine ⟨[_, _, _], ?_, heven⟩
      change (b.log ++ [_]) ++ [_] = _
      rw [hlog, List.append_assoc, List.append_assoc]
      rfl

theorem RecvNow.serves {out : Addr} {rc : Rc} (hr : RecvNow s c ch out rc s') (h : s.Inv) :
    Serves c (some (.recv ch, rc)) s s' := by
  cases hr with
  | buffer a hpos hf => exact hf.serves (Moves.inv (s.dequeue_moves ch c out) h)
  | plain t _ _ ht =>
      refine ⟨_, List.append_assoc .., ?_⟩
      change Even [_, .done (s.task t).call (s.task t).chanRole .ok, _]
      rw [h.sender_role ht]
      exact (even_handoff ch (s.task t).call .plain (s.chanValueOf t) c out _).2
  | select w items _ _ _ hw =>
      refine ⟨_, List.append_assoc .., ?_⟩
      change Even [_, .done (s.task (s.selw w).task).call (s.selw w).role .ok, _]
      rw [h.selectSender_role hw]
      exact (even_handoff ch _ .select (s.selw w).value c out _).2
  | closedPlain t => exact (Murmurs.done (.inr (by decide)) rfl).serves (by simp)
  | closedSelect w items => exact (Murmurs.done (.inr (by decide)) rfl).serves (by simp)
  | closed => exact (Murmurs.refl s).serves (by simp)

theorem Section.serves {does : Op → Prop} {o : Option (Role × Rc)} (hs : Section does c s o s')
    (h : s.Inv) : Serves c o s s' := by
  have neither : ∀ {rc : Rc}, ∀ p ∈ some (Role.neither, rc), p.1 = Role.neither ∨ p.2 ≠ Rc.ok :=
    fun p hp => .inl (by rw [← Option.some.inj hp])
  cases hs with
  | idle o tape ho => exact Murmurs.serves (.of_eq rfl) fun p hp => .inl (ho p hp)
  | release x rc _ hr => exact hr.shift.murmurs.serves neither
  | fd o ho _ hop => exact (Shifts.murmurs (hop.shifts h)).serves fun p hp => .inl (ho p hp)
  | go rc _ _ hc => exact hc.murmurs.serves neither
  | chanCreate rc _ _ hc => exact hc.created.murmurs.serves neither
  | cancel x _ hc => exact hc.murmurs.serves neither
  | send kind ch value rc _ _ hsend => exact hsend.serves h
  | sendNot ch rc hrc => exact (Murmurs.refl s).serves (by simpa using hrc)
  | recv ch out rc _ _ hrecv => exact hrecv.serves h
  | recvNot ch rc hrc => exact (Murmurs.refl s).serves (by simpa using hrc)
  | close ch rc _ _ hc => exact hc.murmurs.serves neither
  | destroy ch rc _ _ hd => exact hd.murmurs.serves neither
  | unselect t rc _ _ hf => exact Murmurs.serves (.of_eq (Registers.log_eq hf.registers)) neither
  | unwait t rc x _ _ _ hq =>
      obtain ⟨gens, polling, interest, filters, tape, rfl⟩ := hq
      exact Murmurs.serves (.of_eq rfl) neither

end Rt

end Microthread
