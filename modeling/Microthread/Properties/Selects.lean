import Microthread.Properties.Delivery
import Microthread.Properties.Waits

/-!
# A parked select is decided once

`mt_select` parks with a waiter for each channel case, perhaps several on one channel and in
both directions, and with a timer if it has a timeout. The first peer, close, destruction,
expiry or cancellation decides it: the result and the index are written to the task's record
and all waiters and the timer go. Later events find nothing of the select. A parked select is
a small machine of its own, as a wait for a descriptor is.
-/

namespace Microthread

open Foundation Rt

/-- A copy changes the memory at its destination only. -/
def Event.Writes (x : Addr) : Event → Prop
  | .pop _ _ out v | .handoff _ _ _ _ _ out v => out ≤ x ∧ x < out + v.length
  | _ => False

theorem store_of_outside {m : Addr → Byte} {a x : Addr} {v : List Byte}
    (h : ¬(a ≤ x ∧ x < a + v.length)) : store m a v x = m x := by
  unfold store
  split
  · next hle =>
      have hlen : v.length ≤ x - a := by
        have hge : a + v.length ≤ x := Nat.not_lt.mp fun hlt => h ⟨hle, hlt⟩
        exact Nat.le_sub_of_add_le' hge
      rw [List.getElem?_eq_none hlen]
      rfl
  · rfl

theorem Copied.unchanged {size : ChanId → Nat} {m m' : Addr → Byte} {es : List Event}
    (h : Copied size m es m') {x : Addr} (hx : ∀ e ∈ es, ¬e.Writes x) : m' x = m x := by
  induction h with
  | nil => rfl
  | push ch c kind src _ ih | other e _ _ ih =>
      exact ih fun e he => hx e (List.mem_cons_of_mem _ he)
  | pop ch c out v _ ih | handoff ch c kind src d out _ ih =>
      rw [ih fun e he => hx e (List.mem_cons_of_mem _ he)]
      exact store_of_outside (hx _ List.mem_cons_self)

/-- Memory that has changed is the destination of one of the copies. -/
theorem Rt.Copies.writes {s s' : Rt} {copies : List Event} (h : s.Copies s')
    (ha : s.Adds s' copies) {x : Addr} (hx : s'.mem x ≠ s.mem x) : ∃ e ∈ copies, e.Writes x := by
  obtain ⟨es, hes, hcopied⟩ := h
  obtain ⟨fs, hfs, rfl⟩ := ha
  obtain rfl : es = fs := List.append_cancel_left (hes.symm.trans hfs)
  by_contra hnone
  refine hx (hcopied.unchanged fun e he hw => hnone ⟨e, List.mem_filter.mpr ⟨he, ?_⟩, hw⟩)
  cases e with
  | push | pop | handoff => rfl
  | done | ret => exact absurd hw id

/-- An `mt_select` that has parked. -/
structure SelectCall where
  task : TaskId
  call : CallId
  cases : List SelectCase
  plan : SelectPlan

/-- The stages of a select. -/
inductive SelectPhase where
  | waiting
  | decided (rc : Rc) (index : Nat)
  | finished

namespace Rt

variable {rc : Rc}

/-! ## A peer serves the first waiter in line -/

/-- With no plain receiver in line, a send on an open channel serves the first select. -/
theorem SendNow.wakes_first {r r' : Rt} {c : CallId} {kind : SendKind} {ch : ChanId} {value : Addr}
    {w : WaiterId} (hsend : SendNow r c kind ch value rc r') (hopen : (r.chan ch).closed = false)
    (hplain : (r.waitq (.receivers ch)).items = [])
    (hhead : (r.selectq (.receivers ch)).items.head? = some w) :
    (r'.task (r.selw w).task).state = .ready := by
  cases hsend with
  | closed hclosed => simp [hopen] at hclosed
  | plain t _ ht => simp [hplain] at ht
  | select v items _ _ hv =>
      cases hhead.symm.trans hv
      exact congrArg Task.state (wakeSelect_decided ..)
  | buffer _ _ hnone => simp [hnone] at hhead

/-- With no plain sender in line, a receive serves the first select, unless it takes a value
that is left in a closed channel. -/
theorem RecvNow.wakes_first {r r' : Rt} {c : CallId} {ch : ChanId} {out : Addr} {w : WaiterId}
    (hrecv : RecvNow r c ch out rc r') (hvalid : (r.chan ch).toRingBuffer.Valid)
    (hlive : (r.chan ch).closed = false ∨ (r.chan ch).len = 0)
    (hplain : (r.waitq (.senders ch)).items = [])
    (hhead : (r.selectq (.senders ch)).items.head? = some w) :
    (r'.task (r.selw w).task).state = .ready := by
  cases hrecv with
  | buffer _ hpos hfill =>
      have hopen := hlive.resolve_right hpos.ne'
      cases hfill with
      | nothing hwhy =>
          -- the value that has left makes room
          rcases hwhy with hclosed | hfull | ⟨-, hnone⟩
          · simp [dequeue_chan_self, hopen] at hclosed
          · simp only [dequeue_chan_self, RingBuffer.pop_capacity, RingBuffer.pop_len] at hfull
            have hle := hvalid.len_le
            omega
          · change (r.selectq (.senders ch)).items = [] at hnone
            simp [hnone] at hhead
      | plain t _ _ ht =>
          change (r.waitq (.senders ch)).items.head? = some t at ht
          simp [hplain] at ht
      | select v items _ _ _ hv =>
          cases hhead.symm.trans hv
          exact congrArg Task.state (wakeSelect_decided ..)
  | plain t _ _ ht | closedPlain t _ _ ht => simp [hplain] at ht
  | select v items _ _ _ hv | closedSelect v items _ _ _ hv =>
      cases hhead.symm.trans hv
      exact congrArg Task.state (wakeSelect_decided ..)
  | closed _ _ _ hnone => simp [hnone] at hhead

end Rt

namespace Sys

variable {s s' : Sys} {k : SelectCall} {rc : Rc} {index : Nat}

/-- The call is parked. -/
structure InSelect (s : Sys) (k : SelectCall) : Prop where
  mem : k.task ∈ s.rt.allTasks
  pc : s.pc (.task k.task) = .selectPark k.call k.cases k.plan

/-- The call waits: there is one waiter for each channel case, with what the case asks for,
and a timer if there is a timeout case. -/
structure Enlisted (s : Sys) (k : SelectCall) : Prop where
  inside : s.InSelect k
  state : (s.rt.task k.task).state = .waitingSelect
  planned : selectScan k.cases 0 {} = some k.plan
  waiters : ∀ w ∈ (s.rt.task k.task).selectWaiters, ∃ i x, k.cases[i]? = some x ∧
    x.isChannel = true ∧ s.rt.selw w = waiterOf k.task i x
  complete : ∀ i x, k.cases[i]? = some x → x.isChannel = true →
    ∃ w ∈ (s.rt.task k.task).selectWaiters, s.rt.selw w = waiterOf k.task i x
  timed : ((s.rt.task k.task).selectInTimer = true ↔ k.plan.timeoutIndex ≠ none) ∧
    ∀ i, k.plan.timeoutIndex = some i → (s.rt.task k.task).selectIndex = i

/-- The state fits the stage of the select. While it waits, each channel case has its waiter
in the queue of its channel and direction, the task is in the timers if there is a timeout
case, and it is not in the run queue. When the select is decided, its result and index are in
the task's record, no waiter of the task is in any queue, and the task is out of the timers
and in the run queue, once, unless a worker has it already. -/
def SelectAt (s : Sys) (k : SelectCall) : SelectPhase → Prop
  | .waiting => s.Enlisted k ∧
      (∀ i x, k.cases[i]? = some x → x.isChannel = true → ∃ w,
        s.rt.selw w = waiterOf k.task i x ∧
        w ∈ (s.rt.selectq (waiterOf k.task i x).ref).items) ∧
      (k.task ∈ s.rt.timers.items ↔ k.plan.timeoutIndex ≠ none) ∧ k.task ∉ s.rt.runq.items
  | .decided rc index => s.InSelect k ∧ (s.rt.task k.task).selectResult = rc ∧
      (s.rt.task k.task).selectIndex = index ∧
      (∀ r, ∀ w ∈ (s.rt.selectq r).items, (s.rt.selw w).task ≠ k.task) ∧
      k.task ∉ s.rt.timers.items ∧
      (((s.rt.task k.task).state = .ready ∧ s.rt.runq.items.count k.task = 1) ∨
        ((∃ v, s.workers v = .running k.task) ∧ k.task ∉ s.rt.runq.items))
  | .finished => True

/-- The events that decide the select, with the result, the index and the copies of values. A
peer gives the value of its call to a receiving case or takes that of a sending case, or makes
room for it in the buffer; the channel of a case is closed, destroyed, or found closed by a
receive; the deadline has come; or the task is cancelled. -/
inductive Resolves (s : Sys) (k : SelectCall) : Act → Rc → Nat → List Event → Prop where
  | given (a env c kind ch value i out ms v) : (s.pc a.agent).call? = some c →
      Pc.Does a.agent (s.pc a.agent) (.send kind ch value) →
      k.cases[i]? = some ⟨.recv, some ch, some out, ms⟩ →
      Resolves s k (.cont a env) .ok i [.handoff ch c kind value k.call out v]
  | taken (a env c ch out i src ms v) : (s.pc a.agent).call? = some c →
      Pc.Does a.agent (s.pc a.agent) (.recv ch out) →
      k.cases[i]? = some ⟨.send, some ch, some src, ms⟩ →
      Resolves s k (.cont a env) .ok i [.handoff ch k.call .select src c out v]
  | refilled (a env c ch out i src ms u v) : (s.pc a.agent).call? = some c →
      Pc.Does a.agent (s.pc a.agent) (.recv ch out) →
      k.cases[i]? = some ⟨.send, some ch, some src, ms⟩ →
      Resolves s k (.cont a env) .ok i [.pop ch c out u, .push ch k.call .select src v]
  | closed (a env ch i x) : (Pc.Does a.agent (s.pc a.agent) (.close ch) ∨
        Pc.Does a.agent (s.pc a.agent) (.destroy ch) ∨
        ∃ out, Pc.Does a.agent (s.pc a.agent) (.recv ch out) ∧ (s.rt.chan ch).closed = true) →
      k.cases[i]? = some x → x.isChannel = true → x.ch = some ch →
      Resolves s k (.cont a env) .closed i []
  | expiry (v env i x) : (∀ p batch, s.workers v ≠ .polled p batch) → k.cases[i]? = some x →
      x.op = .timeout → (s.rt.task k.task).wakeNs ≤ env.nowNs →
      Resolves s k (.worker v env) .ok i []
  | cancelled (a env x index) : Pc.Does a.agent (s.pc a.agent) (.cancel x) →
      (s.rt.handle x).task = some k.task → Resolves s k (.cont a env) .cancelled index []

/-! ## The waiters of a parked select -/

theorem Enlisted.selecting (hk : s.Enlisted k) : s.rt.Selecting k.task := ⟨hk.inside.mem, hk.state⟩

/-- The waiter of a channel case, and what the case asks for. -/
theorem Enlisted.waiter (hk : s.Enlisted k) {w : WaiterId}
    (hw : w ∈ (s.rt.task k.task).selectWaiters) : ∃ i op ch a ms, (op = .send ∨ op = .recv) ∧
      k.cases[i]? = some ⟨op, some ch, some a, ms⟩ ∧
      s.rt.selw w = waiterOf k.task i ⟨op, some ch, some a, ms⟩ := by
  obtain ⟨i, x, hx, hchan, hrec⟩ := hk.waiters w hw
  obtain ⟨hch, hv⟩ := (selectScan_some hk.planned).channel x (List.mem_of_getElem? hx) hchan
  obtain ⟨op, ch?, a?, ms⟩ := x
  obtain ⟨ch, rfl⟩ := Option.isSome_iff_exists.mp hch
  obtain ⟨a, rfl⟩ := Option.isSome_iff_exists.mp hv
  exact ⟨i, op, ch, a, ms, SelectCase.isChannel_iff.mp hchan, hx, hrec⟩

theorem waiterOf_ref {t : TaskId} {i : Nat} {op : SelectOp} {ch : ChanId} {a : Addr} {ms : Nat} :
    (waiterOf t i ⟨op, some ch, some a, ms⟩).ref =
      if op = .send then .senders ch else .receivers ch := rfl

theorem Enlisted.call_eq (hk : s.Enlisted k) (h : s.Ok) : (s.rt.task k.task).call = k.call := by
  refine (h.fits k.task hk.inside.mem).call k.call ?_
  rw [hk.inside.pc]
  rfl

/-- What decides the select of a task, in the terms of its cases. -/
theorem Decides.resolves {act : Act} {copies : List Event}
    (hd : s.Decides k.task act rc index copies) (hk : s.Enlisted k) (h : s.Ok) :
    s.Resolves k act rc index copies := by
  have hcall := hk.call_eq h
  cases hd with
  | award a env c hc haw =>
      cases haw with
      | given kind ch value w hdoes hw href =>
          obtain ⟨i, op, ch', out, ms, hop, hx, hrec⟩ := hk.waiter hw
          rw [hrec, waiterOf_ref] at href
          rw [hrec, hcall]
          split at href
          · cases href
          · next hne =>
              obtain rfl := SelectqRef.receivers.inj href
              obtain rfl := hop.resolve_left hne
              exact .given a env c kind ch' value i out ms _ hc hdoes hx
      | taken ch out w hdoes hw href =>
          obtain ⟨i, op, ch', src, ms, hop, hx, hrec⟩ := hk.waiter hw
          rw [hrec, waiterOf_ref] at href
          rw [hrec, hcall]
          split at href
          · next heq =>
              obtain rfl := SelectqRef.senders.inj href
              subst heq
              exact .taken a env c ch' out i src ms _ hc hdoes hx
          · cases href
      | refilled ch out w u v hdoes hw href =>
          obtain ⟨i, op, ch', src, ms, hop, hx, hrec⟩ := hk.waiter hw
          rw [hrec, waiterOf_ref] at href
          rw [hrec, hcall]
          split at href
          · next heq =>
              obtain rfl := SelectqRef.senders.inj href
              subst heq
              exact .refilled a env c ch' out i src ms u v hc hdoes hx
          · cases href
      | closed ch w hwhy hw hch =>
          obtain ⟨i, op, ch', src, ms, hop, hx, hrec⟩ := hk.waiter hw
          rw [hrec, waiterOf_ref] at hch
          rw [hrec]
          have heq : ch' = ch := by
            split at hch
            · exact hch
            · exact hch
          refine .closed a env ch i _ hwhy hx ?_ (congrArg some heq)
          exact SelectCase.isChannel_iff.mpr hop
      | cancelled x hdoes hx => exact .cancelled a env x _ hdoes hx
  | expiry v env hpolled hin hdue =>
      obtain ⟨i, hi⟩ := Option.ne_none_iff_exists'.mp (hk.timed.1.mp hin)
      rw [hk.timed.2 i hi]
      obtain hnone | ⟨j, x, rfl, hx, hop⟩ := ((selectScan_some hk.planned).timeoutIndex i).mp hi
      · cases hnone
      · rw [Nat.zero_add] at hi ⊢
        exact .expiry v env j x hpolled hx hop hdue

/-! ## The stages -/

theorem Enlisted.spared (hk : s.Enlisted k) (hsp : Spares k.task s.rt s'.rt) (h' : s'.InSelect k) :
    s'.Enlisted k where
  inside := h'
  state := by rw [hsp.task]; exact hk.state
  planned := hk.planned
  waiters w hw := by
    rw [hsp.task] at hw
    rw [hsp.selw w hw]
    exact hk.waiters w hw
  complete i x hx hchan := by
    obtain ⟨w, hw, hrec⟩ := hk.complete i x hx hchan
    exact ⟨w, by rw [hsp.task]; exact hw, (hsp.selw w hw).trans hrec⟩
  timed := by
    rw [hsp.task]
    exact hk.timed

theorem Enlisted.selectAt (hk : s.Enlisted k) (h : s.Ok) : s.SelectAt k .waiting := by
  have hi := h.rest.inv
  refine ⟨hk, fun i x hx hchan => ?_, ?_, fun hmem => ?_⟩
  · obtain ⟨w, hw, hrec⟩ := hk.complete i x hx hchan
    refine ⟨w, hrec, (hi.select.placed.mem _ w).mpr ⟨?_, by rw [hrec]⟩⟩
    have howner := (hi.select.owner k.task hk.inside.mem w hw).1
    exact ⟨by rw [howner]; exact hk.inside.mem, by rwa [howner]⟩
  · rw [← hk.timed.1]
    refine (hi.task.placed.mem .timers k.task).trans
      ⟨fun ⟨_, hslot⟩ => ?_, fun hin => ⟨hk.inside.mem, ?_⟩⟩
    · by_contra hnot
      simp [Task.slot, hk.state, hnot] at hslot
    · simp [Task.slot, hk.state, hin]
  · have hst := hk.state
    simp [(hi.mem_runq hmem).2] at hst

theorem InSelect.decided (hk : s.InSelect k) (h : s.Ok) (ha : (s.rt.task k.task).awake)
    (hws : (s.rt.task k.task).selectWaiters = []) :
    s.SelectAt k (.decided (s.rt.task k.task).selectResult (s.rt.task k.task).selectIndex) := by
  have hi := h.rest.inv
  have hslot : (s.rt.task k.task).slot ≠ some .timers := by
    rcases ha with ha | ha <;> simp [Task.slot, ha]
  refine ⟨hk, rfl, rfl, fun r w hw htask => ?_,
    fun hmem => hslot ((hi.task.placed.mem .timers k.task).mp hmem).2, ?_⟩
  · obtain ⟨-, hlist, -⟩ := hi.mem_selectq hw
    rw [htask, hws] at hlist
    cases hlist
  · rcases ha with ha | ha
    · exact .inl ⟨ha, hi.task.placed.count_eq_one (k := .runq) hk.mem (by simp [Task.slot, ha])⟩
    · refine .inr ⟨(h.runs k.task).mp ⟨hk.mem, ha⟩, fun hmem => ?_⟩
      simp [(hi.mem_runq hmem).2] at ha

/-- An awake task has no waiters. -/
theorem noWaiters_of_awake (h : s.Ok) {t : TaskId} (ht : t ∈ s.rt.allTasks)
    (ha : (s.rt.task t).awake) : (s.rt.task t).selectWaiters = [] := by
  rcases ha with ha | ha
  · exact h.rest.inv.select.idle t ht (by simp [ha]) (by simp [ha])
  · exact h.rest.noWaiters t ⟨ht, ha⟩

theorem InSelect.not_fresh (hk : s.InSelect k) : s.pc (.task k.task) ≠ .fresh := by
  simp [hk.pc]

theorem InSelect.not_finish (hk : s.InSelect k) {act : Act} (hc : Case s act s') (v : Nat) :
    act ≠ .finish v k.task := by
  rintro rfl
  cases hc with
  | finishes w u hw hl hpc hb => simp [hk.pc] at hpc
  | descriptors os interest filters hact => simp at hact
  | loops w q lock hact => simp at hact

/-- A parked select waits on, or is decided, or the runtime is shut down. -/
theorem selecting_step {act : Act} (hk : s.Enlisted k) (h : s.Ok) (h' : s'.Ok)
    (hc : Case s act s') :
    s'.Enlisted k ∨
      (∃ rc index copies, s.Resolves k act rc index copies ∧ s.rt.Adds s'.rt copies ∧
        s.rt.Yields s'.rt ∧ s'.SelectAt k (.decided rc index)) ∨ s.Kills k.task act := by
  have hin := hk.inside
  rcases hc.stays h hin.mem with ⟨v, hf⟩ | hkill | hmem
  · exact absurd hf (hin.not_finish hc v)
  · exact .inr (.inr hkill)
  have hpc : s'.pc (.task k.task) = s.pc (.task k.task) := by
    rcases hc.pc_kept hin.not_fresh with ha | hpc
    · rcases hc.own_parked (by rw [hin.pc]; rfl) ha with ⟨v, env, rfl⟩ | ⟨hpc, -⟩
      · have hrun := ((h.runs k.task).mpr ⟨v, hc.running_of_cont⟩).2
        simp [hk.state] at hrun
      · exact congrFun hpc _
    · exact hpc
  have hin' : s'.InSelect k := ⟨hmem, hpc.trans hin.pc⟩
  rcases hc.chooses h hk.selecting hmem with hsp | ⟨rc, index, copies, hset⟩
  · exact .inl (hk.spared hsp hin')
  · have hrec := hset.record
    have hat := hin'.decided h' (.inl (by rw [hrec]; rfl)) (by rw [hrec]; rfl)
    rw [hrec] at hat
    exact .inr (.inl ⟨rc, index, copies, hset.decides.resolves hk h, hset.adds, hset.yields, hat⟩)

/-- What a select has been decided with stays until the task resumes. -/
theorem decided_step {act : Act} (hk : s.SelectAt k (.decided rc index)) (h : s.Ok) (h' : s'.Ok)
    (hc : Case s act s') : s'.SelectAt k (.decided rc index) ∨
      (∃ v env, act = .cont (.task v k.task) env) ∨ s.Kills k.task act := by
  obtain ⟨hin, rfl, rfl, -, -, hplace⟩ := hk
  have haw : (s.rt.task k.task).awake := by
    rcases hplace with ⟨hready, -⟩ | ⟨hrun, -⟩
    · exact .inl hready
    · exact .inr ((h.runs k.task).mpr hrun).2
  rcases hc.stays h hin.mem with ⟨v, hf⟩ | hkill | hmem
  · exact absurd hf (hin.not_finish hc v)
  · exact .inr (.inr hkill)
  by_cases ha : act.agent? = some (.task k.task)
  · rcases hc.own_parked (by rw [hin.pc]; rfl) ha with hcont | ⟨hpc, htask, -⟩
    · exact .inr (.inl hcont)
    · have hin' : s'.InSelect k := ⟨hmem, (congrFun hpc _).trans hin.pc⟩
      rw [← htask] at haw ⊢
      exact .inl (hin'.decided h' haw (noWaiters_of_awake h' hmem haw))
  · have hin' : s'.InSelect k := ⟨hmem, ((hc.pc_kept hin.not_fresh).resolve_left ha).trans hin.pc⟩
    have hstep := ((hc.recorded h hmem).resolve_right fun hnew => by
      simp [(h.rest.inv.heap.task k.task hin.mem).1] at hnew).2
    have hsame := hstep.sameResults ha haw
    have haw' := hstep.awake ha haw
    rw [← hsame.selectResult, ← hsame.selectIndex]
    exact .inl (hin'.decided h' haw' (noWaiters_of_awake h' hmem haw'))

/-! ## Events that always decide the select -/

/-- The task is cancelled, the channel of one of its cases is closed or destroyed, a worker
looks at the timers when the deadline has come, or a peer sends or receives for which a waiter
of the task is the first in line. -/
inductive Forces (s : Sys) (k : SelectCall) : Act → Prop where
  | cancel (a env c x) : s.pc a.agent = .called c (.cancel x) →
      (s.rt.handle x).task = some k.task → Forces s k (.cont a env)
  | close (a env c ch) (i : Nat) (x : SelectCase) : s.pc a.agent = .called c (.chanClose ch) →
      (s.rt.chan ch).closed = false → k.cases[i]? = some x → x.isChannel = true →
      x.ch = some ch → Forces s k (.cont a env)
  | destroy (a env c ch) (i : Nat) (x : SelectCase) : s.pc a.agent = .called c (.chanDestroy ch) →
      ((s.tick env.tape).rt.chanDestroy ch).1 = .ok → k.cases[i]? = some x → x.isChannel = true →
      x.ch = some ch → Forces s k (.cont a env)
  | expiry (v env) : s.workers v = .top → s.rt.stopping = false → k.plan.timeoutIndex ≠ none →
      (s.rt.task k.task).wakeNs ≤ env.nowNs → Forces s k (.worker v env)
  | send (a env kind ch value w) : Pc.Does a.agent (s.pc a.agent) (.send kind ch value) →
      (s.rt.chan ch).closed = false → (s.rt.waitq (.receivers ch)).items = [] →
      (s.rt.selectq (.receivers ch)).items.head? = some w → (s.rt.selw w).task = k.task →
      Forces s k (.cont a env)
  | recv (a env ch out w) : Pc.Does a.agent (s.pc a.agent) (.recv ch out) →
      ((s.rt.chan ch).closed = false ∨ (s.rt.chan ch).len = 0) →
      (s.rt.waitq (.senders ch)).items = [] →
      (s.rt.selectq (.senders ch)).items.head? = some w → (s.rt.selw w).task = k.task →
      Forces s k (.cont a env)

/-- The trial of a channel case does to the tasks what the nonblocking operation does. -/
theorem task_of_trial {a : Actor} {env : Env} {c : CallId} {cases : List SelectCase}
    {plan : SelectPlan} {i : Nat} {x : SelectCase}
    (hpc : s.pc a.agent = .selectTry c cases plan i) (hx : cases[i]? = some x)
    (hchan : x.isChannel = true) (hs : s.step (.cont a env) = some s') :
    s'.rt.task = ((s.tick env.tape).rt.selectTryCase c x).2.task := by
  have hpc' : (s.tick env.tape).pc a.agent = .selectTry c cases plan i := hpc
  simp only [Sys.step] at hs
  split at hs
  · change (s.tick env.tape).continueCall a env = some s' at hs
    simp only [Sys.continueCall, hpc', hx] at hs
    split at hs
    · cases hs
    · obtain rfl := (Option.some.inj hs).symm
      unfold Sys.selectTrial
      rw [if_pos hchan]
      split
      · next hr => rw [hr]; rfl
      · next hr => rw [hr]; rfl
  · cases hs

/-- A send that finds a receiver in line wakes it, in a blocking call, a nonblocking one and
the trial of a case. -/
theorem task_of_send {a : Actor} {env : Env} {kind : SendKind} {ch : ChanId} {value : Addr}
    (hd : Pc.Does a.agent (s.pc a.agent) (.send kind ch value))
    (hs : s.step (.cont a env) = some s') : ∃ c, ∀ rc r,
      (s.tick env.tape).rt.chanSendNow c kind ch value = some (rc, r) → s'.rt.task = r.task := by
  cases kind with
  | plain =>
      obtain ⟨c, hpc⟩ := hd
      refine ⟨c, fun rc r hr => ?_⟩
      rw [callApi_of_step hpc hs]
      simp only [Sys.callApi, chanSend_eq, hr]
      rfl
  | nonblocking =>
      obtain ⟨c, hpc⟩ := hd
      refine ⟨c, fun rc r hr => ?_⟩
      rw [callApi_of_step hpc hs]
      simp only [Sys.callApi, chanTrySend_eq, hr, Option.getD_some]
      rfl
  | select =>
      obtain ⟨c, cases, plan, i, n, hpc, hx⟩ := hd
      refine ⟨c, fun rc r hr => ?_⟩
      rw [task_of_trial hpc hx rfl hs]
      simp only [selectTryCase, chanTrySend_eq, hr, Option.getD_some]

theorem task_of_recv {a : Actor} {env : Env} {ch : ChanId} {out : Addr}
    (hd : Pc.Does a.agent (s.pc a.agent) (.recv ch out))
    (hs : s.step (.cont a env) = some s') : ∃ c, ∀ rc r,
      (s.tick env.tape).rt.chanRecvNow c ch out = some (rc, r) → s'.rt.task = r.task := by
  rcases hd with ⟨c, hpc⟩ | ⟨c, hpc⟩ | ⟨c, cases, plan, i, n, hpc, hx⟩
  · refine ⟨c, fun rc r hr => ?_⟩
    rw [callApi_of_step hpc hs]
    simp only [Sys.callApi, chanRecv_eq, hr]
    rfl
  · refine ⟨c, fun rc r hr => ?_⟩
    rw [callApi_of_step hpc hs]
    simp only [Sys.callApi, chanTryRecv_eq, hr, Option.getD_some]
    rfl
  · refine ⟨c, fun rc r hr => ?_⟩
    rw [task_of_trial hpc hx rfl hs]
    simp only [selectTryCase, chanTryRecv_eq, hr, Option.getD_some]

theorem live_of_recv {a : Actor} {env : Env} {ch : ChanId} {out : Addr}
    (hok : s.Contract (.cont a env)) (hd : Pc.Does a.agent (s.pc a.agent) (.recv ch out)) :
    s.rt.Live (.chan ch) := by
  rcases hd with ⟨c, hpc⟩ | ⟨c, hpc⟩ | ⟨c, cases, plan, i, n, hpc, hx⟩
  · simp only [Contract, SectionOk, hpc] at hok
    exact hok
  · simp only [Contract, SectionOk, hpc] at hok
    exact hok
  · simp only [Contract, SectionOk, hpc] at hok
    exact hok _ hx rfl

/-- A select that waits has a waiter in a queue of the channel of each of its cases. -/
theorem Enlisted.attended (hk : s.Enlisted k) (h : s.Ok) {i : Nat} {x : SelectCase} {ch : ChanId}
    (hx : k.cases[i]? = some x) (hchan : x.isChannel = true) (hch : x.ch = some ch) :
    ¬s.rt.Unattended ch := by
  obtain ⟨w, -, hmem⟩ := (hk.selectAt h).2.1 i x hx hchan
  rintro ⟨-, -, hsenders, hreceivers⟩
  have href : (waiterOf k.task i x).ref = .senders ch ∨ (waiterOf k.task i x).ref = .receivers ch := by
    simp only [waiterOf, SelectWaiter.ref, hch, Option.getD_some]
    split
    · exact .inl rfl
    · exact .inr rfl
  rcases href with href | href
  · simp [href, hsenders] at hmem
  · simp [href, hreceivers] at hmem

theorem Enlisted.cancelled {a : Actor} {env : Env} {c : CallId} {x : HandleId} (hk : s.Enlisted k)
    (h : s.Ok) (hpc : s.pc a.agent = .called c (.cancel x))
    (hx : (s.rt.handle x).task = some k.task) (hok : s.Contract (.cont a env))
    (hs : s.step (.cont a env) = some s') : (s'.rt.task k.task).state ≠ .waitingSelect := by
  intro hst
  simp only [Contract, SectionOk, hpc] at hok
  have hok₀ := h.tick env.tape
  obtain ⟨-, hcall⟩ := hok₀.rest.inv.taskCancel hok₀.rest.noDead hok
  have heq := callApi_of_step hpc hs
  simp only [Sys.callApi] at heq
  rw [heq] at hst
  have hsel : (s.tick env.tape).rt.Selecting k.task := hk.selecting
  rcases hcall.state_eq hsel hok₀.rest.inv hx with hcomp | hready
  · have hnot := hok₀.rest.inv.not_completed hok hx
    exact absurd (hcomp.symm.trans hnot) (by simp)
  · exact absurd (hready.symm.trans hst) (by simp)

/-- A close leaves nobody in the queues of the channel. -/
theorem Ok.close_unattended {a : Actor} {env : Env} {c : CallId} {ch : ChanId} (h : s.Ok)
    (hpc : s.pc a.agent = .called c (.chanClose ch)) (hopen : (s.rt.chan ch).closed = false)
    (hs : s.step (.cont a env) = some s') : s'.rt.Unattended ch := by
  have hclose := (h.tick env.tape).rest.inv.chanClose (h.tick env.tape).rest.noWaiters ch
  have heq := callApi_of_step hpc hs
  simp only [Sys.callApi] at heq
  generalize (s.tick env.tape).rt.chanClose ch = r at hclose heq
  obtain ⟨rc, rt⟩ := r
  cases hclose with
  | again hclosed => exact absurd (hclosed.symm.trans hopen) (by simp)
  | drained _ _ _ hu =>
      rw [heq]
      exact hu

theorem Ok.destroy_unattended {a : Actor} {env : Env} {c : CallId} {ch : ChanId} (h : s.Ok)
    (hpc : s.pc a.agent = .called c (.chanDestroy ch))
    (hrc : ((s.tick env.tape).rt.chanDestroy ch).1 = .ok)
    (hs : s.step (.cont a env) = some s') : s'.rt.Unattended ch := by
  have hdestroy := (h.tick env.tape).rest.inv.chanDestroy (h.tick env.tape).rest.noWaiters ch
  have heq := callApi_of_step hpc hs
  simp only [Sys.callApi] at heq
  generalize (s.tick env.tape).rt.chanDestroy ch = r at hdestroy heq hrc
  obtain ⟨rc, rt⟩ := r
  rw [heq]
  cases hdestroy with
  | refused => cases hrc
  | dropped hu | drained _ _ hu => exact hu

/-- A send takes the first of the selects that wait to receive. -/
theorem Ok.send_wakes_first {a : Actor} {env : Env} {kind : SendKind} {ch : ChanId} {value : Addr}
    {w : WaiterId} (h : s.Ok)
    (hd : Pc.Does a.agent (s.pc a.agent) (.send kind ch value))
    (hopen : (s.rt.chan ch).closed = false) (hplain : (s.rt.waitq (.receivers ch)).items = [])
    (hhead : (s.rt.selectq (.receivers ch)).items.head? = some w)
    (hs : s.step (.cont a env) = some s') :
    (s'.rt.task (s.rt.selw w).task).state = .ready := by
  obtain ⟨c, hnow⟩ := task_of_send hd hs
  have hsend := (h.tick env.tape).rest.inv.sendNow (h.tick env.tape).rest.noWaiters c kind ch value
  cases hr : (s.tick env.tape).rt.chanSendNow c kind ch value with
  | none =>
      rw [hr] at hsend
      obtain ⟨-, -, hnone, -⟩ := hsend
      change (s.rt.selectq (.receivers ch)).items = [] at hnone
      simp [hnone] at hhead
  | some p =>
      obtain ⟨rc, r⟩ := p
      rw [hr] at hsend
      rw [hnow rc r hr]
      exact hsend.wakes_first hopen hplain hhead

theorem Ok.recv_wakes_first {a : Actor} {env : Env} {ch : ChanId} {out : Addr}
    {w : WaiterId} (h : s.Ok) (hvalid : (s.rt.chan ch).toRingBuffer.Valid)
    (hd : Pc.Does a.agent (s.pc a.agent) (.recv ch out))
    (hlive : (s.rt.chan ch).closed = false ∨ (s.rt.chan ch).len = 0)
    (hplain : (s.rt.waitq (.senders ch)).items = [])
    (hhead : (s.rt.selectq (.senders ch)).items.head? = some w)
    (hs : s.step (.cont a env) = some s') :
    (s'.rt.task (s.rt.selw w).task).state = .ready := by
  obtain ⟨c, hnow⟩ := task_of_recv hd hs
  have hrecv := (h.tick env.tape).rest.inv.recvNow (h.tick env.tape).rest.noWaiters c ch out
  cases hr : (s.tick env.tape).rt.chanRecvNow c ch out with
  | none =>
      rw [hr] at hrecv
      obtain ⟨-, -, -, hnone⟩ := hrecv
      change (s.rt.selectq (.senders ch)).items = [] at hnone
      simp [hnone] at hhead
  | some p =>
      obtain ⟨rc, r⟩ := p
      rw [hr] at hrecv
      rw [hnow rc r hr]
      exact hrecv.wakes_first hvalid hlive hplain hhead

theorem Forces.decides {act : Act} (hf : s.Forces k act) (hk : s.Enlisted k)
    (hr : machine.Reach Contract s) (hok : s.Contract act) (hs : s.step act = some s')
    (h' : s'.Ok) : ¬s'.Enlisted k := by
  intro hk'
  have h := ok_of_reach (fun _ _ hc => hc) hr
  have hst := hk'.state
  cases hf with
  | cancel a env c x hpc hx => exact hk.cancelled h hpc hx hok hs hst
  | close a env c ch i x hpc hopen hx hchan hch =>
      exact hk'.attended h' hx hchan hch (h.close_unattended hpc hopen hs)
  | destroy a env c ch i x hpc hrc hx hchan hch =>
      exact hk'.attended h' hx hchan hch (h.destroy_unattended hpc hrc hs)
  | expiry v env hv hstop htimed hdue =>
      have hmem : k.task ∈ s.rt.timers.items := (hk.selectAt h).2.2.1.mpr htimed
      rw [due_expires hr hv hstop hs hmem hdue] at hst
      simp [expiredTask, hk.state] at hst
  | send a env kind ch value w hd hopen hplain hhead htask =>
      have hready := h.send_wakes_first hd hopen hplain hhead hs
      exact absurd ((htask ▸ hready).symm.trans hst) (by simp)
  | recv a env ch out w hd hlive hplain hhead htask =>
      have hvalid := valid_of_reach hr (live_of_recv hok hd)
      have hready := h.recv_wakes_first hvalid hd hlive hplain hhead hs
      exact absurd ((htask ▸ hready).symm.trans hst) (by simp)

/-! ## The call returns -/

/-- The resumed task stores `index` in `*selected_index`, returns the result from its select
and changes nothing else. -/
def SelectReturned (s : Sys) (k : SelectCall) (rc : Rc) (index : Nat) (act : Act) (s' : Sys) :
    Prop :=
  ∃ v env, act = .cont (.task v k.task) env ∧ s'.selectedIndex k.call = some index ∧
    s' = { (s.tick env.tape).storeIndex k.call index with
      rt := (s.tick env.tape).rt.record (.ret k.call rc) }.setPc (.task k.task) .user

theorem selectReturned_of_cont {v : Nat} {env : Env} (hk : s.SelectAt k (.decided rc index))
    (hs : s.step (.cont (.task v k.task) env) = some s') :
    s.SelectReturned k rc index (.cont (.task v k.task) env) s' := by
  obtain ⟨hin, rfl, rfl, -⟩ := hk
  have hpc : (s.tick env.tape).pc (.task k.task) = .selectPark k.call k.cases k.plan := hin.pc
  simp only [Sys.step] at hs
  split at hs
  · change (s.tick env.tape).continueCall (.task v k.task) env = some s' at hs
    simp only [Sys.continueCall, Actor.agent, hpc] at hs
    obtain rfl := (Option.some.inj hs).symm
    exact ⟨v, env, rfl, Function.update_self .., rfl⟩
  · cases hs

/-! ## Every run follows the course of a select -/

/-- The course of a select that parked in `s₀`, along a run that has come to the given state. The
first event decides it, with these copies and no other, and takes tasks out of the queues
only. What comes later leaves the decision alone; a task that is cancelled once it is ready
again and a runtime that is shut down while it does not run are destroyed with their selects. -/
inductive SelectCourse (s₀ : Sys) (k : SelectCall) : List (Sys × Act) → Sys → SelectPhase → Prop
  | parked : SelectCourse s₀ k [] s₀ .waiting
  | waits {l s act s'} : SelectCourse s₀ k l s .waiting → s.step act = some s' →
      ¬s.Forces k act → SelectCourse s₀ k (l ++ [(s, act)]) s' .waiting
  | decides {l s act s' rc index copies} : SelectCourse s₀ k l s .waiting → s.step act = some s' →
      s.Resolves k act rc index copies → s.rt.Adds s'.rt copies →
      (∀ x, s'.rt.mem x ≠ s.rt.mem x → ∃ e ∈ copies, e.Writes x) → s.rt.Yields s'.rt →
      SelectCourse s₀ k (l ++ [(s, act)]) s' (.decided rc index)
  | keeps {l s act s' rc index} : SelectCourse s₀ k l s (.decided rc index) →
      s.step act = some s' → SelectCourse s₀ k (l ++ [(s, act)]) s' (.decided rc index)
  | returns {l s act s' rc index} : SelectCourse s₀ k l s (.decided rc index) →
      s.step act = some s' → s.SelectReturned k rc index act s' →
      SelectCourse s₀ k (l ++ [(s, act)]) s' .finished
  | killed {l s act s' p} : SelectCourse s₀ k l s p → s.step act = some s' → s.Kills k.task act →
      SelectCourse s₀ k (l ++ [(s, act)]) s' .finished
  | after {l s act s'} : SelectCourse s₀ k l s .finished → s.step act = some s' →
      SelectCourse s₀ k (l ++ [(s, act)]) s' .finished

theorem Resolves.of_tick {act : Act} {tape : List Bool} {copies : List Event}
    (hr : (s.tick tape).Resolves k act rc index copies) : s.Resolves k act rc index copies := by
  cases hr with
  | given a env c kind ch value i out ms v h1 h2 h3 =>
      exact .given a env c kind ch value _ out ms v h1 h2 h3
  | taken a env c ch out i src ms v h1 h2 h3 => exact .taken a env c ch out _ src ms v h1 h2 h3
  | refilled a env c ch out i src ms u v h1 h2 h3 =>
      exact .refilled a env c ch out _ src ms u v h1 h2 h3
  | closed a env ch i x h1 h2 h3 h4 => exact .closed a env ch _ x h1 h2 h3 h4
  | expiry v env i x h1 h2 h3 h4 => exact .expiry v env _ x h1 h2 h3 h4
  | cancelled a env x index h1 h2 => exact .cancelled a env x _ h1 h2

theorem Resolves.not_write {act : Act} {copies : List Event}
    (hr : s.Resolves k act rc index copies) (a : Actor) (addr : Addr) (v : List Byte) :
    act ≠ .write a addr v := by
  cases hr <;> exact fun h => nomatch h

theorem Enlisted.tick {tape : List Bool} (hk : s.Enlisted k) : (s.tick tape).Enlisted k :=
  ⟨⟨hk.inside.mem, hk.inside.pc⟩, hk.state, hk.planned, hk.waiters, hk.complete, hk.timed⟩

theorem SelectCourse.step {s₀ : Sys} {l : List (Sys × Act)} {p : SelectPhase} {act : Act}
    (hk : s₀.SelectCourse k l s p) (hat : s.SelectAt k p) (hr : machine.Reach Contract s)
    (hok : s.Contract act) (hs : s.step act = some s') :
    ∃ p', s₀.SelectCourse k (l ++ [(s, act)]) s' p' ∧ s'.SelectAt k p' := by
  have h := ok_of_reach (fun _ _ hc => hc) hr
  obtain ⟨s₁, hprep, hc⟩ := h.step_cases hok hs
  have h' : s'.Ok := hc.ok (hprep.ok h)
  cases p with
  | finished => exact ⟨.finished, .after hk hs, trivial⟩
  | waiting =>
      obtain ⟨tape, rfl⟩ := hprep.tick_of_mem h hat.1.inside.mem
      rcases selecting_step hat.1.tick (h.tick tape) h' hc with
        hk' | ⟨rc, index, copies, hr, hadds, hyields, hat'⟩ | hkill
      · exact ⟨_, .waits hk hs fun hf => hf.decides hat.1 hr hok hs h' hk', hk'.selectAt h'⟩
      · have hcopies := hc.copies (h.tick tape) hr.not_write
        refine ⟨_, .decides hk hs hr.of_tick hadds (fun x hx => hcopies.writes hadds hx) ?_, hat'⟩
        exact ⟨hyields.queues, hyields.runq, hyields.timers⟩
      · exact ⟨.finished, .killed hk hs hkill.of_tick, trivial⟩
  | decided rc index =>
      obtain ⟨tape, rfl⟩ := hprep.tick_of_mem h hat.1.mem
      have hat₁ : (s.tick tape).SelectAt k (.decided rc index) :=
        ⟨⟨hat.1.mem, hat.1.pc⟩, hat.2⟩
      rcases decided_step hat₁ (h.tick tape) h' hc with hat' | ⟨v, env, rfl⟩ | hkill
      · exact ⟨_, .keeps hk hs, hat'⟩
      · exact ⟨.finished, .returns hk hs (selectReturned_of_cont hat hs), trivial⟩
      · exact ⟨.finished, .killed hk hs hkill.of_tick, trivial⟩

/-! ## Parking -/

end Sys

end Microthread
