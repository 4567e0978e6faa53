import Microthread.Invariant.Copies
import Microthread.System.Schedule
import Microthread.System.Traffic

/-!
# What decides a parked select

A task that waits in `mt_select` has a waiter for each of its channel cases. A peer, a
channel that closes, the clock and a cancellation race for it. Whichever section comes first
takes all the waiters out of their queues and leaves its result in the record of the task.
The sections that can do so are listed here with what they leave; every other step spares the
task and its waiters.
-/

namespace Microthread

open Foundation Rt

/-- The record of a task whose select is decided. -/
def Task.decided (k : Task) (rc : Rc) (index : Nat) : Task :=
  { k with
    wakeNs := if k.selectInTimer then 0 else k.wakeNs
    selectInTimer := false, selectWaiters := [], selectWaiterCount := 0
    selectCountedWaiting := false, selectResult := rc, selectIndex := index, state := .ready }

namespace Rt

variable {s s' a : Rt} {t u : TaskId} {w : WaiterId} {rc : Rc}

/-- A registered task waits in a select. -/
def Selecting (s : Rt) (t : TaskId) : Prop :=
  t ∈ s.allTasks ∧ (s.task t).state = .waitingSelect

/-- The record of `t` and those of its waiters are left alone. -/
structure Spares (t : TaskId) (s s' : Rt) : Prop where
  task : s'.task t = s.task t
  selw : ∀ w ∈ (s.task t).selectWaiters, s'.selw w = s.selw w

theorem Spares.refl (t : TaskId) (s : Rt) : Spares t s s := ⟨rfl, fun _ _ => rfl⟩

theorem Spares.of_eq (ht : s'.task t = s.task t) (hw : s'.selw = s.selw) : Spares t s s' :=
  ⟨ht, fun w _ => congrFun hw w⟩

theorem Spares.trans (h : Spares t s a) (h' : Spares t a s') : Spares t s s' where
  task := h'.task.trans h.task
  selw w hw := (h'.selw w (by rw [h.task]; exact hw)).trans (h.selw w hw)

/-- The record of another task is replaced. -/
theorem Spares.update {k : Task} (hne : t ≠ u) (ht : s'.task = Function.update s.task u k)
    (hw : s'.selw = s.selw) : Spares t s s' :=
  .of_eq (by rw [ht, Function.update_of_ne hne]) hw

theorem Selecting.ne (h : s.Selecting t) (hu : (s.task u).state ≠ .waitingSelect) : t ≠ u := by
  rintro rfl
  exact hu h.2

theorem Selecting.ne_of_waitq (h : s.Selecting t) (hi : s.Inv) {r : WaitqRef}
    (hu : u ∈ (s.waitq r).items) : t ≠ u := by
  rintro rfl
  obtain ⟨-, hslot⟩ := hi.mem_waitq hu
  simp only [Task.slot, h.2] at hslot
  split at hslot <;> cases hslot

/-- Completing the select of another task. -/
theorem Selecting.spares_wakeSelect (h : s.Selecting t) (hi : s.Inv) (hu : u ∈ s.allTasks)
    (hne : t ≠ u) (items : List TaskId) (role : Role) (rc : Rc) (index : Nat) :
    Spares t s (s.wakeSelect u items role rc index) where
  task := Function.update_of_ne hne _ _
  selw w hw := by
    refine if_neg fun hother => hne ?_
    exact (hi.select.owner t h.1 w hw).1.symm.trans (hi.select.owner u hu w hother).1

/-- Completing the select of `t` itself. -/
theorem wakeSelect_decided (s : Rt) (t : TaskId) (items : List TaskId) (role : Role) (rc : Rc)
    (index : Nat) :
    (s.wakeSelect t items role rc index).task t = (s.task t).decided rc index :=
  Function.update_self ..

/-- A task that has been made ready keeps its record. -/
theorem Inv.decided_kept (h : s.Inv) (hm : Moves s s') (ht : t ∈ s.allTasks) {k : Task}
    {index : Nat} (hk : s.task t = k.decided rc index) : s'.task t = k.decided rc index := by
  have hready : (s.task t).state = .ready := by rw [hk]; rfl
  exact (Moves.task_eq hm h ht (.inl hready)).trans hk

end Rt

open Rt

variable {s s' : Rt} {t u : TaskId} {ch : ChanId}

/-! ## Changes that decide no select -/

section Quiet

variable (ht : s.Selecting t) (hi : s.Inv)

include ht hi

theorem FdShift.spares {k : FdCause} (hm : FdShift k s s') : Spares t s s' := by
  cases hm with
  | tape | insert => exact .of_eq rfl rfl
  | wake w items rc ready hw ha =>
      have hstate := (hi.fd.owner w hw).2.2.2.mp ha
      exact .update (ht.ne (by simp [hstate])) rfl rfl

theorem HandleShift.spares (hm : HandleShift s s') : Spares t s s' := by
  cases hm with
  | complete | drop => exact .of_eq rfl rfl
  | wakeJoin x u hx hc hu => exact .update (ht.ne_of_waitq hi (List.mem_of_head? hu)) rfl rfl

theorem Waste.spares (hm : Waste s s') : Spares t s s' := by
  cases hm with
  | tape | object | handle => exact .of_eq rfl rfl
  | task k nextId =>
      refine .update (u := s.nextAddr) ?_ rfl rfl
      exact ne_of_mem_of_not_mem ht.1 (hi.fresh_task le_rfl)

end Quiet

/-- A task that is spared goes on waiting. -/
theorem Rt.Spares.selecting (h : Spares t s s') (ht : s.Selecting t)
    (hall : s'.allTasks = s.allTasks) : s'.Selecting t :=
  ⟨hall ▸ ht.1, by rw [h.task]; exact ht.2⟩

theorem Shifts.spares {R : Rt → Rt → Prop} (hR : ∀ {a b : Rt}, R a b → Shifts a b)
    (hone : ∀ {a b : Rt}, a.Selecting t → a.Inv → R a b → Spares t a b)
    (hm : Relation.ReflTransGen R s s') (ht : s.Selecting t) (hi : s.Inv) : Spares t s s' := by
  induction hm with
  | refl => exact .refl t s
  | @tail a b hms hm ih =>
      have hshifts : Shifts s a := by
        clear ih hm
        induction hms with
        | refl => exact .refl
        | tail _ hm ih => exact ih.trans (hR hm)
      have hall := Moves.allTasks_eq (Shifts.moves hshifts)
      exact ih.trans (hone (ih.selecting ht hall) (Shifts.inv hshifts hi) hm)

/-! ## Sections that complete a select -/

/-- A copy of a value. -/
def Event.isCopy : Event → Bool
  | .push .. | .pop .. | .handoff .. => true
  | .done .. | .ret .. => false

theorem Event.isCopy_eq_false {e : Event} (h : ¬e.IsTransfer) : e.isCopy = false := by
  cases e with
  | done | ret => rfl
  | _ => exact absurd trivial h

namespace Rt

variable {c : CallId} {copies more : List Event}

/-- The history has grown by these copies, and by entries that are none. -/
def Adds (s s' : Rt) (copies : List Event) : Prop :=
  ∃ es, s'.log = s.log ++ es ∧ es.filter Event.isCopy = copies

theorem Adds.trans {a : Rt} (h : s.Adds a copies) (h' : a.Adds s' more) :
    s.Adds s' (copies ++ more) := by
  obtain ⟨es, hes, rfl⟩ := h
  obtain ⟨fs, hfs, rfl⟩ := h'
  exact ⟨es ++ fs, by rw [hfs, hes, List.append_assoc], List.filter_append ..⟩

theorem Adds.of_not_transfer (h : ∃ es, s'.log = s.log ++ es ∧ ∀ e ∈ es, ¬e.IsTransfer) :
    s.Adds s' [] := by
  obtain ⟨es, hes, h⟩ := h
  refine ⟨es, hes, List.filter_eq_nil_iff.mpr fun e he => ?_⟩
  simp [Event.isCopy_eq_false (h e he)]

theorem Murmurs.adds (h : s.Murmurs s') : s.Adds s' [] := by
  obtain ⟨es, hes, h⟩ := h
  exact .of_not_transfer ⟨es, hes, fun e he => (h e he).1⟩

/-- How a section on behalf of call `c` decides the select of `t`: the result, the index, and
the copies. A value is given to a receiving waiter, or taken from a sending one, also into the
room that a receive makes in the buffer; the channel of a waiter is closed, or found closed;
or the task is cancelled. -/
inductive Awards (s : Rt) (does : Op → Prop) (c : CallId) (t : TaskId) :
    Rc → Nat → List Event → Prop where
  | given (kind ch value w) : does (.send kind ch value) → w ∈ (s.task t).selectWaiters →
      (s.selw w).ref = .receivers ch →
      Awards s does c t .ok (s.selw w).index
        [.handoff ch c kind value (s.task t).call (s.selw w).value (s.valueAt ch value)]
  | taken (ch out w) : does (.recv ch out) → w ∈ (s.task t).selectWaiters →
      (s.selw w).ref = .senders ch →
      Awards s does c t .ok (s.selw w).index
        [.handoff ch (s.task t).call .select (s.selw w).value c out (s.valueAt ch (s.selw w).value)]
  | refilled (ch out w u v) : does (.recv ch out) → w ∈ (s.task t).selectWaiters →
      (s.selw w).ref = .senders ch →
      Awards s does c t .ok (s.selw w).index
        [.pop ch c out u, .push ch (s.task t).call .select (s.selw w).value v]
  | closed (ch w) : (does (.close ch) ∨ does (.destroy ch) ∨
        ∃ out, does (.recv ch out) ∧ (s.chan ch).closed = true) →
      w ∈ (s.task t).selectWaiters → (s.selw w).ref.chan = ch →
      Awards s does c t .closed (s.selw w).index []
  | cancelled (x) : does (.cancel x) → (s.handle x).task = some t →
      Awards s does c t .cancelled (s.task t).selectIndex []

/-- The task is spared, or its select is decided. -/
inductive Rules (P : Rc → Nat → List Event → Prop) (t : TaskId) (s s' : Rt) : Prop where
  | spared : Spares t s s' → Rules P t s s'
  | decided (rc index copies) : P rc index copies →
      s'.task t = (s.task t).decided rc index → s.Adds s' copies → Rules P t s s'

end Rt

section Drains

variable (ht : s.Selecting t) (hi : s.Inv)

include ht hi

/-- A drain of channel `ch` completes the select of a waiter at `ch`. -/
theorem Drain.rules (hd : Drain ch s s') : Spares t s s' ∨
    ∃ w ∈ (s.task t).selectWaiters, (s.selw w).ref.chan = ch ∧
      s'.task t = (s.task t).decided .closed (s.selw w).index := by
  cases hd with
  | task r u _ _ hu =>
      exact .inl (.update (ht.ne_of_waitq hi (List.mem_of_head? hu)) rfl rfl)
  | select r w items hr _ hw =>
      obtain ⟨hmem, hlist, href⟩ := hi.mem_selectq (List.mem_of_head? hw)
      by_cases hne : t = (s.selw w).task
      · subst hne
        exact .inr ⟨w, hlist, href ▸ hr, s.wakeSelect_decided ..⟩
      · exact .inl (ht.spares_wakeSelect hi hmem hne ..)

theorem Drains.rules (hd : Drains ch s s') : Spares t s s' ∨
    ∃ w ∈ (s.task t).selectWaiters, (s.selw w).ref.chan = ch ∧
      s'.task t = (s.task t).decided .closed (s.selw w).index := by
  induction hd with
  | refl => exact .inl (.refl t s)
  | tail hds hd ih =>
      have hmoves := Shifts.moves (Drains.shifts hds)
      have ha := Moves.inv hmoves hi
      have hall := Moves.allTasks_eq hmoves
      rcases ih with hsp | ⟨w, hw, hch, hdec⟩
      · rcases Drain.rules (hsp.selecting ht hall) ha hd with hsp' | ⟨w, hw, hch, hdec⟩
        · exact .inl (hsp.trans hsp')
        · rw [hsp.task] at hw hdec
          rw [hsp.selw w hw] at hch hdec
          exact .inr ⟨w, hw, hch, hdec⟩
      · refine .inr ⟨w, hw, hch, ?_⟩
        exact ha.decided_kept (.single (.shift (.drain hd))) (hall ▸ ht.1) hdec

theorem Rt.Closes.rules {rc : Rc} (hc : Closes s ch rc s') : Spares t s s' ∨
    ∃ w ∈ (s.task t).selectWaiters, (s.selw w).ref.chan = ch ∧
      s'.task t = (s.task t).decided .closed (s.selw w).index := by
  cases hc with
  | again => exact .inl (.refl t s)
  | drained _ _ hd =>
      have hclose : (s.modChan ch fun k => { k with closed := true }).Inv := hi.modChan fun _ => rfl
      have htc : (s.modChan ch fun k => { k with closed := true }).Selecting t := ht
      rcases Drains.rules htc hclose hd with hsp | hdec
      · exact .inl ⟨hsp.task, hsp.selw⟩
      · exact .inr hdec

theorem Rt.Destroys.rules {rc : Rc} (hd : Destroys s ch rc s') : Spares t s s' ∨
    ∃ w ∈ (s.task t).selectWaiters, (s.selw w).ref.chan = ch ∧
      s'.task t = (s.task t).decided .closed (s.selw w).index := by
  cases hd with
  | refused => exact .inl (.refl t s)
  | dropped => exact .inl (.of_eq rfl rfl)
  | drained a hd =>
      have hclose : (s.modChan ch fun k => { k with closed := true }).Inv := hi.modChan fun _ => rfl
      have htc : (s.modChan ch fun k => { k with closed := true }).Selecting t := ht
      rcases Drains.rules htc hclose hd with hsp | hdec
      · exact .inl ⟨hsp.task, hsp.selw⟩
      · exact .inr hdec

end Drains

section Peers

variable {does : Op → Prop} {c : CallId} {rc : Rc}
  (ht : s.Selecting t) (hi : s.Inv)

include ht hi

/-- A value is copied, and a waiter's select completed. -/
theorem rules_wakeSelect {P : Rc → Nat → List Event → Prop} {a : Rt} {w : WaiterId}
    {r : SelectqRef} {items : List TaskId} {copies : List Event}
    (hw : w ∈ (s.selectq r).items) (htask : a.task = s.task) (hselw : a.selw = s.selw)
    (hadds : s.Adds a copies)
    (hP : w ∈ (s.task t).selectWaiters → (s.selw w).ref = r → (s.selw w).task = t →
      P rc (s.selw w).index copies) :
    Rules P t s (a.wakeSelect (s.selw w).task items (s.selw w).role rc (s.selw w).index) := by
  obtain ⟨hmem, hlist, href⟩ := hi.mem_selectq hw
  by_cases hne : t = (s.selw w).task
  · subst hne
    refine .decided rc (s.selw w).index (copies ++ []) ?_ ?_ (hadds.trans ⟨_, rfl, rfl⟩)
    · rw [List.append_nil]
      exact hP hlist href rfl
    · rw [wakeSelect_decided, htask]
  · refine .spared ⟨?_, fun v hv => ?_⟩
    · exact (Function.update_of_ne hne _ _).trans (congrFun htask t)
    · have hnot : v ∉ (a.task (s.selw w).task).selectWaiters := fun hother => by
        rw [htask] at hother
        exact hne ((hi.select.owner t ht.1 v hv).1.symm.trans
          (hi.select.owner _ hmem v hother).1)
      exact (if_neg hnot).trans (congrFun hselw v)

theorem Rt.SendNow.rules {kind : SendKind} {value : Addr} (hsend : SendNow s c kind ch value rc s')
    (hd : does (.send kind ch value)) : Rules (Awards s does c t) t s s' := by
  cases hsend with
  | closed => exact .spared (.refl t s)
  | plain u _ hu =>
      exact .spared (.update (ht.ne_of_waitq hi (List.mem_of_head? hu)) rfl rfl)
  | select w items _ _ hw hs htimers =>
      refine rules_wakeSelect ht hi (List.mem_of_head? hw) rfl rfl ⟨[_], rfl, rfl⟩ ?_
      intro hlist href htask
      rw [htask]
      exact .given kind ch value w hd hlist href
  | buffer => exact .spared (.of_eq rfl rfl)

theorem Rt.Filled.rules (hf : Filled s ch s') :
    Rules (fun rc index copies => ∃ w ∈ (s.task t).selectWaiters, (s.selw w).ref = .senders ch ∧
      rc = .ok ∧ index = (s.selw w).index ∧
      ∃ v, copies = [.push ch (s.task t).call .select (s.selw w).value v]) t s s' := by
  cases hf with
  | nothing => exact .spared (.refl t s)
  | plain u _ _ hu =>
      exact .spared (.update (ht.ne_of_waitq hi (List.mem_of_head? hu)) rfl rfl)
  | select w items _ _ _ hw hs htimers =>
      refine rules_wakeSelect ht hi (List.mem_of_head? hw) rfl rfl ⟨[_], rfl, rfl⟩ ?_
      intro hlist href htask
      refine ⟨w, hlist, href, rfl, rfl, s.valueAt ch (s.selw w).value, ?_⟩
      rw [htask]
      rfl

theorem Rt.RecvNow.rules {out : Addr} (hrecv : RecvNow s c ch out rc s')
    (hd : does (.recv ch out)) : Rules (Awards s does c t) t s s' := by
  cases hrecv with
  | buffer _ hpos hf =>
      have hpop : s.Adds (s.dequeue ch c out) [.pop ch c out (s.chanBufferPop ch out).1] :=
        ⟨[_], rfl, rfl⟩
      have hdeq : (s.dequeue ch c out).Inv := Moves.inv (dequeue_moves ..) hi
      have hsel : (s.dequeue ch c out).Selecting t := ht
      cases Filled.rules hsel hdeq hf with
      | spared h => exact .spared ⟨h.task, h.selw⟩
      | decided rc index copies hP htask hadds =>
          obtain ⟨w, hw, href, rfl, rfl, v, rfl⟩ := hP
          exact .decided _ _ _ (.refilled ch out w _ v hd hw href) htask (hpop.trans hadds)
  | plain u _ _ hu =>
      exact .spared (.update (ht.ne_of_waitq hi (List.mem_of_head? hu)) rfl rfl)
  | select w items _ _ _ hw hs htimers =>
      refine rules_wakeSelect ht hi (List.mem_of_head? hw) rfl rfl ⟨[_], rfl, rfl⟩ ?_
      intro hlist href htask
      rw [htask]
      exact .taken ch out w hd hlist href
  | closedPlain u _ _ hu =>
      exact .spared (.update (ht.ne_of_waitq hi (List.mem_of_head? hu)) rfl rfl)
  | closedSelect w items _ hclosed _ hw hs htimers =>
      refine rules_wakeSelect (a := s) ht hi (List.mem_of_head? hw) rfl rfl
        ⟨[], (List.append_nil _).symm, rfl⟩ ?_
      intro hlist href _
      exact .closed ch w (.inr (.inr ⟨out, hd, hclosed⟩)) hlist (by rw [href]; rfl)
  | closed => exact .spared (.refl t s)

end Peers

/-! ## The worker's loop and cancellation -/

section Others

variable {k : FdCause} (ht : s.Selecting t) (hi : s.Inv)

include ht hi

theorem FdShifts.spares (hm : FdShifts k s s') : Spares t s s' :=
  Shifts.spares (fun h => h.shifts) (fun ht hi h => h.spares ht hi) hm ht hi

theorem HandleShifts.spares (hm : HandleShifts s s') : Spares t s s' :=
  Shifts.spares (fun h => .single h.shift) (fun ht hi h => h.spares ht hi) hm ht hi

theorem Wastes.spares (hm : Wastes s s') : Spares t s s' :=
  Shifts.spares (fun h => .single h.shift) (fun ht hi h => h.spares ht hi) hm ht hi

/-- A pass over the timers completes a select whose deadline has come. -/
theorem Tick.rules (hm : Tick k s s') : Spares t s s' ∨
    ((s.task t).selectInTimer = true ∧ (∃ nowNs, k = .expiry nowNs ∧ (s.task t).wakeNs ≤ nowNs) ∧
      s'.task t = (s.task t).decided .ok (s.task t).selectIndex) := by
  cases hm with
  | fd hm => exact .inl (hm.spares ht hi)
  | polling => exact .inl (.of_eq rfl rfl)
  | timeout u items hu _ hin _ hdue =>
      by_cases hne : t = u
      · subst hne
        exact .inr ⟨hin, hdue, s.wakeSelect_decided ..⟩
      · exact .inl (ht.spares_wakeSelect hi hu hne ..)
  | wakeSleep u items _ hu => exact .inl (.update (ht.ne (by simp [hu])) rfl rfl)

theorem Ticks.rules (hm : Ticks k s s') : Spares t s s' ∨
    ((s.task t).selectInTimer = true ∧ (∃ nowNs, k = .expiry nowNs ∧ (s.task t).wakeNs ≤ nowNs) ∧
      s'.task t = (s.task t).decided .ok (s.task t).selectIndex) := by
  induction hm with
  | refl => exact .inl (.refl t s)
  | tail hms hm ih =>
      have hmoves := Shifts.moves (Ticks.shifts hms)
      have ha := Moves.inv hmoves hi
      have hall := Moves.allTasks_eq hmoves
      rcases ih with hsp | ⟨hin, hdue, hdec⟩
      · have hstep := hm.rules (hsp.selecting ht hall) ha
        rw [hsp.task] at hstep
        exact hstep.imp_left hsp.trans
      · refine .inr ⟨hin, hdue, ?_⟩
        exact ha.decided_kept (Shifts.moves hm.shifts) (hall ▸ ht.1) hdec

theorem Buries.spares (hb : Buries u s s') (hne : t ≠ u) : Spares t s s' := by
  obtain @⟨a, hm, -, -, -⟩ := hb
  refine (HandleShifts.spares ht hi hm).trans ⟨reap_task_of_ne a hne, fun w _ => ?_⟩
  unfold Rt.reap
  split <;> rfl

/-- A cancellation completes the select of its target. -/
theorem Cancels.rules (hc : Cancels u s s') : Spares t s s' ∨
    (t = u ∧ s'.task t = (s.task t).decided .cancelled (s.task t).selectIndex) := by
  cases hc with
  | nothing => exact .inl (.refl t s)
  | sleep items _ hu => exact .inl (.update (ht.ne (by simp [hu])) rfl rfl)
  | chan r hu | join x hu => exact .inl (.update (ht.ne_of_waitq hi hu) rfl rfl)
  | select items hu =>
      by_cases hne : t = u
      · subst hne
        exact .inr ⟨rfl, s.wakeSelect_decided ..⟩
      · exact .inl (ht.spares_wakeSelect hi hu hne ..)
  | fd w items hw ha =>
      have hstate := (hi.fd.owner w hw).2.2.2.mp ha
      exact .inl (.update (ht.ne (by simp [hstate])) rfl rfl)
  | destroy hu hready hb =>
      have hne := ht.ne (u := u) (by simp [hready])
      have hkill : Spares t s (s.killReady u) := .update hne rfl rfl
      exact .inl (hkill.trans (hb.spares (hkill.selecting ht rfl) (hi.killReady hu hready) hne))

theorem Rt.CancelCall.rules {x : HandleId} (hc : CancelCall s x s') : Spares t s s' ∨
    ((s.handle x).task = some t ∧
      s'.task t = (s.task t).decided .cancelled (s.task t).selectIndex) := by
  cases hc with
  | late => exact .inl (.of_eq rfl rfl)
  | wake u a hx hcomp htask hcancel =>
      have hrep : (s.reported x).Inv := Shifts.inv (reported_shifts hcomp) hi
      have hsel : (s.reported x).Selecting t := ht
      rcases hcancel.rules hsel hrep with hsp | ⟨rfl, hdec⟩
      · exact .inl ⟨hsp.task, hsp.selw⟩
      · exact .inr ⟨htask, hdec⟩

theorem Rt.FdOp.spares {does : Op → Prop} (ho : FdOp does s s') : Spares t s s' := by
  have quiet : ∀ {r : Rt}, Regen s r → Spares t s r := by
    rintro r ⟨gens, tape, rfl⟩
    exact .of_eq rfl rfl
  cases ho with
  | tape | forget => exact .of_eq rfl rfl
  | adopt fd flags => exact quiet (s.fdAdopt_regen fd flags)
  | release fd => exact quiet (s.fdRelease_regen fd)
  | close fd =>
      obtain ⟨a, hr, hm⟩ := hi.fdCloseBegin fd
      have hsp := quiet hr
      have hall : a.allTasks = s.allTasks := by
        obtain ⟨gens, tape, rfl⟩ := hr
        rfl
      exact hsp.trans (FdShifts.spares (hsp.selecting ht hall) (hr.quiet.inv hi) hm)
  | unmark fd => exact quiet (s.fdCloseEnd_regen fd)

theorem Rt.Created.spares (hc : Created s s') : Spares t s s' := by
  have hfresh := fun n (hn : s.nextAddr ≤ n) => ne_of_mem_of_not_mem ht.1 (hi.fresh_task hn)
  cases hc with
  | no a hm => exact Wastes.spares ht hi hm
  | task tape => exact .update (hfresh _ le_rfl) rfl rfl
  | handle tape => exact .update (hfresh _ (Nat.le_succ _)) rfl rfl
  | chan => exact .of_eq rfl rfl

end Others

/-- Another task enters its waiters. -/
theorem Registers.spares (hm : Registers u s s') (hi : s.Inv) (hu : s.Runs u)
    (ht : s.Selecting t) : Spares t s s' := by
  have hne := ht.ne (u := u) (by simp [hu.2])
  have henr := Registers.enrols hm
  have htask := henr.task_of_ne hne
  have hinv := (Registers.inv hm hi hu.1 hu.2).1
  have hall : s'.allTasks = s.allTasks := by
    obtain ⟨_, _, _, _, _, _, _, _, _, _, _, _, rfl⟩ := henr
    rfl
  refine ⟨htask, fun w hw => ?_⟩
  -- the waiter is linked in both states, and registration leaves linked waiters alone
  have hmem : t ∈ s'.allTasks := hall ▸ ht.1
  have hlist : w ∈ (s'.task t).selectWaiters := by rwa [htask]
  have howner := (hinv.select.owner t hmem w hlist).1
  refine (Registers.selw hm).2 (s'.selw w).ref w ?_ (hi.heap.fresh _ (hi.heap.selectWaiter t ht.1 w hw))
  exact (hinv.select.placed.mem _ w).mpr ⟨⟨by rwa [howner], by rwa [howner]⟩, rfl⟩

theorem Rt.Marked.spares (hm : Marked s s') : Spares t s s' := by
  rcases hm with rfl | ⟨x, st, -, rfl⟩
  · exact .refl t _
  · exact .of_eq rfl rfl

theorem Parks.spares {c : CallId} {q p : Pc} (hp : Parks u c q s p s') (h : s.Rest)
    (hu : s.Runs u) (ht : s.Selecting t) : Spares t s s' := by
  have hne := ht.ne (u := u) (by simp [hu.2])
  cases hp with
  | send | recv | join | sleep | yield => exact .update hne rfl rfl
  | select cases plan _ hch hp =>
      have henr := fun tape =>
        (enrolled_registers (h.noWaiters u hu) hch plan tape).spares h.inv hu ht
      cases hp with
      | untimed tape => exact (henr tape).trans (.update hne rfl rfl)
      | timed tape timers wakeNs i => exact (henr tape).trans (.update hne rfl rfl)
  | fd timers wakeNs x use _ hq =>
      obtain ⟨gens, polling, interest, filters, tape, rfl⟩ := hq
      exact .update hne rfl rfl

/-- The sections that serve a call decide a select as `Awards` says. -/
theorem Rt.Section.rules {does : Op → Prop} {c : CallId} {o : Option (Role × Rc)}
    (hs : Section does c s o s') (h : s.Rest) (ht : s.Selecting t) :
    Rules (Awards s does c t) t s s' := by
  have hi := h.inv
  have running : ∀ {u : TaskId}, s.Runs u → t ≠ u := fun hu => ht.ne (by simp [hu.2])
  have closed : ∀ {ch : ChanId}, (does (.close ch) ∨ does (.destroy ch)) → s.Murmurs s' →
      (Spares t s s' ∨ ∃ w ∈ (s.task t).selectWaiters, (s.selw w).ref.chan = ch ∧
        s'.task t = (s.task t).decided .closed (s.selw w).index) →
      Rules (Awards s does c t) t s s' := by
    rintro ch hd hm (hsp | ⟨w, hw, hch, hdec⟩)
    · exact .spared hsp
    · have hwhy := hd.imp_right (Or.inl (b := ∃ out, does (.recv ch out) ∧ (s.chan ch).closed = true))
      exact .decided _ _ _ (.closed ch w hwhy hw hch) hdec hm.adds
  cases hs with
  | idle => exact .spared (.of_eq rfl rfl)
  | release x rc _ hr => cases hr <;> exact .spared (.of_eq rfl rfl)
  | fd o _ _ ho => exact .spared (ho.spares ht hi)
  | go rc _ _ hc => exact .spared (hc.spares ht hi)
  | chanCreate rc _ _ hc => exact .spared (hc.created.spares ht hi)
  | cancel x hd hc =>
      rcases hc.rules ht hi with hsp | ⟨hx, hdec⟩
      · exact .spared hsp
      · exact .decided _ _ _ (.cancelled x hd hx) hdec hc.murmurs.adds
  | send kind ch value rc hd _ hsend => exact hsend.rules ht hi hd
  | sendNot | recvNot => exact .spared (.refl t s)
  | recv ch out rc hd _ hrecv => exact hrecv.rules ht hi hd
  | close ch rc hd _ hc => exact closed (.inl hd) hc.murmurs (hc.rules ht hi)
  | destroy ch rc hd _ hds => exact closed (.inr hd) hds.murmurs (hds.rules ht hi)
  | unselect u rc _ hu hf =>
      exact .spared (Registers.spares hf.registers hi hu ht)
  | unwait u rc x _ _ hu hq =>
      obtain ⟨gens, polling, interest, filters, tape, rfl⟩ := hq
      exact .spared (.update (running hu) rfl rfl)

/-! ## What becomes of the queues -/

/-- Tasks may have left the queues and the timers, and become ready. What stays keeps its
order. -/
structure Rt.Yields (s s' : Rt) : Prop where
  queues : Shrinks s s'
  runq : ∃ us, s'.runq.items = s.runq.items ++ us
  timers : ∃ us, s.timers.items.Perm (us ++ s'.timers.items)

namespace Rt.Yields

theorem refl (s : Rt) : s.Yields s :=
  ⟨.refl s, ⟨[], (List.append_nil _).symm⟩, ⟨[], .refl _⟩⟩

theorem trans {a : Rt} (h : s.Yields a) (h' : a.Yields s') : s.Yields s' where
  queues := h.queues.trans h'.queues
  runq := by
    obtain ⟨us, hus⟩ := h.runq
    obtain ⟨vs, hvs⟩ := h'.runq
    exact ⟨us ++ vs, by rw [hvs, hus, List.append_assoc]⟩
  timers := by
    obtain ⟨us, hus⟩ := h.timers
    obtain ⟨vs, hvs⟩ := h'.timers
    refine ⟨us ++ vs, hus.trans ?_⟩
    rw [List.append_assoc]
    exact hvs.append_left us

/-- The timers that remain are given. -/
theorem mk_of (hq : Shrinks s s') (hr : s'.runq = s.runq ∨ ∃ u, s'.runq = s.runq.push u)
    (ht : ∃ us, s.timers.items.Perm (us ++ s'.timers.items)) : s.Yields s' where
  queues := hq
  runq := by
    rcases hr with hr | ⟨u, hr⟩
    · exact ⟨[], by rw [hr, List.append_nil]⟩
    · exact ⟨[u], by rw [hr, Queue.push_items]⟩
  timers := ht

end Rt.Yields

theorem Rt.TimersAfter.split {items : List TaskId} (h : s.TimersAfter t items) :
    ∃ us, s.timers.items.Perm (us ++ items) := by
  unfold Rt.TimersAfter at h
  split at h
  · exact ⟨[t], h.perm⟩
  · exact ⟨[], by rw [h]; exact .refl _⟩

theorem Shift.timers_perm (hm : Shift s s') : ∃ us, s.timers.items.Perm (us ++ s'.timers.items) := by
  cases hm with
  | drain hd =>
      cases hd with
      | task => exact ⟨[], .refl _⟩
      | select r w items _ _ _ _ htimers => exact htimers.split
  | timeout u items _ _ _ hperm | wakeSleep u items _ _ hperm | wakeFd w items rc ready _ _ hperm =>
      exact ⟨[_], hperm.perm⟩
  | _ => exact ⟨[], .refl _⟩

theorem Move.yields (hm : Move s s') : s.Yields s' := by
  refine .mk_of hm.shrinks hm.runq_eq ?_
  cases hm with
  | shift hm => exact hm.timers_perm
  | deliverSelect r w items _ _ htimers => exact htimers.split
  | _ => exact ⟨[], .refl _⟩

theorem Moves.yields (hm : Moves s s') : s.Yields s' := by
  induction hm with
  | refl => exact .refl s
  | tail _ hm ih => exact ih.trans hm.yields

/-- The cancellation of a task that waits in a select. -/
theorem Cancels.yields (hc : Cancels t s s') (ht : s.Selecting t) (hi : s.Inv) : s.Yields s' := by
  cases hc with
  | select items hu hs htimers =>
      exact .mk_of (shrinks_drop _ (by rfl) (by rfl)) (.inr ⟨t, rfl⟩) htimers.split
  | nothing hs | sleep _ _ hs | destroy _ hs => exact absurd rfl (ht.ne (by simp [hs]))
  | chan r hu | join x hu => exact absurd rfl (ht.ne_of_waitq hi hu)
  | fd w items hw ha htask =>
      have hstate := (hi.fd.owner w hw).2.2.2.mp ha
      exact absurd htask.symm (ht.ne (by simp [hstate]))

theorem Cancels.state_eq (hc : Cancels t s s') (ht : s.Selecting t) (hi : s.Inv) :
    (s'.task t).state = .ready := by
  cases hc with
  | select items =>
      rw [wakeSelect_decided]
      rfl
  | nothing hs | sleep _ _ hs | destroy _ hs => exact absurd rfl (ht.ne (by simp [hs]))
  | chan r hu | join x hu => exact absurd rfl (ht.ne_of_waitq hi hu)
  | fd w items hw ha htask =>
      have hstate := (hi.fd.owner w hw).2.2.2.mp ha
      exact absurd htask.symm (ht.ne (by simp [hstate]))

theorem Rt.CancelCall.state_eq {x : HandleId} (hc : CancelCall s x s') (ht : s.Selecting t)
    (hi : s.Inv) (hx : (s.handle x).task = some t) :
    (s.handle x).completed = true ∨ (s'.task t).state = .ready := by
  cases hc with
  | late hcomp => exact .inl hcomp
  | wake u a _ hcomp htask hcancel =>
      obtain rfl : u = t := Option.some.inj (htask.symm.trans hx)
      have hsel : (s.reported x).Selecting u := ht
      exact .inr (hcancel.state_eq hsel (Shifts.inv (reported_shifts hcomp) hi))

/-- A section that decides a select wakes tasks, and does nothing else to the queues. -/
theorem Rt.Section.yields {does : Op → Prop} {c : CallId} {o : Option (Role × Rc)}
    (hs : Section does c s o s') (h : s.Rest) (ht : s.Selecting t)
    (hdec : (s'.task t).state ≠ .waitingSelect) : s.Yields s' := by
  have hi := h.inv
  have spared : Spares t s s' → s.Yields s' := fun hsp => by
    rw [hsp.task] at hdec
    exact absurd ht.2 hdec
  cases hs with
  | idle => exact .mk_of (.refl s) (.inl rfl) ⟨[], .refl _⟩
  | release x rc _ hr => exact Moves.yields (.single (.shift hr.shift))
  | fd o _ _ ho => exact Moves.yields (Shifts.moves (ho.shifts hi))
  | go rc _ _ hc => exact spared (hc.spares ht hi)
  | chanCreate rc _ _ hc => exact spared (hc.created.spares ht hi)
  | cancel x hd hc =>
      cases hc with
      | late => exact spared (.of_eq rfl rfl)
      | wake u a hx hcomp htask hcancel =>
          have hrep : (s.reported x).Inv := Shifts.inv (reported_shifts hcomp) hi
          have hsel : (s.reported x).Selecting t := ht
          rcases hcancel.rules hsel hrep with hsp | ⟨rfl, -⟩
          · exact spared ⟨hsp.task, hsp.selw⟩
          · refine (Moves.yields (Shifts.moves (reported_shifts hcomp))).trans ?_
            exact hcancel.yields hsel hrep
  | send kind ch value rc hd _ hsend => exact Moves.yields hsend.moves
  | sendNot | recvNot => exact .refl s
  | recv ch out rc hd _ hrecv => exact Moves.yields hrecv.moves
  | close ch rc hd _ hc => exact Moves.yields hc.moves
  | destroy ch rc hd hl hds => exact Moves.yields (hds.moves hl.1)
  | unselect u rc _ hu hf => exact spared (Registers.spares hf.registers hi hu ht)
  | unwait u rc x _ _ hu hq =>
      obtain ⟨gens, polling, interest, filters, tape, rfl⟩ := hq
      exact .mk_of (.refl s) (.inl rfl) ⟨[], .refl _⟩

namespace Sys

variable {s s' : Sys}

/-- The steps that decide the select of `t`, with the result, the index and the copies. -/
inductive Decides (s : Sys) (t : TaskId) : Act → Rc → Nat → List Event → Prop where
  | award (a env c) {rc index copies} : (s.pc a.agent).call? = some c →
      s.rt.Awards (Pc.Does a.agent (s.pc a.agent)) c t rc index copies →
      Decides s t (.cont a env) rc index copies
  | expiry (v env) : (∀ k batch, s.workers v ≠ .polled k batch) →
      (s.rt.task t).selectInTimer = true → (s.rt.task t).wakeNs ≤ env.nowNs →
      Decides s t (.worker v env) .ok (s.rt.task t).selectIndex []

/-- The step decides the select of `t`. -/
structure Settled (s : Sys) (t : TaskId) (act : Act) (rc : Rc) (index : Nat) (copies : List Event)
    (s' : Sys) : Prop where
  decides : s.Decides t act rc index copies
  record : s'.rt.task t = (s.rt.task t).decided rc index
  adds : s.rt.Adds s'.rt copies
  yields : s.rt.Yields s'.rt

/-- A step spares a parked select or decides it. -/
theorem Case.chooses {act : Act} (hc : Case s act s') (h : s.Ok) (ht : s.rt.Selecting t)
    (ht' : t ∈ s'.rt.allTasks) :
    Spares t s.rt s'.rt ∨ ∃ rc index copies, s.Settled t act rc index copies s' := by
  have hi := h.rest.inv
  have running : ∀ {w : Nat} {u : TaskId}, s.workers w = .running u → t ≠ u := fun hw =>
    ht.ne (by simp [((h.runs _).mpr ⟨_, hw⟩).2])
  cases hc with
  | calls a call hen hpc =>
      cases a with
      | ext n => exact .inl (.of_eq rfl rfl)
      | task w u => exact .inl (.update (running (enabled_task.mp hen)) rfl rfl)
  | @acts a env c o p es os sel rt hen hcall _ _ _ hs hon =>
      cases hs.rules h.rest ht with
      | spared hsp => exact .inl ⟨hsp.task, hsp.selw⟩
      | decided rc index copies hP htask hadds =>
          have hmore : rt.Adds { rt with log := rt.log ++ es } [] :=
            .of_not_transfer ⟨es, rfl, hon.log⟩
          have hall := hadds.trans hmore
          rw [List.append_nil] at hall
          have hyields := hs.yields h.rest ht (by rw [htask]; simp [Task.decided])
          exact .inr ⟨rc, index, copies, .award a env c hcall hP, htask, hall,
            hyields.queues, hyields.runq, hyields.timers⟩
  | resumesFd w u env c v use o p es hw => exact .inl (.update (running hw) rfl rfl)
  | @parks w u env c p rt b hw _ _ _ hp hm =>
      have hpark := hp.spares h.rest ((h.runs u).mpr ⟨w, hw⟩) ht
      have hleave : Spares t rt rt.leave := .of_eq rfl rfl
      exact .inl ((hpark.trans hleave).trans hm.spares)
  | finishes w u hw _ _ hb =>
      have hrun := (h.runs u).mpr ⟨w, hw⟩
      have hdie : Spares t s.rt (s.rt.leave.die u) := .update (running hw) rfl rfl
      have hinv := hi.leave.die hrun.1 hrun.2 (h.rest.noWaiters u hrun)
      exact .inl (hdie.trans (hb.spares (hdie.selecting ht rfl) hinv (running hw)))
  | @halts n env c rt hpc hr hm =>
      have hinv : s.rt.halt.Inv := hi.congr (by constructor <;> rfl) rfl rfl rfl rfl
      have hsel : s.rt.halt.Selecting t := ht
      have hsp := FdShifts.spares hsel hinv hm
      exact .inl ⟨hsp.task, hsp.selw⟩
  | @shutsDown n env c rt hpc hinit hr halone hd =>
      have hmem : t ∈ rt.allTasks := ht'
      simp [hd.off.allTasks] at hmem
  | loops w q lock hact _ hm hsame =>
      rcases Ticks.rules ht hi hm with hsp | ⟨hin, ⟨nowNs, hcause, hdue⟩, hdec⟩
      · exact .inl hsp
      · rcases hact with ⟨env, rfl⟩ | hcollect
        · have hpolled : ∀ k batch, s.workers w ≠ .polled k batch := fun k batch hw => by
            simp [hw, WorkerPc.cause] at hcause
          have hnow : nowNs = env.nowNs := by
            unfold WorkerPc.cause at hcause
            split at hcause
            · cases hcause
            · exact (FdCause.expiry.inj hcause).symm
          exact .inr ⟨_, _, _, .expiry w env hpolled hin (hnow ▸ hdue), hdec,
            (Shifts.murmurs (Ticks.shifts hm)).adds, Moves.yields (Shifts.moves (Ticks.shifts hm))⟩
        · rw [hsame hcollect]
          exact .inl (.refl t s.rt)
  | dispatches w env u q _ _ hq hm =>
      obtain ⟨-, hready⟩ := hi.mem_runq (t := u) (by simp [(Queue.pop_eq_some.mp hq).1])
      have hdisp : Spares t s.rt (s.rt.dispatch u q) := .update (ht.ne (by simp [hready])) rfl rfl
      exact .inl (hdisp.trans hm.spares)
  | _ => exact .inl (.of_eq rfl rfl)

end Sys

/-- A select that parks has enlisted its cases. -/
theorem Rt.SelectParks.enlists {t : TaskId} {cases : List SelectCase} {plan : SelectPlan}
    {s r : Rt} (hp : SelectParks t cases plan s r) : (r.task t).state = .waitingSelect ∧
      (∀ w ∈ (r.task t).selectWaiters, ∃ i x, cases[i]? = some x ∧ x.isChannel = true ∧
        r.selw w = waiterOf t i x) ∧
      (∀ i x, cases[i]? = some x → x.isChannel = true →
        ∃ w ∈ (r.task t).selectWaiters, r.selw w = waiterOf t i x) ∧
      ((r.task t).selectInTimer = true ↔ plan.timeoutIndex ≠ none) ∧
      ∀ i, plan.timeoutIndex = some i → (r.task t).selectIndex = i := by
  have key : ∀ tape, (∀ w ∈ ((s.enrolled t cases plan tape).task t).selectWaiters, ∃ i x,
      cases[i]? = some x ∧ x.isChannel = true ∧
        (s.enrolled t cases plan tape).selw w = waiterOf t i x) ∧
      ∀ i x, cases[i]? = some x → x.isChannel = true →
        ∃ w ∈ ((s.enrolled t cases plan tape).task t).selectWaiters,
          (s.enrolled t cases plan tape).selw w = waiterOf t i x := by
    intro tape
    have hadd : Added t 0 cases (s.prepareSelect t (plan.timeoutIndex.getD 0)) _ :=
      addWaiters_added ..
    have hmem : ∀ w : Nat, w ∈ ((s.enrolled t cases plan tape).task t).selectWaiters ↔
        s.nextAddr ≤ w ∧ w < (s.enrolled t cases plan tape).nextAddr := by
      intro w
      refine (hadd.waiters w).trans ?_
      simp only [prepareSelect, modTask, Function.update_self, List.not_mem_nil, false_or]
      rfl
    refine ⟨fun w hw => ?_, fun i x hx hchan => ?_⟩
    · obtain ⟨hge, hlt⟩ := (hmem w).mp hw
      obtain ⟨j, x, hx, hchan, hrec⟩ := hadd.record w hge hlt
      rw [Nat.zero_add] at hrec
      exact ⟨j, x, hx, hchan, hrec⟩
    · obtain ⟨w, hge, hlt, hrec⟩ := hadd.complete i x hx hchan
      rw [Nat.zero_add] at hrec
      exact ⟨w, (hmem w).mpr ⟨hge, hlt⟩, hrec⟩
  cases hp with
  | untimed tape hnone =>
      obtain ⟨hrec, hall⟩ := key tape
      have hout := (s.enrolled_task t cases plan tape).2.1
      refine ⟨by simp [Rt.parkSelect], ?_, ?_, ?_, ?_⟩
      · simpa [Rt.parkSelect] using hrec
      · simpa [Rt.parkSelect] using hall
      · simp [Rt.parkSelect, hout, hnone]
      · simp [hnone]
  | timed tape timers wakeNs i hsome =>
      obtain ⟨hrec, hall⟩ := key tape
      refine ⟨by simp [Rt.parkSelectTimed], ?_, ?_, ?_, ?_⟩
      · simpa [Rt.parkSelectTimed] using hrec
      · simpa [Rt.parkSelectTimed] using hall
      · simp [Rt.parkSelectTimed, hsome]
      · simp [Rt.parkSelectTimed, hsome]

end Microthread
