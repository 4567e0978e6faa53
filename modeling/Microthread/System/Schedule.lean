import Microthread.Foundation.Fifo
import Microthread.System.Records

/-!
# What a step does to the run queue

A task is ready when it is registered in state `READY`. A step is a sequence of changes
of the set of ready tasks, one task at a time: a task becomes ready, is destroyed while it
is ready, or gets a processor. The run queue holds the ready tasks, and it follows these
changes as a first-come-first-served queue.
-/

namespace Microthread

open Foundation Rt

/-- A change of the set of ready tasks: one enters it, is withdrawn from it by its
destruction, or is served with a processor. -/
abbrev Turn := Fifo.Event TaskId

namespace Rt

def Ready (s : Rt) (t : TaskId) : Prop := t ∈ s.allTasks ∧ (s.task t).state = .ready

/-- At most one task enters or leaves the set of ready tasks, or the runtime is torn down
with all of them. -/
inductive Turns (s s' : Rt) : List Turn → Prop where
  | still : (∀ u, s'.Ready u ↔ s.Ready u) → Turns s s' []
  | enter (t) : ¬s.Ready t → (∀ u, s'.Ready u ↔ s.Ready u ∨ u = t) → Turns s s' [.enter t]
  | withdraw (t) : s.Ready t → (s'.task t).state = .dead →
      (∀ u, s'.Ready u ↔ s.Ready u ∧ u ≠ t) → Turns s s' [.withdraw t]
  | serve (t) : s.Ready t → (s'.task t).state = .running →
      (∀ u, s'.Ready u ↔ s.Ready u ∧ u ≠ t) → Turns s s' [.serve t]
  | clear (ts : List TaskId) : ts.Nodup → (∀ u, u ∈ ts ↔ s.Ready u) → s'.allTasks = [] →
      Turns s s' (ts.map .withdraw)

/-- The changes of the set of ready tasks on the way from one state to another. -/
inductive Flow (s : Rt) : List Turn → Rt → Prop where
  | refl : Flow s [] s
  | tail {es fs a s'} : Flow s es a → Turns a s' fs → Flow s (es ++ fs) s'

/-- The run queue follows the changes. -/
structure Scheduled (s : Rt) (es : List Turn) (s' : Rt) : Prop where
  flow : s.Flow es s'
  queue : Fifo.Runs s.runq.items es s'.runq.items

/-- Tasks become ready one after the other. -/
def Readies (s : Rt) (ts : List TaskId) (s' : Rt) : Prop := s.Scheduled (ts.map .enter) s'

variable {s s' a : Rt} {es fs : List Turn} {t : TaskId}

theorem Inv.ready_iff (h : s.Inv) : s.Ready t ↔ t ∈ s.runq.items := by
  constructor
  · rintro ⟨hall, hs⟩
    exact (h.task.placed.mem .runq t).mpr ⟨hall, by simp [Task.slot, hs]⟩
  · exact h.mem_runq

theorem Inv.runq_nodup (h : s.Inv) : s.runq.items.Nodup := h.task.placed.nodup .runq

theorem Flow.trans (h : s.Flow es a) (h' : a.Flow fs s') : s.Flow (es ++ fs) s' := by
  induction h' with
  | refl => simpa using h
  | tail _ ht ih => rw [← List.append_assoc]; exact ih.tail ht

theorem Turns.flow (h : s.Turns s' es) : s.Flow es s' := by
  simpa using Flow.refl.tail h

namespace Scheduled

theorem refl (s : Rt) : s.Scheduled [] s := ⟨.refl, .nil⟩

theorem trans (h : s.Scheduled es a) (h' : a.Scheduled fs s') : s.Scheduled (es ++ fs) s' :=
  ⟨h.flow.trans h'.flow, h.queue.trans h'.queue⟩

theorem still (h : s.Inv) (h' : s'.Inv) (hq : s'.runq.items = s.runq.items) :
    s.Scheduled [] s' := by
  refine ⟨(Turns.still fun u => ?_).flow, hq ▸ .nil⟩
  rw [h'.ready_iff, h.ready_iff, hq]

theorem enter (h : s.Inv) (h' : s'.Inv) (hq : s'.runq.items = s.runq.items ++ [t]) :
    s.Scheduled [.enter t] s' := by
  have hnew : t ∉ s.runq.items := fun hmem =>
    (List.nodup_append.mp (hq ▸ h'.runq_nodup)).2.2 t hmem t (by simp) rfl
  refine ⟨(Turns.enter t (fun hr => hnew (h.ready_iff.mp hr)) fun u => ?_).flow, ?_⟩
  · rw [h'.ready_iff, h.ready_iff, hq]
    simp
  · rw [hq]
    exact Fifo.Runs.nil.enter t hnew

theorem withdraw (h : s.Inv) (h' : s'.Inv) (ht : t ∈ s.runq.items)
    (hdead : (s'.task t).state = .dead) (hq : s'.runq.items = s.runq.items.erase t) :
    s.Scheduled [.withdraw t] s' := by
  refine ⟨(Turns.withdraw t (h.ready_iff.mpr ht) hdead fun u => ?_).flow, ?_⟩
  · rw [h'.ready_iff, h.ready_iff, hq, h.runq_nodup.mem_erase_iff]
    exact and_comm
  · rw [hq]
    exact Fifo.Runs.nil.withdraw t ht

theorem serve (h : s.Inv) (h' : s'.Inv) (hrun : (s'.task t).state = .running)
    (hq : s.runq.items = t :: s'.runq.items) : s.Scheduled [.serve t] s' := by
  have hnew := (List.nodup_cons.mp (hq ▸ h.runq_nodup)).1
  refine ⟨(Turns.serve t (h.ready_iff.mpr (by simp [hq])) hrun fun u => ?_).flow, ?_⟩
  · rw [h'.ready_iff, h.ready_iff, hq, List.mem_cons]
    grind
  · have hrun : Fifo.Runs s.runq.items [] (t :: s'.runq.items) := hq ▸ .nil
    exact hrun.serve t

/-- Withdrawing every element empties a queue. -/
theorem runs_withdrawn (q : List TaskId) (hq : q.Nodup) : Fifo.Runs q (q.map .withdraw) [] := by
  induction q with
  | nil => exact .nil
  | cons t q ih =>
      have hfirst : Fifo.Runs (t :: q) [.withdraw t] q := by
        simpa using (Fifo.Runs.nil (q := t :: q)).withdraw t (by simp)
      exact hfirst.trans (ih (List.nodup_cons.mp hq).2)

theorem clear (h : s.Inv) (hall : s'.allTasks = []) (hq : s'.runq.items = []) :
    s.Scheduled (s.runq.items.map .withdraw) s' := by
  refine ⟨(Turns.clear _ h.runq_nodup (fun u => h.ready_iff.symm) hall).flow, ?_⟩
  rw [hq]
  exact runs_withdrawn _ h.runq_nodup

end Scheduled

theorem Readies.refl (s : Rt) : s.Readies [] s := Scheduled.refl s

theorem Readies.trans {ts us : List TaskId} (h : s.Readies ts a) (h' : a.Readies us s') :
    s.Readies (ts ++ us) s' := by
  have := Scheduled.trans h h'
  rwa [← List.map_append] at this

theorem Readies.of_runq (h : s.Inv) (h' : s'.Inv)
    (hq : s'.runq = s.runq ∨ ∃ t, s'.runq = s.runq.push t) : ∃ ts, s.Readies ts s' := by
  rcases hq with hq | ⟨t, hq⟩
  · exact ⟨[], .still h h' (by rw [hq])⟩
  · exact ⟨[t], .enter h h' (by rw [hq, Queue.push_items])⟩

end Rt

variable {s s' : Rt} {t : TaskId}

/-! ## Elementary changes -/

theorem Shift.runq_eq (hm : Shift s s') : s'.runq = s.runq ∨ ∃ t, s'.runq = s.runq.push t := by
  cases hm with
  | drain hd => cases hd <;> exact .inr ⟨_, rfl⟩
  | timeout | wakeJoin | wakeSleep | wakeFd => exact .inr ⟨_, rfl⟩
  | _ => exact .inl rfl

theorem Move.runq_eq (hm : Move s s') : s'.runq = s.runq ∨ ∃ t, s'.runq = s.runq.push t := by
  cases hm with
  | shift hm => exact hm.runq_eq
  | deliver | deliverSelect => exact .inr ⟨_, rfl⟩
  | _ => exact .inl rfl

theorem Moves.readies (hm : Moves s s') (h : s.Inv) : ∃ ts, s.Readies ts s' := by
  induction hm with
  | refl => exact ⟨[], .refl s⟩
  | tail hms hm ih =>
      obtain ⟨ts, hts⟩ := ih
      have ha := Moves.inv hms h
      obtain ⟨us, hus⟩ := Readies.of_runq ha (Moves.inv (.single hm) ha) hm.runq_eq
      exact ⟨ts ++ us, hts.trans hus⟩

theorem Shifts.readies (hm : Shifts s s') (h : s.Inv) : ∃ ts, s.Readies ts s' :=
  Moves.readies (Shifts.moves hm) h

theorem Buries.readies (hb : Buries t s s') (h : s.Inv) (h' : s'.Inv) :
    ∃ ts, s.Readies ts s' := by
  obtain @⟨a, hm, -, -, -⟩ := hb
  replace hm := HandleShifts.shifts hm
  obtain ⟨ts, hts⟩ := Shifts.readies hm h
  refine ⟨ts ++ [], hts.trans ?_⟩
  exact Scheduled.still (Shifts.inv hm h) h' (by rw [reap_runq])

/-- A cancellation wakes the task it finds, or destroys it. -/
theorem Cancels.scheduled (hc : Cancels t s s') (h : s.Inv) :
    (∃ ts, s.Readies ts s') ∨
      (s.Ready t ∧ t ∉ s'.allTasks ∧
        ∃ ts : List TaskId, s.Scheduled (.withdraw t :: ts.map .enter) s') := by
  have hinv := hc.inv h
  cases hc with
  | nothing => exact .inl ⟨[], .refl s⟩
  | sleep | chan | select | fd | join => exact .inl (Readies.of_runq h hinv (.inr ⟨_, rfl⟩))
  | destroy ht hs hb =>
      have hkill := h.killReady ht hs
      obtain ⟨ts, hts⟩ := hb.readies hkill hinv
      have hmem := h.ready_iff.mp ⟨ht, hs⟩
      have hone : s.Scheduled [.withdraw t] (s.killReady t) :=
        .withdraw h hkill hmem (by simp [Rt.killReady])
          (by simp [Rt.killReady, Queue.remove_of_mem hmem])
      exact .inr ⟨⟨ht, hs⟩, fun hmem => ((hb.mem hkill).mp hmem).1 rfl, ts, hone.trans hts⟩

theorem Rt.Created.readies (hc : Created s s') (h : s.Inv) (h' : s'.Inv) :
    ∃ ts, s.Readies ts s' := by
  cases hc with
  | no a hm => exact Shifts.readies (Wastes.shifts hm) h
  | task tape => exact Readies.of_runq h h' (.inr ⟨_, rfl⟩)
  | handle tape => exact Readies.of_runq h h' (.inr ⟨_, rfl⟩)
  | chan => exact Readies.of_runq h h' (.inl rfl)

theorem Rt.SelectFails.runq_eq (hf : SelectFails t s s') : s'.runq = s.runq := by
  obtain ⟨_, _, _, _, _, _, _, _, _, _, _, _, rfl⟩ := Registers.enrols hf.registers
  rfl

theorem Rt.Marked.runq_eq (hm : Marked s s') : s'.runq = s.runq := by
  rcases hm with rfl | ⟨x, st, hc, rfl⟩
  · rfl
  · rfl

/-- A section makes tasks ready, and destroys a ready task only if it cancels it. -/
theorem Rt.Section.scheduled {does : Op → Prop} {c : CallId} {o : Option (Role × Rc)}
    (hs : Section does c s o s') (h : s.Rest) :
    (∃ ts, s.Readies ts s') ∨ ∃ x t, does (.cancel x) ∧ (s.handle x).task = some t ∧
      s.Ready t ∧ t ∉ s'.allTasks ∧
        ∃ ts : List TaskId, s.Scheduled (.withdraw t :: ts.map .enter) s' := by
  have hinv := (hs.rest h).1.inv
  have hi := h.inv
  cases hs with
  | idle o tape => exact .inl (Readies.of_runq hi hinv (.inl rfl))
  | release x rc _ hr => exact .inl (Shifts.readies (.single hr.shift) hi)
  | fd o _ _ ho => exact .inl (Shifts.readies (ho.shifts hi) hi)
  | go rc _ _ hc => exact .inl (hc.readies hi hinv)
  | chanCreate rc _ _ hc => exact .inl (hc.created.readies hi hinv)
  | cancel x hd hc =>
      cases hc with
      | late => exact .inl (Readies.of_runq hi hinv (.inl rfl))
      | wake t a _ hcomp htask hcancel =>
          have hrep := reported_shifts (x := x) hcomp
          have hirep := Shifts.inv hrep hi
          have hstill : s.Scheduled [] (s.reported x) := .still hi hirep rfl
          rcases hcancel.scheduled hirep with ⟨ts, hts⟩ | ⟨hr, hgone, ts, hts⟩
          · exact .inl ⟨ts, hstill.trans hts⟩
          · exact .inr ⟨x, t, hd, htask, hr, hgone, ts, hstill.trans hts⟩
  | send kind ch value rc _ _ hsend => exact .inl (Moves.readies hsend.moves hi)
  | sendNot => exact .inl ⟨[], .refl s⟩
  | recv ch out rc _ _ hrecv => exact .inl (Moves.readies hrecv.moves hi)
  | recvNot => exact .inl ⟨[], .refl s⟩
  | close ch rc _ _ hc => exact .inl (Moves.readies hc.moves hi)
  | destroy ch rc _ hl hd => exact .inl (Moves.readies (hd.moves hl.1) hi)
  | unselect t rc _ _ hf => exact .inl (Readies.of_runq hi hinv (.inl hf.runq_eq))
  | unwait t rc x _ _ _ hq =>
      obtain ⟨gens, polling, interest, filters, tape, rfl⟩ := hq
      exact .inl (Readies.of_runq hi hinv (.inl rfl))

/-- Only `mt_yield` puts the task that leaves its processor back in the run queue. -/
theorem Parks.runq_eq {c : CallId} {q p : Pc} (hp : Parks t c q s p s')
    (hws : (s.task t).selectWaiters = []) : s'.runq = s.runq ∨ s'.runq = s.runq.push t := by
  cases hp with
  | yield => exact .inr rfl
  | select cases plan _ hch hp =>
      have henr : ∀ tape, (s.enrolled t cases plan tape).runq = s.runq := fun tape => by
        obtain ⟨_, _, _, _, _, _, _, _, _, _, _, _, heq⟩ :=
          Registers.enrols (enrolled_registers hws hch plan tape)
        rw [heq]
      cases hp with
      | untimed tape => exact .inl (henr tape)
      | timed tape => exact .inl (henr tape)
  | fd timers wakeNs x use _ hq =>
      obtain ⟨gens, polling, interest, filters, tape, rfl⟩ := hq
      exact .inl rfl
  | _ => exact .inl rfl

end Microthread
