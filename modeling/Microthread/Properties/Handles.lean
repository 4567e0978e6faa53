import Microthread.Properties.Completion
import Microthread.System.Ledger

/-!
# Handles

The outcome of a handle is written when its task completes. The sweep of an idle
`mt_shutdown` writes it again, also on handles whose task completed long before;
no other operation does.
-/

namespace Microthread

open Foundation Rt

variable {s s' : Rt} {t : TaskId}

/-! ## The outcome of a completed handle -/

/-- What a completed handle shows to its users. -/
structure Handle.Agrees (k k' : Handle) : Prop where
  completed : k'.completed = true
  status : k'.status = k.status
  joinResult : k'.joinResult = k.joinResult

/-- The outcomes of the completed handles are the same. -/
def Rt.Settles (s s' : Rt) : Prop :=
  ∀ x, s.made (.handle x) = true → (s.handle x).completed = true →
    (s.handle x).Agrees (s'.handle x)

theorem Rt.Settles.of_eq (h : s'.handle = s.handle) : s.Settles s' :=
  fun x _ hc => by rw [h]; exact ⟨hc, rfl, rfl⟩

/-- One handle is changed, which is not completed or keeps its outcome. -/
theorem Rt.Settles.of_update {y : HandleId} {k : Handle}
    (h : s'.handle = Function.update s.handle y k)
    (hk : s.made (.handle y) = true → (s.handle y).completed = true → (s.handle y).Agrees k) :
    s.Settles s' := by
  intro x hm hc
  rw [h]
  by_cases hx : x = y
  · subst hx
    rw [Function.update_self]
    exact hk hm hc
  · rw [Function.update_of_ne hx]
    exact ⟨hc, rfl, rfl⟩

theorem Rt.Settles.trans {a : Rt} (h : s.Settles a) (h' : a.Settles s')
    (hm : ∀ o, s.made o = true → a.made o = true) : s.Settles s' := by
  intro x hx hc
  have h1 := h x hx hc
  have h2 := h' x (hm _ hx) h1.completed
  exact ⟨h2.completed, h2.status.trans h1.status, h2.joinResult.trans h1.joinResult⟩

theorem Rt.Settles.congr {r r' : Rt} (h : r.Settles r') (hh : r.handle = s.handle)
    (hm : r.made = s.made) (hh' : s'.handle = r'.handle) : s.Settles s' := by
  intro x hx hc
  rw [hh', ← hh]
  exact h x (hm ▸ hx) (hh ▸ hc)

theorem Rt.Inv.handle_ne_nextAddr (h : s.Inv) {x : HandleId} (hx : s.made (.handle x) = true) :
    x ≠ s.nextAddr :=
  (h.heap.fresh _ hx).ne

theorem Shift.settles (hm : Shift s s') (h : s.Inv) : s.Settles s' := by
  cases hm with
  | drain hd => cases hd <;> exact .of_eq rfl
  | completeHandle x t hx ht hd hxt =>
      refine .of_update rfl fun _ hc => ?_
      have := (h.handle.completed x hx).mp hc
      simp [hxt] at this
  | status x st hc => exact .of_update rfl fun _ hc' => absurd hc' (by simp [hc])
  | request x => exact .of_update rfl fun _ hc => ⟨hc, rfl, rfl⟩
  | release x hx hc => exact .of_update rfl fun _ hc' => absurd hc' (by simp [hc])
  | releaseDrop x hl hr hc => exact .of_update rfl fun _ hc => ⟨hc, rfl, rfl⟩
  | wasteHandle => exact .of_update rfl fun hm _ => absurd rfl (h.handle_ne_nextAddr hm)
  | _ => exact .of_eq rfl

theorem Move.settles (hm : Move s s') (h : s.Inv) : s.Settles s' := by
  cases hm with
  | shift hm => exact hm.settles h
  | _ => exact .of_eq rfl

theorem Moves.settles (hm : Moves s s') (h : s.Inv) : s.Settles s' := by
  induction hm with
  | refl => exact .of_eq rfl
  | tail hpre hm ih =>
      exact ih.trans (hm.settles (Moves.inv hpre h)) (Moves.grows hpre).made

theorem Shifts.settles (hm : Shifts s s') (h : s.Inv) : s.Settles s' :=
  Moves.settles (Shifts.moves hm) h

theorem Buries.settles (hb : Buries t s s') (h : s.Inv) : s.Settles s' := by
  obtain ⟨hm, ht, hd, -⟩ := hb
  replace hm := HandleShifts.shifts hm
  exact (Shifts.settles hm h).trans (.of_eq (reap_handle _ _)) (Moves.grows (Shifts.moves hm)).made

theorem Cancels.settles (hc : Cancels t s s') (h : s.Inv) : s.Settles s' := by
  cases hc with
  | destroy ht hs hb =>
      have hkill : s.Settles (s.killReady t) := .of_eq rfl
      exact hkill.trans (hb.settles (h.killReady ht hs)) fun _ ho => ho
  | _ => exact .of_eq rfl

theorem Rt.Section.settles {does : Op → Prop} {c : CallId} {o : Option (Role × Rc)}
    (hs : Section does c s o s') (h : s.Inv) : s.Settles s' := by
  cases hs with
  | idle o tape => exact Shifts.settles (.single (.quiet _ _ _ _ tape)) h
  | release x rc _ hr => exact Shifts.settles (.single hr.shift) h
  | fd o _ _ ho => exact Shifts.settles (ho.shifts h) h
  | go rc _ _ hc =>
      cases hc with
      | no a hm => exact Shifts.settles (Wastes.shifts hm) h
      | task | chan => exact .of_eq rfl
      | handle => exact .of_update rfl fun hm _ => absurd rfl (h.handle_ne_nextAddr hm)
  | chanCreate rc _ _ hc =>
      cases hc with
      | no a hm => exact Shifts.settles (Wastes.shifts hm) h
      | chan => exact .of_eq rfl
  | cancel x _ hc =>
      cases hc with
      | late hc => exact Shifts.settles (.single (.request x)) h
      | wake t a _ hcomp _ hcancel =>
          have hm := reported_shifts hcomp
          exact (Shifts.settles hm h).trans (hcancel.settles (Shifts.inv hm h))
            (Moves.grows (Shifts.moves hm)).made
  | send kind ch value rc _ _ hsend => exact Moves.settles hsend.moves h
  | sendNot => exact .of_eq rfl
  | recv ch out rc _ _ hrecv => exact Moves.settles hrecv.moves h
  | recvNot => exact .of_eq rfl
  | close ch rc _ _ hc => exact Moves.settles hc.moves h
  | destroy ch rc _ hl hd => exact Moves.settles (hd.moves hl.1) h
  | unselect t rc _ _ hf =>
      obtain ⟨_, _, _, _, _, _, _, _, _, _, _, _, rfl⟩ := Registers.enrols hf.registers
      exact .of_eq rfl
  | unwait t rc x _ _ hrun hq =>
      obtain ⟨gens, polling, interest, filters, tape, rfl⟩ := hq
      exact .of_eq rfl

theorem Parks.handle_eq {c : CallId} {q p : Pc} (hp : Parks t c q s p s')
    (hws : (s.task t).selectWaiters = []) : s'.handle = s.handle := by
  cases hp with
  | select cases plan _ hch hp =>
      have key : ∀ tape, (s.enrolled t cases plan tape).handle = s.handle := fun tape => by
        obtain ⟨_, _, _, _, _, _, _, _, _, _, _, _, heq⟩ :=
          Registers.enrols (enrolled_registers hws hch plan tape)
        rw [heq]
      cases hp with
      | untimed tape => exact key tape
      | timed tape => exact key tape
  | fd timers wakeNs x use _ hq =>
      obtain ⟨gens, polling, interest, filters, tape, rfl⟩ := hq
      rfl
  | _ => rfl

namespace Sys

variable {s s' : Sys} {w : Nat} {t : TaskId} {x : HandleId}

/-- The step is no shutdown of an idle runtime that finds a handle completed with another
outcome than `CANCELLED`. -/
def Sparing (s : Sys) : Act → Prop
  | .cont a _ =>
    match s.pc a.agent with
    | .called _ .shutdown => s.rt.running = false → ∀ x ∈ s.rt.handles,
        (s.rt.handle x).completed = true →
          (s.rt.handle x).status = .cancelled ∧ (s.rt.handle x).joinResult = .cancelled
    | _ => True
  | _ => True

instance (s : Sys) (a : Act) : Decidable (s.Sparing a) := by
  induction a using Act.casesOn with
  | cont a env =>
      dsimp only [Sparing]
      generalize s.pc a.agent = p
      induction p using Pc.casesOn with
      | called c call => induction call using Api.casesOn <;> dsimp only <;> infer_instance
      | _ => exact instDecidableTrue
  | _ => exact instDecidableTrue

theorem Sparing.prepared {s₀ : Sys} {a : Act} (hg : s.Sparing a) (h : s.Ok) (hp : s.Prepared s₀) :
    s₀.Sparing a := by
  cases a with
  | cont a env =>
      simp only [Sparing] at hg ⊢
      rw [hp.pc_eq]
      split
      · next hpc =>
          rw [hpc] at hg
          rcases hp.cases h with ⟨tape, rfl⟩ | ⟨-, -, rt, hb, rfl⟩
          · exact hg
          · intro _ x hx
            simp [hb.off.handles] at hx
      · trivial
  | _ => trivial

theorem Prepared.settles {s₀ : Sys} (hp : s.Prepared s₀) (h : s.Ok) : s.rt.Settles s₀.rt :=
  .of_eq (hp.handle_eq h)

theorem Case.settles {act : Act} (hc : Case s act s') (h : s.Ok) (hg : s.Sparing act) :
    s.rt.Settles s'.rt := by
  have hi := h.rest.inv
  cases hc with
  | calls a call hen hpc => cases a <;> exact .of_eq rfl
  | acts a env c o p es os sel hen hcall hp hr _ hs hon => exact hs.settles hi
  | parks w t env c p hw hl hcall hnp hp hm =>
      have hr : s.rt.Runs t := (h.runs t).mpr ⟨w, hw⟩
      have hinv := (hp.parked h.rest hr).inv
      exact (Settles.of_eq (hp.handle_eq (h.rest.noWaiters t hr))).trans
        ((Shifts.settles hm.shifts hinv.leave).congr rfl rfl rfl) (hp.frame (h.rest.noWaiters t hr)).1
  | finishes w t hw hl hpc hb =>
      have hr : s.rt.Runs t := (h.runs t).mpr ⟨w, hw⟩
      exact hb.settles (hi.leave.die hr.1 hr.2 (h.rest.noWaiters t hr))
  | halts n env c hpc hr hm =>
      have hinv : s.rt.halt.Inv := hi.congr (by constructor <;> rfl) rfl rfl rfl rfl
      exact (Shifts.settles (FdShifts.shifts hm) hinv).congr rfl rfl rfl
  | @shutsDown n env c rt hpc hinit hr halone hd =>
      intro x hm hc
      simp only [Sparing, Actor.agent, hpc] at hg
      change (s.rt.handle x).Agrees (rt.handle x)
      rw [hd.handle]
      by_cases hx : x ∈ s.rt.handles
      · obtain ⟨h1, h2⟩ := hg hr x hx hc
        rw [if_pos hx]
        exact ⟨rfl, h1.symm, h2.symm⟩
      · rw [if_neg hx]
        exact ⟨hc, rfl, rfl⟩
  | loops w q lock _ hl hm => exact Shifts.settles (Ticks.shifts hm) hi
  | dispatches w env t q hw hl hq hm =>
      exact (Shifts.settles hm.shifts (h.rest.dispatch hq).1.inv).congr rfl rfl rfl
  | _ => exact .of_eq rfl

/-- The outcome of a completed handle is final in every run whose idle shutdowns find only
handles that are cancelled or not completed. -/
theorem handle_outcome_final (h : machine.Reach (Under Sparing) s)
    (hp : machine.Path (Under Sparing) s s') (hx : s.rt.made (.handle x) = true)
    (hc : (s.rt.handle x).completed = true) :
    (s'.rt.handle x).completed = true ∧
      (s'.rt.taskStatus x).1 = (s.rt.taskStatus x).1 ∧
      ∀ cur, (s'.rt.join cur x).1 = (s.rt.join cur x).1 := by
  obtain ⟨-, hagrees⟩ : s'.rt.made (.handle x) = true ∧ (s.rt.handle x).Agrees (s'.rt.handle x) := by
    refine h.path_invariant (R := fun s s' => s'.rt.made (.handle x) = true ∧
      (s.rt.handle x).Agrees (s'.rt.handle x)) hp ⟨hx, hc, rfl, rfl⟩ fun t a u ht ih ha hstep => ?_
    have hok := ok_of_under ht
    obtain ⟨t₀, hprep, hcase⟩ := hok.step_cases ha.1 hstep
    have hok₀ := hprep.ok hok
    have hmade : t₀.rt.made (.handle x) = true := by rw [hprep.made_eq hok, ih.1]
    have h1 := hprep.settles hok x ih.1 ih.2.completed
    have h2 := hcase.settles hok₀ (ha.2.prepared hok hprep) x hmade h1.completed
    exact ⟨hcase.made_mono hok₀ _ hmade, h2.completed,
      h2.status.trans (h1.status.trans ih.2.status),
      h2.joinResult.trans (h1.joinResult.trans ih.2.joinResult)⟩
  refine ⟨hagrees.completed, ?_, fun cur => ?_⟩
  · simp [Rt.taskStatus, Rt.derefHandle, hc, hagrees.completed, hagrees.status]
  · simp [Rt.join, Rt.derefHandle, hc, hagrees.completed, hagrees.joinResult]

/-- A task with a handle runs to its end, and the run ends. -/
def completedTrace : List Act := List.flatten [
  invoke (.ext 0) (.go true 0 true), invoke (.ext 0) (.run 1 true) 2, works 0 3,
  [.finish 0 1], works 0 2, [.cont (.ext 0) {}]]

theorem handle_outcome_final_cancel : ∃ s s', machine.Reach (Under Sparing) s ∧
    machine.Path (Under Sparing) s s' ∧ (s.rt.handle 0).status = .done ∧
    (s.rt.handle 0).cancelRequested = false ∧ (s'.rt.handle 0).cancelRequested = true ∧
    (s'.rt.taskStatus 0).1 = (s.rt.taskStatus 0).1 := by
  obtain ⟨s, hs, hp⟩ := reach_of_trace_under Sparing .poll completedTrace
    (fun s => s.rt.made (.handle 0) && (s.rt.handle 0).completed &&
      (s.rt.handle 0).status == .done && !(s.rt.handle 0).cancelRequested &&
      (machine.replay (fun s a => s.promised a && decide (s.Sparing a)) s
        (invoke (.ext 0) (.cancel 0))).any fun s' => (s'.rt.handle 0).cancelRequested)
    (by decide +kernel)
  simp only [Bool.and_eq_true, beq_iff_eq, Bool.not_eq_true', Option.any_eq_true] at hp
  obtain ⟨⟨⟨⟨hm, hc⟩, hst⟩, hreq⟩, s', hrun, hreq'⟩ := hp
  have hpath : machine.Path (Under Sparing) s s' := by
    refine Machine.Path.replay .refl (fun s a hok => ?_) hrun
    rw [Bool.and_eq_true, decide_eq_true_eq] at hok
    exact ⟨contract_of_promised hok.1, hok.2⟩
  exact ⟨s, s', hs, hpath, hst, hreq, hreq', (handle_outcome_final hs hpath hm hc).2.1⟩

/-- An idle shutdown turns the outcome of a task that completed into `CANCELLED`. -/
theorem shutdown_rewrites_outcome : ∃ s s', machine.Reach Sys.Contract s ∧
    s.Contract (.cont (.ext 0) {}) ∧ machine.step s (.cont (.ext 0) {}) = some s' ∧
    (s.rt.handle 0).completed = true ∧ (s.rt.handle 0).released = false ∧
    (s'.rt.handle 0).released = false ∧
    (s.rt.taskStatus 0).1 = .done ∧ (s'.rt.taskStatus 0).1 = .cancelled ∧
    (s.rt.join none 0).1 = .ret .ok ∧ (s'.rt.join none 0).1 = .ret .cancelled := by
  obtain ⟨s, hs, hp⟩ := reach_of_trace_under Solo .poll
    (List.flatten [completedTrace, [.api (.ext 0) .shutdown]])
    (fun s => s.pc (.ext 0) == .called 2 .shutdown && (s.rt.handle 0).completed &&
      !(s.rt.handle 0).released && (s.rt.taskStatus 0).1 == .done &&
      (s.rt.join none 0).1 == .ret .ok && (machine.step s (.cont (.ext 0) {})).any fun s' =>
        !(s'.rt.handle 0).released && (s'.rt.taskStatus 0).1 == .cancelled &&
          (s'.rt.join none 0).1 == .ret .cancelled) (by decide +kernel)
  simp only [Bool.and_eq_true, beq_iff_eq, Bool.not_eq_true', Option.any_eq_true] at hp
  obtain ⟨⟨⟨⟨⟨hpc, hc⟩, hrel⟩, hst⟩, hj⟩, s', hstep, ⟨hrel', hst'⟩, hj'⟩ := hp
  have halone := (single_of_reach (fun _ _ h => h) (fun _ _ _ _ _ h => h) hs).others
  refine ⟨s, s', hs.mono fun _ _ h => h.1, ?_, hstep, hc, hrel, hrel', hst, hst', hj, hj'⟩
  simp only [Contract, SectionOk, Actor.agent, hpc]
  exact fun _ n hn => halone n fun h0 => hn (by rw [h0])

end Sys

end Microthread
