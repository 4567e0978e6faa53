import Microthread.Properties.SingleWorker

/-!
# The end of a run

A worker that finds no live task stops the run. An external `mt_go` between that
section and the last one of `mt_run_internal` adds a task that no worker will run
although `mt_run` returns `MT_OK`. Without such a call `MT_OK` means that all work is
done.
-/

namespace Microthread

open Foundation Rt

variable {s s' : Rt} {t : TaskId}

/-- Only `mt_go` makes tasks. -/
theorem Rt.Section.allTasks_subset {does : Op → Prop} {c : CallId} {o : Option (Role × Rc)}
    (hs : Section does c s o s') (hi : s.Inv) (hgo : ¬does .go) :
    ∀ u ∈ s'.allTasks, u ∈ s.allTasks := by
  have hmoves : ∀ {r : Rt}, Moves s r → ∀ u ∈ r.allTasks, u ∈ s.allTasks := fun hm u hu => by
    rwa [Moves.allTasks_eq hm] at hu
  cases hs with
  | idle o tape => exact hmoves (Shifts.moves (.single (.quiet _ _ _ _ tape)))
  | release x rc _ hr => exact hmoves (Shifts.moves (.single hr.shift))
  | fd o _ _ ho => exact hmoves (Shifts.moves (ho.shifts hi))
  | go rc hd _ _ => exact absurd hd hgo
  | chanCreate rc _ _ hc =>
      cases hc with
      | no a hm => exact hmoves (Shifts.moves (Wastes.shifts hm))
      | chan => exact fun u hu => hu
  | cancel x _ hc =>
      cases hc with
      | late => exact fun u hu => hu
      | wake t a _ _ _ hcancel =>
          exact fun u hu => hcancel.fewer.allTasks hu
  | send kind ch value rc _ _ hsend => exact hmoves hsend.moves
  | sendNot => exact fun u hu => hu
  | recv ch out rc _ _ hrecv => exact hmoves hrecv.moves
  | recvNot => exact fun u hu => hu
  | close ch rc _ _ hc => exact hmoves hc.moves
  | destroy ch rc _ hl hd => exact hmoves (hd.moves hl.1)
  | unselect t rc _ _ hf =>
      obtain ⟨_, _, _, _, _, _, _, _, _, _, _, _, rfl⟩ := Registers.enrols hf.registers
      exact fun u hu => hu
  | unwait t rc x _ _ hrun hq =>
      obtain ⟨gens, polling, interest, filters, tape, rfl⟩ := hq
      exact fun u hu => hu

namespace Sys

variable {s s' : Sys} {w : Nat} {t : TaskId}

/-- A worker has found no live task and stopped the run, which has not ended yet. -/
def Closing (s : Sys) : Prop :=
  s.rt.running = true ∧ s.rt.stopping = true ∧ s.rt.runResult = .ok

instance (s : Sys) : Decidable s.Closing := inferInstanceAs (Decidable (_ ∧ _))

/-- The step is no `mt_go` in a run that a worker has stopped for want of live tasks. -/
def Timely (s : Sys) : Act → Prop
  | .cont a _ =>
    match s.pc a.agent with
    | .called _ (.go ..) => ¬s.Closing
    | _ => True
  | _ => True

instance (s : Sys) (a : Act) : Decidable (s.Timely a) := by
  induction a using Act.casesOn with
  | cont a env =>
      dsimp only [Timely]
      generalize s.pc a.agent = p
      induction p using Pc.casesOn with
      | called c call => induction call using Api.casesOn <;> dsimp only <;> infer_instance
      | _ => exact instDecidableTrue
  | _ => exact instDecidableTrue

theorem Timely.prepared {s₀ : Sys} {a : Act} (hg : s.Timely a) (h : s.Ok) (hp : s.Prepared s₀) :
    s₀.Timely a := by
  cases a with
  | cont a env =>
      simp only [Timely] at hg ⊢
      rw [hp.pc_eq]
      split
      · next hpc =>
          rw [hpc] at hg
          rcases hp.cases h with ⟨tape, rfl⟩ | ⟨-, -, rt, hb, rfl⟩
          · exact hg
          · intro hcl
            simp [Closing, hb.running] at hcl
      · trivial
  | _ => trivial

/-- The thread in `mt_run_internal` has started worker 0. -/
def Started (s : Sys) : Prop := ∀ a c, s.pc a = .runLoop c → s.workers 0 ≠ .off

/-- When the run is being closed nothing is left, and the thread in `mt_run_internal` has
started worker 0. -/
structure Done (s : Sys) : Prop where
  empty : s.Closing → s.rt.allTasks = []
  started : ∀ a c, s.pc a = .runLoop c → s.workers 0 ≠ .off

/-- A place of another kind is written. -/
theorem place_of_update {g : Agent} {p : Pc} (f : CallId → Pc) (hp : ∀ c, p ≠ f c) (a : Agent)
    (c : CallId) (ha : Function.update s.pc g p a = f c) : s.pc a = f c := by
  by_cases hag : a = g
  · subst hag
    simp only [Function.update_self] at ha
    exact absurd ha (hp c)
  · rwa [Function.update_of_ne hag] at ha

theorem update_ne_off {f : Nat → WorkerPc} {p : WorkerPc} (hp : p ≠ .off) (w : Nat)
    (h : f 0 ≠ .off) : Function.update f w p 0 ≠ .off := by
  by_cases hw : 0 = w
  · subst hw
    simpa using hp
  · rwa [Function.update_of_ne hw]

/-- No task runs while the run is being closed. -/
theorem Done.not_running (h : s.Done) (hok : s.Ok) (hw : s.workers w = .running t) : ¬s.Closing :=
  fun hcl => by
    have hr : s.rt.Runs t := (hok.runs t).mpr ⟨w, hw⟩
    have hmem := hr.1
    rw [h.empty hcl] at hmem
    cases hmem

/-- What the runtime shows of the run is unchanged. -/
theorem Closing.back {r : Rt} (hcl : s'.Closing) (hr : s'.rt.control = r.control)
    (h : r.running = s.rt.running ∧ r.stopping = s.rt.stopping ∧ r.runResult = s.rt.runResult) :
    s.Closing := by
  obtain ⟨h1, h2, h3, -⟩ := control_fields hr
  exact ⟨(h1.trans h.1).symm.trans hcl.1, (h2.trans h.2.1).symm.trans hcl.2.1,
    (h3.trans h.2.2).symm.trans hcl.2.2⟩

theorem Onward.ne_inRun {c : CallId} {q p p' : Pc} {r : Rt} {o : Option (Role × Rc)}
    {es : List Event} (hon : Onward c q r o p es) (hp' : p'.inRun = true) : p ≠ p' := by
  rintro rfl
  exact absurd (hon.single.2.symm.trans hp') (by decide)

/-- After the thread that was in `mt_run_internal` has left it no thread is there. -/
theorem Ok.no_runner {n : Nat} (h : s.Ok) (hin : (s.pc (.ext n)).inRun = true) {a : Agent} {p : Pc}
    (hp : p.inRun = true) : Function.update s.pc (.ext n) .user a ≠ p := by
  intro ha
  by_cases hag : a = .ext n
  · subst hag
    rw [Function.update_self] at ha
    subst ha
    cases hp
  · rw [Function.update_of_ne hag] at ha
    exact hag (h.run.single a (.ext n) (ha ▸ hp) hin)

/-- The task that gets a processor does not stand in `mt_run_internal`. -/
theorem Ok.dispatched_inRun (h : s.Ok) :
    (if s.pc (.task t) = Pc.fresh then Pc.user else s.pc (.task t)).inRun = false := by
  split
  · rfl
  · exact h.run.task t

theorem Ok.dispatched_place (h : s.Ok) {p : Pc} (hp : p.inRun = true) :
    (if s.pc (.task t) = Pc.fresh then Pc.user else s.pc (.task t)) ≠ p := by
  rintro rfl
  exact absurd (h.dispatched_inRun.symm.trans hp) (by decide)

theorem Case.started {act : Act} (hc : Case s act s') (hok : s.Ok) (h : s.Started) :
    s'.Started := by
  have keep : (∀ a c, s'.pc a = .runLoop c → s.pc a = .runLoop c) →
      (s.workers 0 ≠ .off → s'.workers 0 ≠ .off) → s'.Started :=
    fun hpc hw a c ha => hw (h a c (hpc a c ha))
  cases hc with
  | calls a call hen hpc =>
      have hback := place_of_update (s := s) (g := a.agent) (p := .called s.nextCall call)
        .runLoop (by simp)
      cases a with
      | task w t => exact keep hback id
      | ext n => exact keep hback id
  | acts a env c o p es os sel hen hcall hp hr _ hs hon =>
      exact keep (place_of_update .runLoop fun d => Onward.ne_inRun hon rfl) id
  | resumesFd w t env c v use o p es hw hpc ho hon =>
      exact keep (place_of_update .runLoop fun d => Onward.ne_inRun hon rfl) id
  | returns | goesOn | runBegins | runPrepares | runFails | halts | shutsDown =>
      exact keep (place_of_update .runLoop (by simp)) id
  | aborts => exact keep (place_of_update .runLoop (by simp)) id
  | parks w t env c p hw hl hcall hnp hp hm =>
      refine keep (place_of_update .runLoop fun d hd => ?_) (update_ne_off (by simp) w)
      subst hd
      cases hp
  | finishes w t hw hl hpc hb =>
      exact keep (place_of_update .runLoop (by simp)) (update_ne_off (by simp) w)
  | writes | descriptors => exact h
  | spawns n env c k j hpc hj =>
      exact keep (place_of_update .runLoop (by simp)) (update_ne_off (by simp) j)
  | launches n env c hpc =>
      intro a d _
      simp [Sys.setPc, Sys.setWorker]
  | runEnds n env c hpc hl hall =>
      exact fun a d ha => absurd ha (hok.no_runner (by simp [hpc, Pc.inRun]) rfl)
  | abortEnds n env c hpc hl hall =>
      exact fun a d ha => absurd ha (hok.no_runner (by simp [hpc, Pc.inRun]) rfl)
  | starts w env hw hl => exact keep (fun _ _ => id) (update_ne_off (by simp) w)
  | startFails w env hw => exact keep (fun _ _ => id) (update_ne_off (by simp) w)
  | loops w q lock _ hl hm =>
      exact keep (fun _ _ => id) (update_ne_off (active_ne_off hl.facts.2.1) w)
  | exits w env rc hw hl hrc => exact keep (fun _ _ => id) (update_ne_off (by simp) w)
  | dispatches w env t q hw hl hq hm =>
      exact keep (place_of_update .runLoop fun d => hok.dispatched_place rfl)
        (update_ne_off (by simp) w)

theorem Case.done {act : Act} (hc : Case s act s') (hok : s.Ok) (h : s.Done)
    (hg : s.Timely act) : s'.Done := by
  refine ⟨fun hcl => ?_, hc.started hok h.started⟩
  cases hc with
  | calls a call hen hpc => cases a <;> exact h.empty hcl
  | acts a env c o p es os sel hen hcall hp hr _ hs hon =>
      have hcl' : s.Closing := hcl.back (hs.passes hok.rest).control ⟨rfl, rfl, rfl⟩
      refine List.eq_nil_iff_forall_not_mem.mpr fun u hu => ?_
      have hmem := hs.allTasks_subset hok.rest.inv (by
        rintro ⟨d, fn, n, b, hd⟩
        simp only [Timely, hd] at hg
        exact hg hcl') u hu
      rw [h.empty hcl'] at hmem
      cases hmem
  | resumesFd w t env c v use o p es hw => exact absurd hcl (h.not_running hok hw)
  | returns w t env c rc sel hw => exact absurd hcl (h.not_running hok hw)
  | goesOn w t env hw => exact absurd hcl (h.not_running hok hw)
  | parks w t env c p hw hl hcall hnp hp hm =>
      have hws := hok.rest.noWaiters t ((hok.runs t).mpr ⟨w, hw⟩)
      obtain ⟨h1, h2, h3, -⟩ := control_fields (hp.frame hws).2.2
      have hcl' : s.Closing := hcl.back (Moves.control_eq (Shifts.moves hm.shifts)) ⟨h1, h2, h3⟩
      exact absurd hcl' (h.not_running hok hw)
  | finishes w t hw hl hpc hb =>
      have hcl' : s.Closing := hcl.back hb.control_eq ⟨rfl, rfl, rfl⟩
      exact absurd hcl' (h.not_running hok hw)
  | writes | descriptors | runPrepares | spawns | launches | starts => exact h.empty hcl
  | runBegins => cases hcl.2.1
  | runFails | runEnds | abortEnds => cases hcl.1
  | aborts | startFails => cases hcl.2.2
  | halts n env c hpc hr hm =>
      obtain ⟨-, -, h3, -⟩ := control_fields (Moves.control_eq (Shifts.moves (FdShifts.shifts hm)))
      exact absurd (h3.symm.trans hcl.2.2) (by simp [Rt.halt])
  | shutsDown n env c hpc hinit hr halone hd => exact hd.off.allTasks
  | loops w q lock _ hl hm =>
      have hctrl := Moves.control_eq (Shifts.moves (Ticks.shifts hm))
      exact (Moves.allTasks_eq (Shifts.moves (Ticks.shifts hm))).trans
        (h.empty (hcl.back hctrl ⟨rfl, rfl, rfl⟩))
  | exits w env rc hw hl hrc =>
      have hon := (hok.run.bound w (active_ne_off (locked_active hw).1)).2
      rcases hrc with ⟨rfl, hstop | hlive⟩ | rfl
      · exact h.empty ⟨hon, hstop, hcl.2.2⟩
      · exact hok.allTasks_eq_nil hlive
      · cases hcl.2.2
  | dispatches w env t q hw hl hq hm =>
      obtain ⟨hmem, hready⟩ := hok.rest.inv.mem_runq (t := t)
        (by simp [(Queue.pop_eq_some.mp hq).1])
      have hcl' : s.Closing :=
        hcl.back (Moves.control_eq (Shifts.moves hm.shifts)) ⟨rfl, rfl, rfl⟩
      rw [h.empty hcl'] at hmem
      cases hmem

theorem done_of_reach (h : machine.Reach (Under Timely) s) : s.Done := by
  refine invariant_of_cases (fun kind => ⟨fun _ => rfl, fun a c ha => ?_⟩)
    (fun s s₀ hok hp hd => ?_) (fun s s₀ a hok hp hg => hg.prepared hok hp)
    (fun s a s' hok hd hg hc => hc.done hok hd hg) h
  · cases a <;> cases ha
  · rcases hp.cases hok with ⟨tape, rfl⟩ | ⟨-, -, rt, hb, rfl⟩
    · exact ⟨hd.empty, hd.started⟩
    · exact ⟨fun _ => hb.off.allTasks, hd.started⟩

/-- The call `c` of `mt_run` or `mt_runtime_start` is in progress at this place. -/
def RunningAt (c : CallId) (p : Pc) : Prop :=
  p.call? = some c ∧ (p.inRun = true ∨ ∃ k b, p = .called c (.run k b))

theorem init_log (r : Rt) : r.init.2.log = r.log := by
  unfold Rt.init
  split
  · rfl
  · obtain ⟨ok, tape, hask⟩ := r.reset.ask_eq
    rw [hask]
    cases ok <;> rfl

/-- The first section of `mt_run_internal` does not return `MT_OK`. -/
theorem callApi_run_log {a : Actor} {c : CallId} {env : Env} {k : Nat} {b : Bool} :
    (s.callApi a c env (.run k b)).rt.log ≠ s.rt.log ++ [.done c .neither .ok, .ret c .ok] := by
  have hret : ∀ (rc : Rc) (rt : Rt), rc ≠ .ok → rt.log = s.rt.log →
      (s.ret a c .neither rc rt).rt.log ≠ s.rt.log ++ [.done c .neither .ok, .ret c .ok] :=
    fun rc rt hrc hlog heq => by
      rw [ret_eq] at heq
      change rt.log ++ _ = _ at heq
      rw [hlog] at heq
      simp [hrc] at heq
  have hinit := init_log s.rt
  simp only [Sys.callApi]
  split
  · exact hret _ _ (by simp) rfl
  · unfold Sys.ensureInit
    split
    · next rt heq =>
        rw [heq] at hinit
        simp only
        split
        · exact hret _ _ (by simp) hinit
        · intro hlog
          change rt.log = _ at hlog
          rw [hinit] at hlog
          simp at hlog
    · next rt _ heq =>
        rw [heq] at hinit
        exact hret _ _ (by simp) hinit

/-- In a run without a late `mt_go`, when `mt_run` returns `MT_OK` every task has completed
in the section that ends the run. -/
theorem run_ok_all_done (h : machine.Reach (Under Timely) s) {a : Actor} {c : CallId} {env : Env}
    (hpc : RunningAt c (s.pc a.agent)) (hstep : machine.step s (.cont a env) = some s')
    (hret : s'.rt.log = s.rt.log ++ [.done c .neither .ok, .ret c .ok]) :
    s.rt.allTasks = [] ∧ s.rt.liveCount = 0 ∧ s.rt.runq.items = [] := by
  have hok := ok_of_under h
  have hdone := done_of_reach h
  suffices hnone : s.rt.allTasks = [] by
    refine ⟨hnone, by simp [hok.rest.inv.task.live, hnone], ?_⟩
    refine List.eq_nil_iff_forall_not_mem.mpr fun u hu => ?_
    have := (hok.rest.inv.mem_runq hu).1
    simp [hnone] at this
  have hsame : s'.rt.log ≠ s.rt.log := fun heq => by simp [heq] at hret
  obtain ⟨hcall, hin | ⟨k, b, hcalled⟩⟩ := hpc
  · cases a with
    | task w t =>
        have := hok.run.task t
        simp only [Actor.agent] at hin
        simp [this] at hin
    | ext n =>
        simp only [Actor.agent] at hin hcall
        have hcase : Case (s.tick env.tape) (.cont (.ext n) env) s' :=
          (hok.tick env.tape).runStep env hin hstep
        cases hcase with
        | acts a env c o p es os sel hen hcall hp hr _ hs hon =>
            rw [show (s.pc (.ext n)).inRun = false from hr] at hin
            cases hin
        | runBegins n env d k sleep hpc =>
            rw [show s.pc (.ext n) = _ from hpc] at hin
            cases hin
        | runFails n env d k tape hpc =>
            rw [ret_eq] at hret
            simp [Sys.setPc, Sys.tick] at hret
        | runEnds n env d hpc hl hall =>
            rw [ret_eq] at hret
            have hres : d = c ∧ s.rt.runResult = .ok := by
              simpa [Sys.setPc, Sys.tick] using hret
            have hne : s.workers 0 ≠ .off := hdone.started (.ext n) d hpc
            obtain ⟨hlt, hon⟩ := hok.run.bound 0 hne
            have hexit : s.workers 0 = .exited := (hall 0 hlt).resolve_right hne
            exact hdone.empty ⟨hon, hok.run.exited 0 hexit, hres.2⟩
        | abortEnds n env d hpc hl hall =>
            rw [ret_eq] at hret
            simp [Sys.setPc, Sys.tick] at hret
        | halts n env d hpc =>
            rw [show s.pc (.ext n) = _ from hpc] at hin
            cases hin
        | shutsDown n env d hpc =>
            rw [show s.pc (.ext n) = _ from hpc] at hin
            cases hin
        | loops w q lock hact => rcases hact with ⟨_, hact⟩ | ⟨_, hact⟩ <;> cases hact
        | _ => exact absurd rfl hsame
  · simp only [machine, Sys.step] at hstep
    split at hstep
    · change (s.tick env.tape).continueCall a env = some s' at hstep
      unfold Sys.continueCall at hstep
      rw [show (s.tick env.tape).pc a.agent = _ from hcalled] at hstep
      simp only at hstep
      split at hstep
      · cases hstep
        exact absurd hret (callApi_run_log (s := s.tick env.tape))
      · cases hstep
    · cases hstep

/-- A task yields and returns before the run ends. -/
theorem run_ok_all_done_one_task : ∃ s s' c, machine.Reach (Under Timely) s ∧
    machine.step s (.cont (.ext 0) {}) = some s' ∧ s'.rt.log.getLast? = some (.ret c .ok) ∧
    s.rt.allTasks = [] := by
  obtain ⟨s, hs, hp⟩ := reach_of_trace_under Timely .poll (List.flatten [
      invoke (.ext 0) (.go true 0 false), invoke (.ext 0) (.run 1 true) 2, works 0 3,
      invoke (.task 0 0) .yield, works 0 2, [.cont (.task 0 0) {}, .finish 0 0], works 0 2])
    (fun s => s.pc (.ext 0) == .runLoop 1 && (machine.step s (.cont (.ext 0) {})).any fun s' =>
      s'.rt.log == s.rt.log ++ [Event.done 1 .neither .ok, Event.ret 1 .ok]) (by decide +kernel)
  simp only [Bool.and_eq_true, beq_iff_eq, Option.any_eq_true] at hp
  obtain ⟨hpc, s', hstep, hlog⟩ := hp
  exact ⟨s, s', 1, hs, hstep, by simp [hlog],
    (run_ok_all_done (a := .ext 0) (c := 1) hs (by simp [RunningAt, Actor.agent, hpc, Pc.call?, Pc.inRun])
      hstep hlog).1⟩

/-- An external thread makes a task after the worker has stopped the run; `mt_run` returns
`MT_OK` with the task still queued. -/
theorem late_go_is_lost : ∃ s s', machine.Reach Sys.Contract s ∧ RunningAt 1 (s.pc (.ext 0)) ∧
    machine.step s (.cont (.ext 0) {}) = some s' ∧
    s'.rt.log = s.rt.log ++ [.done 1 .neither .ok, .ret 1 .ok] ∧
    s.rt.liveCount = 1 ∧ s.rt.runq.items.length = 1 := by
  obtain ⟨s, hs, hp⟩ := reach_of_promised .poll (List.flatten [
      invoke (.ext 0) (.go true 0 false), invoke (.ext 0) (.run 1 true) 2, works 0 3,
      [.finish 0 0], works 0 2, invoke (.ext 1) (.go true 0 false)])
    (fun s => s.pc (.ext 0) == .runLoop 1 && s.rt.liveCount == 1 && s.rt.runq.items.length == 1 &&
      (machine.step s (.cont (.ext 0) {})).any fun s' =>
        s'.rt.log == s.rt.log ++ [Event.done 1 .neither .ok, Event.ret 1 .ok]) (by decide +kernel)
  simp only [Bool.and_eq_true, beq_iff_eq, Option.any_eq_true] at hp
  obtain ⟨⟨⟨hpc, hlive⟩, hq⟩, s', hstep, hlog⟩ := hp
  exact ⟨s, s', hs, by simp [RunningAt, hpc, Pc.call?, Pc.inRun], hstep, hlog, hlive, hq⟩

end Sys

end Microthread
