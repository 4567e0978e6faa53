import Microthread.System.Records

/-!
# What a step does to the channels

Most steps leave the records of the channels alone and at most take waiters out of their
queues (`Thins`). The others are the sections of the channel operations, the creation of a
channel, a task that parks on a channel, and the shutdown. `Traffic` lists them, so that
facts about channels can be proved without looking at the other sections.
-/

namespace Microthread

open Foundation Rt

namespace Rt

/-- No value moves and no channel changes; waiters may have left the queues. -/
structure Thins (s s' : Rt) : Prop where
  chan : s'.chan = s.chan
  waitq : ∀ r, r.chan? ≠ none → (s'.waitq r).items.Sublist (s.waitq r).items
  selectq : ∀ r, (s'.selectq r).items.Sublist (s.selectq r).items
  selw : ∀ r, ∀ w ∈ (s'.selectq r).items, s'.selw w = s.selw w
  freed : ∀ ch, s.frees (.chan ch) ≤ s'.frees (.chan ch)
  log : ∃ es, s'.log = s.log ++ es ∧ ∀ e ∈ es, ¬e.IsTransfer

variable {s s' a : Rt} {t : TaskId}

theorem Thins.refl (s : Rt) : Thins s s :=
  ⟨rfl, fun _ _ => .refl _, fun _ => .refl _, fun _ _ _ => rfl, fun _ => le_rfl, [],
    (List.append_nil _).symm, nofun⟩

theorem Thins.trans (h : Thins s a) (h' : Thins a s') : Thins s s' where
  chan := h'.chan.trans h.chan
  waitq r hr := (h'.waitq r hr).trans (h.waitq r hr)
  selectq r := (h'.selectq r).trans (h.selectq r)
  selw r w hw := (h'.selw r w hw).trans (h.selw r w ((h'.selectq r).subset hw))
  freed ch := (h.freed ch).trans (h'.freed ch)
  log := by
    obtain ⟨es, hes, h1⟩ := h.log
    obtain ⟨es', hes', h2⟩ := h'.log
    refine ⟨es ++ es', by rw [hes', hes, List.append_assoc], fun e he => ?_⟩
    exact (List.mem_append.mp he).elim (h1 e) (h2 e)

/-- Neither the channels nor their queues change. -/
theorem Thins.same (hchan : s'.chan = s.chan) (hwaitq : s'.waitq = s.waitq)
    (hselectq : s'.selectq = s.selectq) (hselw : s'.selw = s.selw)
    (hfrees : ∀ ch, s.frees (.chan ch) ≤ s'.frees (.chan ch))
    (hlog : ∃ es, s'.log = s.log ++ es ∧ ∀ e ∈ es, ¬e.IsTransfer) : Thins s s' where
  chan := hchan
  waitq r _ := by rw [hwaitq]
  selectq r := by rw [hselectq]
  selw r w _ := by rw [hselw]
  freed := hfrees
  log := hlog

theorem Thins.logged (hlog : ∃ es, s'.log = s.log ++ es ∧ ∀ e ∈ es, ¬e.IsTransfer)
    (hchan : s'.chan = s.chan) (hwaitq : s'.waitq = s.waitq) (hselectq : s'.selectq = s.selectq)
    (hselw : s'.selw = s.selw) (hfrees : s'.frees = s.frees) : Thins s s' :=
  .same hchan hwaitq hselectq hselw (fun ch => by rw [hfrees]) hlog

/-- What comes before touches neither the channels nor the history. -/
theorem Thins.after (h : Thins a s') (hchan : a.chan = s.chan) (hwaitq : a.waitq = s.waitq)
    (hselectq : a.selectq = s.selectq) (hselw : a.selw = s.selw) (hfrees : a.frees = s.frees)
    (hlog : a.log = s.log) : Thins s s' :=
  .trans (.logged ⟨[], by rw [hlog, List.append_nil], nofun⟩ hchan hwaitq hselectq hselw hfrees) h

theorem log_nil (s : Rt) : ∃ es, s.log = s.log ++ es ∧ ∀ e ∈ es, ¬e.IsTransfer :=
  ⟨[], (List.append_nil _).symm, nofun⟩

theorem log_done (s : Rt) (c : CallId) (role : Role) (rc : Rc) :
    ∃ es, s.log ++ [.done c role rc] = s.log ++ es ∧ ∀ e ∈ es, ¬e.IsTransfer :=
  ⟨_, rfl, by simp [Event.IsTransfer]⟩

/-- A task leaves a queue. -/
theorem Thins.unlink {r : WaitqRef} (hchan : s'.chan = s.chan)
    (hwaitq : s'.waitq = Function.update s.waitq r ((s.waitq r).remove t).2)
    (hselectq : s'.selectq = s.selectq) (hselw : s'.selw = s.selw) (hfrees : s'.frees = s.frees)
    (hlog : ∃ es, s'.log = s.log ++ es ∧ ∀ e ∈ es, ¬e.IsTransfer) : Thins s s' where
  chan := hchan
  waitq r _ := (shrinks_unlink hwaitq hselectq).1 r
  selectq r := by rw [hselectq]
  selw r w _ := by rw [hselw]
  freed ch := by rw [hfrees]
  log := hlog

theorem thins_wakeChan (s : Rt) (r : WaitqRef) (t : TaskId) (rc : Rc) :
    Thins s (s.wakeChan r t rc) := .unlink rfl rfl rfl rfl rfl (s.log_done _ _ _)

theorem thins_wakeSelect (s : Rt) (t : TaskId) (items : List TaskId) (role : Role) (rc : Rc)
    (index : Nat) : Thins s (s.wakeSelect t items role rc index) where
  chan := rfl
  waitq _ _ := .refl _
  selectq _ := List.filter_sublist
  selw r w hw := by
    have hnot : w ∉ (s.task t).selectWaiters := by
      simpa using (List.mem_filter.mp (show w ∈ (s.selectq r).items.filter _ from hw)).2
    exact if_neg hnot
  freed ch := Nat.le_add_right _ _
  log := s.log_done _ role rc

end Rt

open Rt

variable {s s' a : Rt} {t : TaskId}

theorem Shift.thins (hm : Shift s s') : Thins s s' := by
  cases hm with
  | drain hd =>
      cases hd with
      | task r t => exact .unlink rfl rfl rfl rfl rfl (s.log_done _ _ _)
      | select r w items => exact s.thins_wakeSelect _ items _ _ _
  | timeout t items => exact s.thins_wakeSelect t items _ _ _
  | wakeJoin x t => exact .unlink rfl rfl rfl rfl rfl (s.log_done _ _ _)
  | dropHandle x => exact .same rfl rfl rfl rfl (fun ch => by simp [Rt.dropHandle]) s.log_nil
  | releaseDrop x =>
      exact .same rfl rfl rfl rfl (fun ch => by simp [Rt.dropHandle, Rt.modHandle]) s.log_nil
  | waste mk =>
      refine .same rfl rfl rfl rfl (fun ch => ?_) s.log_nil
      by_cases hch : Obj.chan ch = mk s.nextAddr
      · simp [Rt.waste, hch]
      · simp [Rt.waste, hch]
  | wasteTask => exact .same rfl rfl rfl rfl (fun ch => by simp [Rt.wasteTask, Rt.waste]) s.log_nil
  | wasteHandle =>
      exact .same rfl rfl rfl rfl (fun ch => by simp [Rt.wasteHandle, Rt.waste]) s.log_nil
  | wasteFd => exact .same rfl rfl rfl rfl (fun ch => by simp [Rt.wasteFd, Rt.waste]) s.log_nil
  | _ => exact .logged s.log_nil rfl rfl rfl rfl rfl

theorem Shifts.thins (hm : Shifts s s') : Thins s s' := by
  induction hm with
  | refl => exact .refl s
  | tail _ hm ih => exact ih.trans hm.thins

theorem thins_reap (s : Rt) (t : TaskId) : Thins s (s.reap t) := by
  unfold Rt.reap
  split
  · exact .same rfl rfl rfl rfl (fun ch => by simp) s.log_nil
  · exact .same rfl rfl rfl rfl (fun ch => by simp) s.log_nil

theorem Buries.thins (hb : Buries t s s') : Thins s s' := by
  obtain ⟨hm, ht, hd, hset⟩ := hb
  exact (Shifts.thins (HandleShifts.shifts hm)).trans (thins_reap _ t)

theorem Cancels.thins (hc : Cancels t s s') : Thins s s' := by
  cases hc with
  | nothing => exact .refl s
  | sleep items => exact .logged s.log_nil rfl rfl rfl rfl rfl
  | chan r => exact .unlink rfl rfl rfl rfl rfl (s.log_done _ _ _)
  | select items => exact s.thins_wakeSelect t items _ _ _
  | fd w items => exact .logged s.log_nil rfl rfl rfl rfl rfl
  | join x => exact .unlink rfl rfl rfl rfl rfl (s.log_done _ _ _)
  | destroy ht hs hb =>
      have hkill : Thins s (s.killReady t) := .logged s.log_nil rfl rfl rfl rfl rfl
      exact hkill.trans hb.thins

theorem Rt.CancelCall.thins {x : HandleId} (hc : CancelCall s x s') : Thins s s' := by
  cases hc with
  | late => exact .logged s.log_nil rfl rfl rfl rfl rfl
  | wake u a hx hcomp htask hcancel => exact (Shifts.thins (reported_shifts hcomp)).trans hcancel.thins

/-- Registration links waiters of its own only and leaves the others alone. -/
theorem Registers.selw (hm : Registers t s s') : s.nextAddr ≤ s'.nextAddr ∧
    ∀ r, ∀ w ∈ (s'.selectq r).items, w < s.nextAddr → s'.selw w = s.selw w := by
  induction hm with
  | refl => exact ⟨le_rfl, fun _ _ _ _ => rfl⟩
  | tail _ hm ih =>
      obtain ⟨hnext, ih⟩ := ih
      cases hm with
      | quiet | prepare | setIndex => exact ⟨hnext, ih⟩
      | add i k =>
          refine ⟨hnext.trans (Nat.le_succ _), fun r w hw hlt => ?_⟩
          have hne := (hlt.trans_le hnext).ne
          rw [addWaiter_items] at hw
          have hold : w ∈ (_ : List WaiterId) := (List.mem_append.mp hw).resolve_right fun hnew => by
            split at hnew
            · exact hne (List.mem_singleton.mp hnew)
            · cases hnew
          exact (Function.update_of_ne hne _ _).trans (ih r w hold hlt)
      | abandon =>
          refine ⟨hnext, fun r w hw hlt => ?_⟩
          obtain ⟨hold, hnot⟩ := List.mem_filter.mp (show w ∈ List.filter _ _ from hw)
          exact (if_neg (by simpa using hnot)).trans (ih r w hold hlt)

theorem Registers.freed (hm : Registers t s s') (ch : ChanId) :
    s.frees (.chan ch) ≤ s'.frees (.chan ch) := by
  induction hm with
  | refl => exact le_rfl
  | tail _ hm ih =>
      refine ih.trans ?_
      cases hm with
      | abandon => exact Nat.le_add_right _ _
      | _ => exact le_rfl

theorem Registers.frame (hm : Registers t s s') :
    s'.chan = s.chan ∧ s'.waitq = s.waitq ∧ s'.log = s.log := by
  obtain ⟨_, _, _, _, _, _, _, _, _, _, _, _, rfl⟩ := Registers.enrols hm
  exact ⟨rfl, rfl, rfl⟩

theorem Rt.SelectFails.thins (hf : SelectFails t s s') (h : s.Inv) : Thins s s' := by
  obtain ⟨hchan, hwaitq, hlog⟩ := Registers.frame hf.registers
  refine ⟨hchan, fun r _ => by rw [hwaitq], fun r => by rw [hf.items], fun r w hw => ?_,
    Registers.freed hf.registers, [], by rw [hlog, List.append_nil], nofun⟩
  refine (Registers.selw hf.registers).2 r w hw ?_
  rw [hf.items] at hw
  obtain ⟨ht, hmem, -⟩ := h.mem_selectq hw
  exact h.heap.fresh _ (h.heap.selectWaiter _ ht w hmem)

namespace Sys

/-- What a step does to the channels and their queues. -/
inductive Traffic (s : Sys) (act : Act) : Rt → Prop where
  | still {r'} : Thins s.rt r' → Traffic s act r'
  | send (c kind ch value rc) {r r'} : s.rt.Live (.chan ch) → SendNow s.rt c kind ch value rc r →
      Thins r r' → Traffic s act r'
  | recv (c ch out rc) {r r'} : s.rt.Live (.chan ch) → RecvNow s.rt c ch out rc r → Thins r r' →
      Traffic s act r'
  | close (ch rc) {r r'} : s.rt.Live (.chan ch) → Closes s.rt ch rc r → Thins r r' → Traffic s act r'
  | destroy (ch rc) {r r'} : s.rt.Live (.chan ch) → Destroys s.rt ch rc r → Thins r r' →
      Traffic s act r'
  | create (elemSize capacity) {r'} : Thins (s.rt.newChan elemSize capacity) r' → Traffic s act r'
  | parkSend (t ch value) {r'} : ch ∈ s.rt.channels → s.rt.SendBlocks ch →
      Thins (s.rt.parkChan t ch .send value) r' → Traffic s act r'
  | parkRecv (t ch out) {r'} : ch ∈ s.rt.channels → s.rt.RecvBlocks ch →
      Thins (s.rt.parkChan t ch .recv out) r' → Traffic s act r'
  | parkSelect (w t env c cases plan) {r r'} : act = .cont (.task w t) env →
      s.workers w = .running t →
      s.pc (.task t) = .selectReg c cases plan → s.rt.CasesRegistered cases →
      SelectParks t cases plan s.rt r → Thins r r' → Traffic s act r'
  | shutdown {r r'} : ShutDown s.rt r → Thins r r' → Traffic s act r'

/-- The steps that can do more to the channels than take waiters out of their queues: a
section of a call, a task that parks, and the shutdown. -/
inductive Busy (s : Sys) (act : Act) : Rt → Prop where
  | still {r'} : Thins s.rt r' → Busy s act r'
  | acts (a env c o) {r r'} : act = .cont a env → s.enabled a = true →
      (s.pc a.agent).call? = some c → (s.pc a.agent).parked = false →
      Section (Pc.Does a.agent (s.pc a.agent)) c s.rt o r → Thins r r' → Busy s act r'
  | parks (w t env c p) {r r'} : act = .cont (.task w t) env → s.workers w = .running t →
      (s.pc (.task t)).call? = some c → (s.pc (.task t)).parked = false →
      Parks t c (s.pc (.task t)) s.rt p r → Thins r r' → r'.task = r.task → Busy s act r'
  | shutdown {r r'} : ShutDown s.rt r → Thins r r' → Busy s act r'

end Sys

theorem Rt.Created.traffic {s : Sys} {act : Act} {a s' : Rt} (hc : Created s.rt a)
    (h : Thins a s') : s.Traffic act s' := by
  cases hc with
  | no _ hs => exact .still ((Shifts.thins (Wastes.shifts hs)).trans h)
  | task tape => exact .still (h.after rfl rfl rfl rfl rfl rfl)
  | handle tape => exact .still (h.after rfl rfl rfl rfl rfl rfl)
  | chan tape elemSize capacity =>
      exact .create elemSize capacity (h.after rfl rfl rfl rfl rfl rfl)

theorem Rt.Section.traffic {s : Sys} {act : Act} {a s' : Rt} {does : Op → Prop} {c : CallId}
    {o : Option (Role × Rc)} (hs : Section does c s.rt o a) (hi : s.rt.Inv) (h : Thins a s') :
    s.Traffic act s' := by
  cases hs with
  | idle o tape => exact .still (h.after rfl rfl rfl rfl rfl rfl)
  | release x rc _ hr => exact .still (hr.shift.thins.trans h)
  | fd o _ _ ho => exact .still (.trans (Shifts.thins (ho.shifts hi)) h)
  | go rc _ _ hc => exact hc.traffic h
  | chanCreate rc _ _ hc => exact hc.created.traffic h
  | cancel x _ hc => exact .still (hc.thins.trans h)
  | send kind ch value rc _ hl hsend => exact .send c kind ch value rc hl hsend h
  | sendNot => exact .still h
  | recv ch out rc _ hl hrecv => exact .recv c ch out rc hl hrecv h
  | recvNot => exact .still h
  | close ch rc _ hl hc => exact .close ch rc hl hc h
  | destroy ch rc _ hl hd => exact .destroy ch rc hl hd h
  | unselect t rc _ _ hf => exact .still ((hf.thins hi).trans h)
  | unwait t rc x _ _ _ hq =>
      obtain ⟨gens, polling, interest, filters, tape, rfl⟩ := hq
      refine .still (.trans ?_ h)
      exact .same rfl rfl rfl rfl (fun ch => by simp [Rt.wasteFd, Rt.waste, Rt.touchFd, Rt.modTask])
        s.rt.log_nil

theorem Onward.log {c : CallId} {q p : Pc} {r : Rt} {o : Option (Role × Rc)} {es : List Event}
    (hon : Onward c q r o p es) : ∀ e ∈ es, ¬e.IsTransfer := by
  cases hon with
  | on => exact nofun
  | out => simp [Event.IsTransfer]

theorem Rt.Marked.thins (hm : Marked s s') : Thins s s' := Shifts.thins hm.shifts

namespace Sys

variable {s s' : Sys}

theorem thins_ret (r : Rt) (s : Sys) (a : Actor) (c : CallId) (rc : Rc) :
    Thins r (s.ret a c .neither rc r).rt :=
  .logged ⟨[.done c .neither rc, .ret c rc], by simp [Sys.ret, Sys.setPc, Rt.record],
    by simp [Event.IsTransfer]⟩ rfl rfl rfl rfl rfl

theorem Case.busy {act : Act} (hc : Case s act s') : s.Busy act s'.rt := by
  have same : ∀ {r : Rt}, r.chan = s.rt.chan → r.waitq = s.rt.waitq → r.selectq = s.rt.selectq →
      r.selw = s.rt.selw → r.frees = s.rt.frees → r.log = s.rt.log → s.Busy act r :=
    fun h1 h2 h3 h4 h5 h6 => .still (.logged ⟨[], by rw [h6, List.append_nil], nofun⟩ h1 h2 h3 h4 h5)
  cases hc with
  | calls a call hen hpc =>
      cases a with
      | ext n => exact same rfl rfl rfl rfl rfl rfl
      | task w u => exact same rfl rfl rfl rfl rfl rfl
  | acts a env c o p es os sel hen hc hp hr _ hs hon =>
      exact .acts a env c o rfl hen hc hp hs (.logged ⟨es, rfl, hon.log⟩ rfl rfl rfl rfl rfl)
  | resumesFd w u env c v use o p es hw hpc ho hon =>
      exact .still (.same rfl rfl rfl rfl (fun ch => by simp [Rt.finishFd, Sys.setPc])
        ⟨es, rfl, hon.log⟩)
  | returns w u env c rc sel hw hr =>
      exact .still (.logged ⟨[.ret c rc], rfl, by simp [Event.IsTransfer]⟩ rfl rfl rfl rfl rfl)
  | parks w u env c p hw hl hcall hnp hp hm =>
      have hleave : ∀ r : Rt, Thins r r.leave := fun r => .logged r.log_nil rfl rfl rfl rfl rfl
      exact .parks w u env c p rfl hw hcall hnp hp ((hleave _).trans hm.thins) hm.task_eq
  | finishes w u hw hl hpc hb =>
      exact .still (Thins.after hb.thins rfl rfl rfl rfl rfl rfl)
  | runFails n env c k tape =>
      exact .still (Thins.after (thins_ret _ s (.ext n) c _) rfl rfl rfl rfl rfl rfl)
  | runEnds n env c =>
      exact .still (Thins.after (thins_ret _ { s with workers := fun _ => .off } (.ext n) c _)
        rfl rfl rfl rfl rfl rfl)
  | abortEnds n env c =>
      exact .still (Thins.after (thins_ret _ { s with workers := fun _ => .off } (.ext n) c _)
        rfl rfl rfl rfl rfl rfl)
  | halts n env c hpc hr hm =>
      have hhalt : Thins s.rt s.rt.halt := .logged s.rt.log_nil rfl rfl rfl rfl rfl
      exact .still ((hhalt.trans (Shifts.thins (FdShifts.shifts hm))).trans (thins_ret _ s _ _ _))
  | shutsDown n env c hpc hinit hr halone hd => exact .shutdown hd (thins_ret _ s _ _ _)
  | loops w q lock _ hl hm => exact .still (Shifts.thins (Ticks.shifts hm))
  | dispatches w env u q hw hl hq hm =>
      exact .still (Thins.after hm.thins rfl rfl rfl rfl rfl rfl)
  | _ => exact same rfl rfl rfl rfl rfl rfl

theorem thins_parkJoin (r : Rt) (t : TaskId) (x : HandleId) : Thins r (r.parkJoin t x) := by
  refine ⟨rfl, fun q hq => ?_, fun _ => .refl _, fun _ _ _ => rfl, fun _ => le_rfl, r.log_nil⟩
  have hne : q ≠ .joiners x := fun heq => hq (heq ▸ rfl)
  simp [Rt.parkJoin, hne]

theorem Busy.traffic {act : Act} {r : Rt} (hb : s.Busy act r) (h : s.Ok) : s.Traffic act r := by
  cases hb with
  | still hthin => exact .still hthin
  | acts a env c o hact hen hcall hnp hs hthin => exact hs.traffic h.rest.inv hthin
  | parks w t env c p hact hw hcall hnp hp hthin _ =>
      cases hp with
      | send ch value _ hch hb => exact .parkSend t ch value hch hb hthin
      | recv ch out _ hch hb => exact .parkRecv t ch out hch hb hthin
      | select cases plan hq hch hp =>
          exact .parkSelect w t env c cases plan hact hw hq hch hp hthin
      | join x => exact .still ((thins_parkJoin _ t x).trans hthin)
      | sleep tape timers wakeNs =>
          exact .still (Thins.after hthin rfl rfl rfl rfl rfl rfl)
      | yield => exact .still (Thins.after hthin rfl rfl rfl rfl rfl rfl)
      | fd timers wakeNs x use _ hq =>
          obtain ⟨gens, polling, interest, filters, tape, rfl⟩ := hq
          exact .still (Thins.after hthin rfl rfl rfl rfl rfl rfl)
  | shutdown hd hthin => exact .shutdown hd hthin

theorem Case.traffic {act : Act} (hc : Case s act s') (h : s.Ok) : s.Traffic act s'.rt :=
  hc.busy.traffic h

end Sys

end Microthread
