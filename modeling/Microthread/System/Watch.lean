import Microthread.System.Records

/-!
# What a step does to the descriptor waiters

The linked waiters, the generation table and the interest set of the kernel belong
together. Most steps leave them alone, end waits one by one or unlink waiters whose wait
has ended (`Drift`). The others are the sections of the descriptor operations, a task
that parks on a descriptor, a descriptor that the process closes, and the reset of the
runtime. `Watch` lists them, so that facts about descriptors can be proved without looking
at the other sections.
-/

namespace Microthread

open Foundation Rt

namespace Rt

/-- The descriptor parts agree. -/
structure FdSame (s s' : Rt) : Prop where
  kind : s'.ioBackendKind = s.ioBackendKind
  list : s'.fdWaiters = s.fdWaiters
  record : ∀ w ∈ s.fdWaiters, s'.fdw w = s.fdw w
  generations : s'.fdGenerations = s.fdGenerations
  interest : s'.interest = s.interest

/-- The wait of `w` has ended; the waiter stays linked until its task resumes. -/
def reserve (s : Rt) (w : FdWaiterId) : Rt :=
  { s with
    interest := s.interestWithout w, filters := s.filtersWithout w
    fdw := Function.update s.fdw w { s.fdw w with state := .readyReserved } }

/-- The elementary changes of the descriptor part. -/
inductive Drift (s : Rt) : Rt → Prop where
  | same {s'} : FdSame s s' → Drift s s'
  | insert (g) : s.fdGenerationFind g.fd = none → g.closing = false → g.adopted = false →
      Drift s { s with fdGenerations := g :: s.fdGenerations }
  | wake (w) : w ∈ s.fdWaiters → (s.fdw w).state = .active → Drift s (s.reserve w)
  | unlink (w) : (s.fdw w).state ≠ .active → Drift s { s with fdWaiters := s.fdWaiters.erase w }

abbrev Drifts : Rt → Rt → Prop := Relation.ReflTransGen Drift

variable {s s' a : Rt} {t : TaskId} {w : FdWaiterId}

theorem FdSame.refl (s : Rt) : FdSame s s := ⟨rfl, rfl, fun _ _ => rfl, rfl, rfl⟩

theorem FdSame.trans (h : FdSame s a) (h' : FdSame a s') : FdSame s s' where
  kind := h'.kind.trans h.kind
  list := h'.list.trans h.list
  record w hw := (h'.record w (h.list ▸ hw)).trans (h.record w hw)
  generations := h'.generations.trans h.generations
  interest := h'.interest.trans h.interest

theorem FdSame.of_eq (hk : s'.ioBackendKind = s.ioBackendKind) (hl : s'.fdWaiters = s.fdWaiters)
    (hw : s'.fdw = s.fdw) (hg : s'.fdGenerations = s.fdGenerations)
    (hi : s'.interest = s.interest) : FdSame s s' :=
  ⟨hk, hl, fun w _ => by rw [hw], hg, hi⟩

theorem Drifts.of_eq (hk : s'.ioBackendKind = s.ioBackendKind) (hl : s'.fdWaiters = s.fdWaiters)
    (hw : s'.fdw = s.fdw) (hg : s'.fdGenerations = s.fdGenerations)
    (hi : s'.interest = s.interest) : Drifts s s' :=
  .single (.same (.of_eq hk hl hw hg hi))

end Rt

variable {s s' a : Rt} {t : TaskId}

/-! ## The elementary changes -/

theorem HandleShift.fd_eq (hm : HandleShift s s') : FdSame s s' ∧ s'.fdw = s.fdw ∧
    ∀ u, (s'.task u).fdWaiter = (s.task u).fdWaiter := by
  cases hm with
  | complete | drop => exact ⟨.of_eq rfl rfl rfl rfl rfl, rfl, fun _ => rfl⟩
  | wakeJoin h t =>
      refine ⟨.of_eq rfl rfl rfl rfl rfl, rfl, fun u => ?_⟩
      by_cases hu : u = t
      · subst hu
        simp [Rt.wakeJoin]
      · simp [Rt.wakeJoin, hu]

theorem HandleShifts.fd_eq (hm : HandleShifts s s') : FdSame s s' ∧ s'.fdw = s.fdw ∧
    ∀ u, (s'.task u).fdWaiter = (s.task u).fdWaiter := by
  induction hm with
  | refl => exact ⟨.refl _, rfl, fun _ => rfl⟩
  | tail _ hm ih =>
      obtain ⟨h1, h2, h3⟩ := ih
      obtain ⟨k1, k2, k3⟩ := hm.fd_eq
      exact ⟨h1.trans k1, k2.trans h2, fun u => (k3 u).trans (h3 u)⟩

theorem Wastes.fdSame (hm : Wastes s s') : FdSame s s' := by
  induction hm with
  | refl => exact .refl _
  | tail _ hm ih =>
      refine ih.trans ?_
      cases hm with
      | tape | object | task | handle => exact .of_eq rfl rfl rfl rfl rfl

theorem Drain.fdSame {ch : ChanId} (hd : Drain ch s s') : FdSame s s' := by
  cases hd with
  | task | select => exact .of_eq rfl rfl rfl rfl rfl

theorem Drains.fdSame {ch : ChanId} (hd : Drains ch s s') : FdSame s s' := by
  induction hd with
  | refl => exact .refl _
  | tail _ hd ih => exact ih.trans hd.fdSame

theorem Registers.fdSame (hm : Registers t s s') : FdSame s s' := by
  obtain ⟨_, _, _, _, _, _, _, _, _, _, _, _, rfl⟩ := Registers.enrols hm
  exact .of_eq rfl rfl rfl rfl rfl

/-- A waiter whose wait has ended is unlinked and freed. -/
theorem drifts_unlink {w : FdWaiterId} (hn : s.fdWaiters.Nodup) (hw : (s.fdw w).state ≠ .active)
    (hk : s'.ioBackendKind = s.ioBackendKind) (hl : s'.fdWaiters = s.fdWaiters.erase w)
    (hfdw : ∀ v, v ≠ w → s'.fdw v = s.fdw v) (hg : s'.fdGenerations = s.fdGenerations)
    (hi : s'.interest = s.interest) : Drifts s s' := by
  refine .tail (.single (.unlink w hw)) (.same ⟨hk, hl, fun v hv => hfdw v ?_, hg, hi⟩)
  exact ((hn.mem_erase_iff).mp hv).1

/-- A dead task takes its waiter, if it still has one, along. -/
theorem drifts_reap (hn : s.fdWaiters.Nodup)
    (hw : ∀ w, (s.task t).fdWaiter = some w → (s.fdw w).state ≠ .active) : Drifts s (s.reap t) := by
  unfold Rt.reap
  split
  · exact .of_eq rfl rfl rfl rfl rfl
  · next w hfd =>
      exact drifts_unlink hn (hw w hfd) rfl rfl (fun v hv => Function.update_of_ne hv _ _) rfl rfl

theorem Buries.drifts (hb : Buries t s s') (hn : s.fdWaiters.Nodup)
    (hw : ∀ w, (s.task t).fdWaiter = some w → (s.fdw w).state ≠ .active) : Drifts s s' := by
  obtain ⟨hm, -, -, -⟩ := hb
  obtain ⟨h1, h2, h3⟩ := HandleShifts.fd_eq hm
  refine .head (.same h1) (drifts_reap (h1.list ▸ hn) fun w hfd => ?_)
  rw [h2]
  exact hw w (h3 t ▸ hfd)

theorem Buries.fdSame (hb : Buries t s s') (hw : (s.task t).fdWaiter = none) : FdSame s s' := by
  obtain ⟨hm, -, -, -⟩ := hb
  obtain ⟨h1, -, h3⟩ := HandleShifts.fd_eq hm
  refine h1.trans ?_
  rw [Rt.reap, h3 t, hw]
  exact .of_eq rfl rfl rfl rfl rfl

/-- The waiter of a task that does not wait is not active. -/
theorem Rt.Inv.fdWaiter_inactive (h : s.Inv) (ht : t ∈ s.allTasks)
    (hs : (s.task t).state ≠ .waitingFd) {w : FdWaiterId} (hw : (s.task t).fdWaiter = some w) :
    (s.fdw w).state ≠ .active := by
  obtain ⟨hmem, hown⟩ := h.fd.linked t ht w hw
  obtain ⟨-, -, -, hact⟩ := h.fd.owner w hmem
  exact fun ha => hs (hown ▸ hact.mp ha)

theorem drifts_wakeFd {w : FdWaiterId} {items : List TaskId} {rc : Rc} {ready : Nat}
    (hw : w ∈ s.fdWaiters) (ha : (s.fdw w).state = .active) :
    Drifts s ((s.unwatch w).wakeFd w items rc ready) :=
  .tail (.single (.wake w hw ha)) (.same (.of_eq rfl rfl rfl rfl rfl))

theorem Cancels.drifts (hc : Cancels t s s') (h : s.Inv) : Drifts s s' := by
  cases hc with
  | nothing => exact .refl
  | sleep | chan | select | join => exact .of_eq rfl rfl rfl rfl rfl
  | fd w items hw ha ht hp => exact drifts_wakeFd hw ha
  | destroy ht hr hb =>
      have hkill : Drifts s (s.killReady t) := .of_eq rfl rfl rfl rfl rfl
      refine hkill.trans (hb.drifts h.fd.nodup fun w hfd => ?_)
      have hfd : (s.task t).fdWaiter = some w := by simpa [Rt.killReady] using hfd
      exact h.fdWaiter_inactive ht (by simp [hr]) hfd

theorem FdShift.drifts {k : FdCause} (hm : FdShift k s s') : Drifts s s' := by
  cases hm with
  | tape => exact .of_eq rfl rfl rfl rfl rfl
  | insert g hg hmark hown => exact .single (.insert g hg hmark hown)
  | wake w items rc ready hw ha => exact drifts_wakeFd hw ha

theorem FdShifts.drifts {k : FdCause} (hm : FdShifts k s s') : Drifts s s' := by
  induction hm with
  | refl => exact .refl
  | tail _ hm ih => exact ih.trans hm.drifts

theorem Ticks.drifts {k : FdCause} (hm : Ticks k s s') : Drifts s s' := by
  induction hm with
  | refl => exact .refl
  | tail _ hm ih =>
      refine ih.trans ?_
      cases hm with
      | fd hm => exact hm.drifts
      | polling | timeout | wakeSleep => exact Drifts.of_eq rfl rfl rfl rfl rfl

theorem Releases.fdSame {x : HandleId} (hr : Releases x s s') : FdSame s s' := by
  cases hr with
  | kept | freed => exact .of_eq rfl rfl rfl rfl rfl

theorem Rt.Marked.fdSame (hm : Marked s s') : FdSame s s' := by
  rcases hm with rfl | ⟨x, st, hc, rfl⟩
  · exact .refl _
  · exact .of_eq rfl rfl rfl rfl rfl

/-! ## The sections that leave the descriptors alone -/

theorem Rt.Created.fdSame (hc : Created s s') : FdSame s s' := by
  cases hc with
  | no a hw => exact Wastes.fdSame hw
  | task | handle | chan => exact .of_eq rfl rfl rfl rfl rfl

theorem fdSame_transfer (s : Rt) (ch : ChanId) (c : CallId) (kind : SendKind) (src : Addr)
    (d : CallId) (out : Addr) : FdSame s (s.transfer ch c kind src d out) :=
  .of_eq rfl rfl rfl rfl rfl

theorem fdSame_enqueue (s : Rt) (ch : ChanId) (c : CallId) (kind : SendKind) (src : Addr) :
    FdSame s (s.enqueue ch c kind src) := .of_eq rfl rfl rfl rfl rfl

theorem fdSame_dequeue (s : Rt) (ch : ChanId) (c : CallId) (out : Addr) :
    FdSame s (s.dequeue ch c out) := .of_eq rfl rfl rfl rfl rfl

theorem fdSame_wakeChan (s : Rt) (r : WaitqRef) (t : TaskId) (rc : Rc) :
    FdSame s (s.wakeChan r t rc) := .of_eq rfl rfl rfl rfl rfl

theorem fdSame_wakeSelect (s : Rt) (t : TaskId) (items : List TaskId) (role : Role) (rc : Rc)
    (index : Nat) : FdSame s (s.wakeSelect t items role rc index) := .of_eq rfl rfl rfl rfl rfl

theorem Rt.SendNow.fdSame {c : CallId} {kind : SendKind} {ch : ChanId} {value : Addr} {rc : Rc}
    (hs : SendNow s c kind ch value rc s') : FdSame s s' := by
  cases hs with
  | closed => exact .refl _
  | plain t => exact (fdSame_transfer ..).trans (fdSame_wakeChan ..)
  | select w items => exact (fdSame_transfer ..).trans (fdSame_wakeSelect ..)
  | buffer => exact fdSame_enqueue ..

theorem Rt.Filled.fdSame {ch : ChanId} (hf : Filled s ch s') : FdSame s s' := by
  cases hf with
  | nothing => exact .refl _
  | plain t => exact (fdSame_enqueue ..).trans (fdSame_wakeChan ..)
  | select w items => exact (fdSame_enqueue ..).trans (fdSame_wakeSelect ..)

theorem Rt.RecvNow.fdSame {c : CallId} {ch : ChanId} {out : Addr} {rc : Rc}
    (hr : RecvNow s c ch out rc s') : FdSame s s' := by
  cases hr with
  | buffer a _ hf => exact (fdSame_dequeue ..).trans hf.fdSame
  | plain t => exact (fdSame_transfer ..).trans (fdSame_wakeChan ..)
  | select w items => exact (fdSame_transfer ..).trans (fdSame_wakeSelect ..)
  | closedPlain t => exact fdSame_wakeChan ..
  | closedSelect w items => exact fdSame_wakeSelect ..
  | closed => exact .refl _

theorem Rt.Closes.fdSame {ch : ChanId} {rc : Rc} (hc : Closes s ch rc s') : FdSame s s' := by
  cases hc with
  | again => exact .refl _
  | drained a _ hd =>
      have hclose : FdSame s (s.modChan ch fun k => { k with closed := true }) :=
        .of_eq rfl rfl rfl rfl rfl
      exact hclose.trans (Drains.fdSame hd)

theorem Rt.Destroys.fdSame {ch : ChanId} {rc : Rc} (hd : Destroys s ch rc s') : FdSame s s' := by
  cases hd with
  | refused => exact .refl _
  | dropped => exact .of_eq rfl rfl rfl rfl rfl
  | drained a hd =>
      have hclose : FdSame s (s.modChan ch fun k => { k with closed := true }) :=
        .of_eq rfl rfl rfl rfl rfl
      have hdrop : FdSame a (a.dropChan ch) := .of_eq rfl rfl rfl rfl rfl
      exact (hclose.trans (Drains.fdSame hd)).trans hdrop

theorem Rt.CancelCall.drifts {x : HandleId} (hc : CancelCall s x s') (h : s.Inv) :
    Drifts s s' := by
  cases hc with
  | late => exact .of_eq rfl rfl rfl rfl rfl
  | wake t a _ hcomp _ hcancel =>
      have hreport : Drifts s (s.reported x) := .of_eq rfl rfl rfl rfl rfl
      exact hreport.trans (hcancel.drifts (Shifts.inv (reported_shifts hcomp) h))

/-! ## Every step -/

namespace Sys

/-- What ends waits for descriptors in a step that closes none. -/
inductive Rouses (s : Sys) (act : Act) : Rt → Prop where
  | none {r} : (∀ w ∈ s.rt.fdWaiters, (s.rt.fdw w).state = .active →
      w ∈ r.fdWaiters ∧ r.fdw w = s.rt.fdw w) → Rouses s act r
  | cancel (a env c x) {r r'} : act = .cont a env → s.pc a.agent = .called c (.cancel x) →
      CancelCall s.rt x r → r'.task = r.task → Rouses s act r'
  | halt (n env c) {r r'} : act = .cont (.ext n) env → s.pc (.ext n) = .called c .shutdown →
      s.rt.running = true → FdShifts .halt s.rt.halt r → r'.task = r.task → Rouses s act r'
  | ticks (w env) {r} : act = .worker w env → Ticks ((s.workers w).cause env.nowNs) s.rt r →
      Rouses s act r

/-- What a step does to the descriptor part. -/
inductive Watch (s : Sys) (act : Act) : Rt → Prop where
  | drifts {r} : Drifts s.rt r → Rouses s act r → Watch s act r
  | op (a env) {r r'} : act = .cont a env → FdOp (Pc.Does a.agent (s.pc a.agent)) s.rt r →
      FdSame r r' → r'.task = r.task → Watch s act r'
  | refuse (w t env fd events inst rc) {r r'} : act = .cont (.task w t) env →
      s.workers w = .running t → (s.pc (.task t)).waitsFor = some (fd, events) →
      FdWaits s.rt t fd events inst (.ret rc) r → FdSame r r' → Watch s act r'
  | park (w t env fd events inst) {r r'} : act = .cont (.task w t) env →
      s.workers w = .running t → s.rt.tape = env.tape →
      (s.pc (.task t)).waitsFor = some (fd, events) →
      FdWaits s.rt t fd events inst .park r → FdSame r r' → Watch s act r'
  | osClose (a fd) {r} : act = .osClose a fd →
      FdSame (s.rt.kernelForgets fd) r → Watch s act r
  | reset {r} : r.fdWaiters = [] → r.fdGenerations = [] → r.interest = (fun _ => none) →
      (∃ n c, s.pc (.ext n) = .called c .shutdown ∧ s.rt.running = false ∧ s.Alone (.ext n)) →
      Watch s act r

theorem Watch.same {s : Sys} {act : Act} {r : Rt} (h : FdSame s.rt r) : s.Watch act r :=
  .drifts (.single (.same h)) (.none fun w hw _ => ⟨h.list ▸ hw, h.record w hw⟩)

end Sys

theorem Rt.Section.watch {s : Sys} {a : Actor} {env : Env} {r r' : Rt} {c : CallId}
    {o : Option (Role × Rc)} (hs : Section (Pc.Does a.agent (s.pc a.agent)) c s.rt o r)
    (hen : s.enabled a = true) (hi : s.rt.Inv) (h : FdSame r r') (htask : r'.task = r.task) :
    s.Watch (.cont a env) r' := by
  have same : FdSame s.rt r → s.Watch (.cont a env) r' := fun hsame => .same (hsame.trans h)
  cases hs with
  | idle o tape => exact same (.of_eq rfl rfl rfl rfl rfl)
  | release x rc _ hr => exact same hr.fdSame
  | fd o _ _ ho => exact .op a env rfl ho h htask
  | go rc _ _ hc => exact same hc.fdSame
  | chanCreate rc _ _ hc => exact same hc.created.fdSame
  | cancel x hd hc =>
      obtain ⟨d, hd⟩ := hd
      exact .drifts ((hc.drifts hi).tail (.same h)) (.cancel a env d x rfl hd hc htask)
  | send kind ch value rc _ _ hsend => exact same hsend.fdSame
  | sendNot => exact same (.refl _)
  | recv ch out rc _ _ hrecv => exact same hrecv.fdSame
  | recvNot => exact same (.refl _)
  | close ch rc _ _ hc => exact same hc.fdSame
  | destroy ch rc _ _ hd => exact same hd.fdSame
  | unselect t rc _ _ hf => exact same (Registers.fdSame hf.registers)
  | unwait t rc x hd _ _ _ hw =>
      obtain ⟨fd, events, inst, rc₀, hwaits, hw⟩ := hw
      cases a with
      | ext n => cases hd
      | task w u =>
          cases hd
          exact .refuse w t env fd events inst rc₀ rfl (Sys.enabled_task.mp hen) hwaits hw h

namespace Sys

variable {s s' : Sys}

theorem fdSame_ret (r : Rt) (s : Sys) (a : Actor) (c : CallId) (role : Role) (rc : Rc) :
    FdSame r (s.ret a c role rc r).rt := .of_eq rfl rfl rfl rfl rfl

theorem Case.watch {act : Act} (hc : Case s act s') (h : s.Ok) : s.Watch act s'.rt := by
  have same : ∀ {r : Rt}, FdSame s.rt r → s.Watch act r := fun h => .same h
  cases hc with
  | calls a call hen hpc =>
      cases a with
      | ext n => exact same (.of_eq rfl rfl rfl rfl rfl)
      | task w u => exact same (.of_eq rfl rfl rfl rfl rfl)
  | acts a env c o p es os sel hen hc hp hr _ hs hon =>
      exact hs.watch hen h.rest.inv (.of_eq rfl rfl rfl rfl rfl) rfl
  | resumesFd w u env c v use o p es hw hpc ho hon =>
      have hr := (h.runs u).mpr ⟨w, hw⟩
      have hfd := ((h.fits u hr.1).fdWaiter v).mpr ⟨c, use, hpc⟩
      have hv := h.rest.inv.fdWaiter_inactive hr.1 (by simp [hr.2]) hfd
      refine .drifts (drifts_unlink h.rest.inv.fd.nodup hv rfl rfl
        (fun x hx => Function.update_of_ne hx _ _) rfl rfl) (.none fun x hx ha => ?_)
      have hne : x ≠ v := fun heq => hv (heq ▸ ha)
      exact ⟨(List.mem_erase_of_ne hne).mpr hx, Function.update_of_ne hne _ _⟩
  | parks w u env c p hw hl hcall hnp hp hm htape =>
      have hleave : ∀ r : Rt, FdSame r r.leave := fun r => .of_eq rfl rfl rfl rfl rfl
      have hthin := (hleave _).trans hm.fdSame
      cases hp with
      | send ch value =>
          have hpark : FdSame s.rt (s.rt.parkChan u ch .send value) := .of_eq rfl rfl rfl rfl rfl
          exact same (hpark.trans hthin)
      | recv ch out =>
          have hpark : FdSame s.rt (s.rt.parkChan u ch .recv out) := .of_eq rfl rfl rfl rfl rfl
          exact same (hpark.trans hthin)
      | join x =>
          have hpark : FdSame s.rt (s.rt.parkJoin u x) := .of_eq rfl rfl rfl rfl rfl
          exact same (hpark.trans hthin)
      | sleep tape timers wakeNs =>
          have hpark : FdSame s.rt ({ s.rt with tape := tape }.parkSleep u timers wakeNs) :=
            .of_eq rfl rfl rfl rfl rfl
          exact same (hpark.trans hthin)
      | yield =>
          have hpark : FdSame s.rt (s.rt.parkYield u) := .of_eq rfl rfl rfl rfl rfl
          exact same (hpark.trans hthin)
      | select cases plan _ hch hp =>
          have hreg := fun tape => Registers.fdSame
            (enrolled_registers (h.rest.noWaiters u ((h.runs u).mpr ⟨w, hw⟩)) hch plan tape)
          cases hp with
          | untimed tape =>
              have hpark : FdSame (s.rt.enrolled u cases plan tape)
                  ((s.rt.enrolled u cases plan tape).parkSelect u) := .of_eq rfl rfl rfl rfl rfl
              exact same (((hreg tape).trans hpark).trans hthin)
          | timed tape timers wakeNs i =>
              have hpark : FdSame (s.rt.enrolled u cases plan tape)
                  ((s.rt.enrolled u cases plan tape).parkSelectTimed u timers wakeNs i) :=
                .of_eq rfl rfl rfl rfl rfl
              exact same (((hreg tape).trans hpark).trans hthin)
      | fd timers wakeNs x use _ hq _ _ hw' =>
          obtain ⟨fd, events, inst, hwaits, hw'⟩ := hw'
          exact .park w u env fd events inst rfl hw htape hwaits hw' hthin
  | finishes w u hw hl hpc hb =>
      have hr := (h.runs u).mpr ⟨w, hw⟩
      have hnone := h.fdWaiter_eq_none hr (by simp [hpc, Pc.parked])
      have hdie : FdSame s.rt (s.rt.leave.die u) := .of_eq rfl rfl rfl rfl rfl
      refine same (hdie.trans (hb.fdSame ?_))
      have : ((s.rt.leave.die u).task u).fdWaiter = (s.rt.task u).fdWaiter := by
        simp [Rt.die, Rt.leave]
      rw [this, hnone]
  | descriptors os interest filters _ hos =>
      rcases hos with ⟨a, fd, flags, rfl, _, rfl, rfl, rfl⟩ | ⟨a, fd, rfl, rfl, rfl, rfl⟩
      · exact same (.of_eq rfl rfl rfl rfl rfl)
      · exact .osClose a fd rfl (.refl _)
  | halts n env c hpc hr hm =>
      have hhalt : Drifts s.rt s.rt.halt := .of_eq rfl rfl rfl rfl rfl
      exact .drifts ((hhalt.trans (FdShifts.drifts hm)).tail (.same (fdSame_ret _ s _ _ _ _)))
        (.halt n env c rfl hpc hr hm rfl)
  | shutsDown n env c hpc hinit hr halone hd =>
      exact .reset hd.off.fdWaiters hd.fdGenerations hd.interest ⟨n, c, hpc, hr, halone⟩
  | loops w q lock hact hl hm hcol =>
      rcases hact with ⟨env, rfl⟩ | hact
      · exact .drifts (Ticks.drifts hm) (.ticks w env rfl hm)
      · obtain rfl := hcol hact
        exact same (.refl _)
  | dispatches w env u q hw hl hq hm =>
      have hpop : FdSame s.rt (s.rt.dispatch u q) := .of_eq rfl rfl rfl rfl rfl
      exact same (hpop.trans hm.fdSame)
  | _ => exact same (.of_eq rfl rfl rfl rfl rfl)

/-- What depends on the descriptor part only, holds of an empty one and survives every
step holds in every reachable state. -/
theorem watch_invariant {C : Sys → Act → Prop} {I : Rt → Prop}
    (hsame : ∀ r r', FdSame r r' → I r → I r')
    (hreset : ∀ r : Rt, r.fdWaiters = [] → r.fdGenerations = [] → r.interest = (fun _ => none) → I r)
    (hcond : ∀ s s₀ a, s.Ok → s.Prepared s₀ → C s a → C s₀ a)
    (hstep : ∀ s a r, s.Ok → C s a → I s.rt → s.Watch a r → I r)
    (h : machine.Reach (Under C) s) : I s.rt := by
  refine invariant_of_cases (I := fun s => I s.rt) (fun kind => hreset _ rfl rfl rfl)
    (fun s s₀ hok hp hi => ?_) hcond (fun s a s' hok hi hc hcase => hstep s a _ hok hc hi
      (hcase.watch hok)) h
  rcases hp.cases hok with ⟨tape, rfl⟩ | ⟨-, -, rt, hb, rfl⟩
  · exact hsame s.rt _ (.of_eq rfl rfl rfl rfl rfl) hi
  · exact hreset _ hb.off.fdWaiters hb.fdGenerations hb.interest

end Sys

end Microthread
