import Microthread.Properties.Delivery

/-!
# Senders are served in turn

The calls of `mt_chan_send` and `mt_chan_try_send` whose values have been copied on a
channel, followed by those of the senders parked on it, form a line. A receive serves the
first of the parked ones, an immediate send finds nobody parked, and a sender that parks
goes to the end. With one worker a call is made only when the one before it has returned or
parked, so the line is in the order of the calls.
-/

namespace Microthread

open Foundation

/-- The call of `mt_chan_send` or `mt_chan_try_send` whose value was copied on the channel. -/
def Event.direct? (ch : ChanId) : Event → Option CallId
  | .push x c kind .. | .handoff x c kind .. => if x = ch ∧ kind ≠ .select then some c else none
  | _ => none

theorem Event.sender?_of_direct {ch : ChanId} {e : Event} {c : CallId} (h : e.direct? ch = some c) :
    e.sender? ch = some c := by
  unfold Event.direct? at h
  split at h
  · split at h
    · next hx => exact (if_pos hx.1).trans h
    · cases h
  · split at h
    · next hx => exact (if_pos hx.1).trans h
    · cases h
  · cases h

namespace Rt

variable {s s' a : Rt} {ch x : ChanId} {t : TaskId} {c : CallId} {es : List CallId}
variable {f : TaskId → CallId}

/-- The direct sends that have been served, in order. -/
def served (s : Rt) (ch : ChanId) : List CallId := s.log.filterMap (Event.direct? ch)

/-- The direct sends that have been served and those that wait. -/
def line (f : TaskId → CallId) (s : Rt) (ch : ChanId) : List CallId :=
  s.served ch ++ (s.waitq (.senders ch)).items.map f

theorem sublist_of_eq {l l' : List CallId} (h : l = l') : l.Sublist l' := h ▸ .refl l

theorem served_append {es : List Event} (h : s'.log = s.log ++ es) :
    s'.served ch = s.served ch ++ es.filterMap (Event.direct? ch) := by
  rw [served, h, List.filterMap_append, served]

theorem direct?_eq_none {e : Event} (h : ¬e.IsTransfer) : e.direct? ch = none := by
  cases e with
  | push => exact absurd trivial h
  | handoff => exact absurd trivial h
  | _ => rfl

/-- Entries that record no copy serve nobody. -/
theorem served_eq {l : List Event} (h : s'.log = s.log ++ l) (hes : ∀ e ∈ l, ¬e.IsTransfer) :
    s'.served ch = s.served ch := by
  rw [served_append h, List.filterMap_eq_nil_iff.mpr fun e he => direct?_eq_none (hes e he),
    List.append_nil]

/-- Senders have left the queue. -/
theorem line_thin (hserved : s'.served ch = s.served ch)
    (hitems : (s'.waitq (.senders ch)).items.Sublist (s.waitq (.senders ch)).items) :
    (s'.line f ch).Sublist (s.line f ch) := by
  rw [line, line, hserved]
  exact (List.Sublist.refl _).append (hitems.map f)

theorem Thins.line (h : Thins s s') : (s'.line f ch).Sublist (s.line f ch) := by
  obtain ⟨es, hlog, hes⟩ := h.log
  exact line_thin (served_eq hlog hes) (h.waitq _ (by simp [WaitqRef.chan?]))

theorem Murmurs.line (h : s.Murmurs s') (hs : Shrinks s s') :
    (s'.line f ch).Sublist (s.line f ch) := by
  obtain ⟨es, hlog, hidle⟩ := h
  exact line_thin (served_eq hlog fun e he => (hidle e he).1) (hs.1 _)

/-- A send that does not wait is served while nobody waits. -/
theorem line_serve (hserved : s'.served ch = s.served ch ++ es)
    (hitems : (s'.waitq (.senders ch)).items = (s.waitq (.senders ch)).items)
    (hes : es ≠ [] → (s.waitq (.senders ch)).items = []) : s'.line f ch = s.line f ch ++ es := by
  rw [line, line, hserved, hitems]
  cases es with
  | nil => rw [List.append_nil, List.append_nil]
  | cons c es =>
      rw [hes (List.cons_ne_nil c es)]
      simp

/-- The first of the waiting senders is served. -/
theorem line_first (hhead : (s.waitq (.senders ch)).items.head? = some t)
    (hserved : s'.served ch = s.served ch ++ [f t])
    (hitems : (s'.waitq (.senders ch)).items = (s.waitq (.senders ch)).items.erase t) :
    s'.line f ch = s.line f ch := by
  rw [line, line, hserved, hitems]
  cases hl : (s.waitq (.senders ch)).items with
  | nil =>
      rw [hl] at hhead
      cases hhead
  | cons u us =>
      rw [hl, List.head?_cons, Option.some.injEq] at hhead
      subst hhead
      simp

/-- The calls of direct sends among those that the copy serves. -/
def direct (ch x : ChanId) (kind : SendKind) (c : CallId) : List CallId :=
  if x = ch ∧ kind ≠ .select then [c] else []

theorem transfer_served (s : Rt) (x : ChanId) (kind : SendKind) (src : Addr) (d : CallId)
    (out : Addr) :
    (s.transfer x c kind src d out).served ch = s.served ch ++ direct ch x kind c := by
  rw [served_append (rfl : _ = s.log ++ [_])]
  unfold direct
  split <;> rename_i h <;> simp [Event.direct?, h]

theorem enqueue_served (s : Rt) (x : ChanId) (kind : SendKind) (src : Addr) :
    (s.enqueue x c kind src).served ch = s.served ch ++ direct ch x kind c := by
  rw [served_append (rfl : _ = s.log ++ [_])]
  unfold direct
  split <;> rename_i h <;> simp [Event.direct?, h]

theorem dequeue_served (s : Rt) (x : ChanId) (out : Addr) :
    (s.dequeue x c out).served ch = s.served ch := by
  refine (served_append (rfl : _ = s.log ++ [_])).trans ?_
  simp [Event.direct?]

theorem wakeChan_served (s : Rt) (r : WaitqRef) (t : TaskId) (rc : Rc) :
    (s.wakeChan r t rc).served ch = s.served ch :=
  served_eq (l := [_]) rfl (by simp [Event.IsTransfer])

theorem wakeSelect_served (s : Rt) (t : TaskId) (items : List TaskId) (role : Role) (rc : Rc)
    (index : Nat) : (s.wakeSelect t items role rc index).served ch = s.served ch :=
  served_eq (l := [_]) rfl (by simp [Event.IsTransfer])

theorem SendNow.line {kind : SendKind} {value : Addr} {rc : Rc}
    (hs : SendNow s c kind x value rc s') (hm : s.Meets x) :
    (s'.line f ch).Sublist (s.line f ch ++ direct ch x kind c) := by
  have nobody : (s.waitq (.senders x)).items = [] → direct ch x kind c ≠ [] →
      (s.waitq (.senders ch)).items = [] := fun hnil hne => by
    unfold direct at hne
    split at hne
    · next h => exact h.1 ▸ hnil
    · exact absurd rfl hne
  cases hs with
  | closed => exact List.sublist_append_left ..
  | plain t _ ht =>
      have hne := List.ne_nil_of_mem (List.mem_of_head? ht)
      refine sublist_of_eq (line_serve ?_ ?_ (nobody (hm.plainReceivers hne).1))
      · rw [wakeChan_served, transfer_served]
      · simp [wakeChan, transfer, Rt.record, Rt.writeMem]
  | select w items _ _ hw =>
      have hne := List.ne_nil_of_mem (List.mem_of_head? hw)
      have hnil : (s.waitq (.senders x)).items = [] := by
        by_contra hwait
        exact hne (hm.plainSenders hwait).2
      refine sublist_of_eq (line_serve ?_ rfl (nobody hnil))
      rw [wakeSelect_served, transfer_served]
  | buffer _ _ _ hroom =>
      have hnil : (s.waitq (.senders x)).items = [] := by
        by_contra hwait
        exact absurd (hm.sending (.inl hwait)).2 (Nat.not_le_of_lt hroom)
      exact sublist_of_eq (line_serve (s.enqueue_served x kind value) rfl (nobody hnil))

/-- The first of the waiting senders is woken. -/
theorem wakeChan_line {b : Rt} (hhead : (s.waitq (.senders x)).items.head? = some t)
    (hserved : b.served ch = s.served ch ++ direct ch x .plain (s.task t).call)
    (hwaitq : b.waitq = s.waitq) (rc : Rc) :
    ((b.wakeChan (.senders x) t rc).line (fun u => (s.task u).call) ch).Sublist
      (s.line (fun u => (s.task u).call) ch) := by
  have hmem := List.mem_of_head? hhead
  by_cases hx : x = ch
  · subst hx
    rw [line_first hhead]
    · rw [wakeChan_served, hserved]
      simp [direct]
    · simp [wakeChan, hwaitq, Queue.remove_of_mem hmem]
  · refine line_thin ?_ ?_
    · rw [wakeChan_served, hserved]
      simp [direct, hx]
    · have hne : WaitqRef.senders ch ≠ .senders x := fun h => hx (WaitqRef.senders.inj h).symm
      simp [wakeChan, hwaitq, hne]

theorem Filled.line {out : Addr} (hf : Filled (s.dequeue x c out) x s') :
    (s'.line (fun u => (s.task u).call) ch).Sublist (s.line (fun u => (s.task u).call) ch) := by
  have hserved : (s.dequeue x c out).served ch = s.served ch := s.dequeue_served x out
  have hwaitq : (s.dequeue x c out).waitq = s.waitq := rfl
  have htask : (s.dequeue x c out).task = s.task := rfl
  generalize s.dequeue x c out = b at hf hserved hwaitq htask
  cases hf with
  | nothing => exact line_thin hserved (by rw [hwaitq])
  | plain t _ _ ht =>
      rw [hwaitq] at ht
      have hwaitq' : (b.enqueue x (b.task t).call .plain (b.chanValueOf t)).waitq = s.waitq := hwaitq
      refine wakeChan_line ht ?_ hwaitq' .ok
      rw [enqueue_served, hserved, htask]
  | select w items =>
      refine line_thin ?_ (by rw [← hwaitq]; exact .refl _)
      rw [wakeSelect_served, enqueue_served, hserved]
      simp [direct]

theorem RecvNow.line {out : Addr} {rc : Rc} (hr : RecvNow s c x out rc s') :
    (s'.line (fun u => (s.task u).call) ch).Sublist (s.line (fun u => (s.task u).call) ch) := by
  cases hr with
  | buffer a _ hf => exact hf.line
  | plain t _ _ ht => exact wakeChan_line ht (transfer_served ..) rfl .ok
  | select w items =>
      refine line_thin ?_ (.refl _)
      rw [wakeSelect_served, transfer_served]
      simp [direct]
  | closedPlain t => exact (s.thins_wakeChan (.senders x) t .closed).line
  | closedSelect w items =>
      exact (s.thins_wakeSelect (s.selw w).task items (s.selw w).role .closed (s.selw w).index).line
  | closed => exact .refl _

/-- The line of a channel. -/
def turns (s : Rt) (ch : ChanId) : List CallId := s.line (fun u => (s.task u).call) ch

end Rt

open Rt

variable {s s' : Rt} {t : TaskId} {ch : ChanId}

theorem Rt.Created.line {f : TaskId → CallId} (hc : Created s s') :
    (s'.line f ch).Sublist (s.line f ch) := by
  cases hc with
  | no a hs =>
      have hshifts := Wastes.shifts hs
      exact (Shifts.murmurs hshifts).line (Moves.shrinks (Shifts.moves hshifts))
  | task tape => exact .refl _
  | handle tape => exact .refl _
  | chan tape elemSize capacity => exact .refl _

variable (ch) in
/-- A section serves the senders at the head of the line, and its own call if it sends. -/
theorem Rt.Section.line {does : Op → Prop} {c : CallId} {o : Option (Role × Rc)}
    (hs : Section does c s o s') (h : s.Inv) (hm : ∀ x, s.Meets x) :
    ∃ es, (s'.line (fun u => (s.task u).call) ch).Sublist (s.line (fun u => (s.task u).call) ch ++ es) ∧
      (es = [] ∨ es = [c] ∧ ∃ kind value, kind ≠ .select ∧ does (.send kind ch value)) := by
  have none : ∀ {r : Rt}, (r.line (fun u => (s.task u).call) ch).Sublist
      (s.line (fun u => (s.task u).call) ch) →
      ∃ es, (r.line (fun u => (s.task u).call) ch).Sublist
        (s.line (fun u => (s.task u).call) ch ++ es) ∧
        (es = [] ∨ es = [c] ∧ ∃ kind value, kind ≠ .select ∧ does (.send kind ch value)) :=
    fun hsub => ⟨[], by rwa [List.append_nil], .inl rfl⟩
  have moves : ∀ {r : Rt}, Moves s r → s.Murmurs r → (r.line (fun u => (s.task u).call) ch).Sublist
      (s.line (fun u => (s.task u).call) ch) := fun hm hmur => hmur.line (Moves.shrinks hm)
  cases hs with
  | idle o tape => exact none (.refl _)
  | release x rc _ hr => exact none hr.shift.thins.line
  | fd o _ _ ho => exact none (Shifts.thins (ho.shifts h)).line
  | go rc _ _ hc => exact none hc.line
  | chanCreate rc _ _ hc => exact none hc.created.line
  | cancel x _ hc => exact none hc.thins.line
  | send kind x value rc hd _ hsend =>
      refine ⟨_, hsend.line (hm x), ?_⟩
      by_cases hx : x = ch ∧ kind ≠ .select
      · obtain ⟨rfl, hkind⟩ := hx
        exact .inr ⟨if_pos ⟨rfl, hkind⟩, kind, value, hkind, hd⟩
      · exact .inl (if_neg hx)
  | sendNot => exact none (.refl _)
  | recv x out rc _ _ hrecv => exact none hrecv.line
  | recvNot => exact none (.refl _)
  | close x rc _ _ hc => exact none (moves hc.moves hc.murmurs)
  | destroy x rc _ hl hd => exact none (moves (hd.moves hl.1) hd.murmurs)
  | unselect t rc _ _ hf => exact none (hf.thins h).line
  | unwait t rc x _ _ _ hq =>
      obtain ⟨gens, polling, interest, filters, tape, rfl⟩ := hq
      exact none (.refl _)

variable (ch) in
/-- A sender that parks goes to the end of the line. -/
theorem Parks.line {c : CallId} {q p : Pc} (hp : Parks t c q s p s') (hcall : (s.task t).call = c)
    (hws : (s.task t).selectWaiters = []) :
    ∃ es, (s'.line (fun u => (s.task u).call) ch).Sublist (s.line (fun u => (s.task u).call) ch ++ es) ∧
      (es = [] ∨ es = [c] ∧ ∃ value, q = .called c (.chanSend (some ch) (some value))) := by
  have same : s'.log = s.log → s'.waitq (.senders ch) = s.waitq (.senders ch) →
      ∃ es, (s'.line (fun u => (s.task u).call) ch).Sublist
        (s.line (fun u => (s.task u).call) ch ++ es) ∧
        (es = [] ∨ es = [c] ∧ ∃ value, q = .called c (.chanSend (some ch) (some value))) :=
    fun hlog hwaitq => ⟨[], by rw [Rt.line, served, hlog, hwaitq, List.append_nil]; exact .refl _,
      .inl rfl⟩
  have hlog := hp.log_eq hws
  cases hp with
  | send x value hq =>
      by_cases hx : ch = x
      · subst hx
        refine ⟨[c], ?_, .inr ⟨rfl, value, hq⟩⟩
        rw [Rt.line, served, hlog, ← hcall]
        simp [Rt.line, served, Rt.parkChan, chanQueue]
      · exact same hlog (by simp [Rt.parkChan, chanQueue, hx])
  | recv x out => exact same hlog (by simp [Rt.parkChan, chanQueue])
  | select cases plan _ hch hp =>
      refine same hlog ?_
      have key := fun tape => (Registers.frame (enrolled_registers hws hch plan tape)).2.1
      cases hp with
      | untimed tape => exact congrFun (key tape) _
      | timed tape => exact congrFun (key tape) _
  | join x => exact same hlog (by simp [Rt.parkJoin])
  | sleep => exact same hlog rfl
  | yield => exact same hlog rfl
  | fd timers wakeNs x use _ hq =>
      obtain ⟨gens, polling, interest, filters, tape, rfl⟩ := hq
      exact same hlog rfl

namespace Sys

variable {s s' : Sys} {act : Act} {g : Agent} {c : CallId}

/-- A task keeps its call while it waits on a channel. -/
theorem Case.call_eq (hc : Case s act s') (hok : s.Ok) (ht : t ∈ s'.rt.allTasks)
    (hw : (s'.rt.task t).state = .waitingChan) : (s'.rt.task t).call = (s.rt.task t).call := by
  rcases hc.recorded hok ht with ⟨-, hstep⟩ | ⟨-, id, x, hnew⟩
  · generalize s'.rt.task t = k at hstep hw ⊢
    cases hstep with
    | same => rfl
    | woken o hwake => exact hwake.call
    | runs => rfl
    | calls d _ hrun =>
        rw [hrun] at hw
        cases hw
    | selects => rfl
    | waits => rfl
    | collects => rfl
    | leaves _ _ hleaves => exact hleaves.call_eq
  · rw [hnew] at hw
    cases hw

theorem turns_of_line {r : Rt} (hi : r.Inv) {f : TaskId → CallId}
    (hcall : ∀ t ∈ r.allTasks, (r.task t).state = .waitingChan → (r.task t).call = f t) :
    r.turns ch = r.line f ch := by
  refine congrArg (r.served ch ++ ·) (List.map_congr_left fun t ht => ?_)
  obtain ⟨hmem, hslot⟩ := hi.mem_waitq ht
  exact hcall t hmem (Task.chanRef_of_slot hslot (by simp [WaitqRef.chan?])).1

variable (ch) in
/-- By one step the line loses senders or gains at its end the call that is made. -/
theorem Case.turns (hc : Case s act s') (hok : s.Ok) (hm : ∀ x, s.rt.Meets x) :
    ∃ es, (s'.rt.turns ch).Sublist (s.rt.turns ch ++ es) ∧ (es = [] ∨ ∃ a c call,
      es = [c] ∧ s.enabled a = true ∧ s.pc a.agent = .called c call) := by
  have hline : s'.rt.turns ch = s'.rt.line (fun u => (s.rt.task u).call) ch :=
    turns_of_line (hc.ok hok).rest.inv fun t ht hw => hc.call_eq hok ht hw
  rw [hline]
  cases hc.busy with
  | still hthin => exact ⟨[], by rw [List.append_nil]; exact hthin.line, .inl rfl⟩
  | acts a env d o hact hen hcall hnp hs hthin =>
      obtain ⟨es, hsub, hes⟩ := hs.line ch hok.rest.inv hm
      refine ⟨es, hthin.line.trans hsub, hes.imp_right fun hsent => ?_⟩
      obtain ⟨heq, kind, value, hkind, hd⟩ := hsent
      cases kind with
      | plain =>
          obtain ⟨e, hpc⟩ := hd
          rw [hpc, Pc.call?, Option.some.injEq] at hcall
          exact ⟨a, e, _, hcall ▸ heq, hen, hpc⟩
      | nonblocking =>
          obtain ⟨e, hpc⟩ := hd
          rw [hpc, Pc.call?, Option.some.injEq] at hcall
          exact ⟨a, e, _, hcall ▸ heq, hen, hpc⟩
      | select => exact absurd rfl hkind
  | parks w t env d p hact hw hcall hnp hp hthin _ =>
      have hrun := (hok.runs t).mpr ⟨w, hw⟩
      obtain ⟨es, hsub, hes⟩ := hp.line ch ((hok.fits t hrun.1).call d hcall)
        (hok.rest.noWaiters t hrun)
      refine ⟨es, hthin.line.trans hsub, hes.imp_right fun hparked => ?_⟩
      obtain ⟨heq, value, hpc⟩ := hparked
      exact ⟨.task w t, d, _, heq, by simpa [Sys.enabled] using hw, hpc⟩
  | shutdown hd hthin =>
      refine ⟨[], hthin.line.trans ?_, .inl rfl⟩
      rw [List.append_nil]
      refine line_thin (served_eq (l := []) (by rw [hd.log, List.append_nil]) (by simp)) ?_
      rw [hd.off.waitq]
      exact List.nil_sublist _

/-! ## One worker -/

/-- Who stands at the entry of a function has just been put there, or stood there before. -/
theorem Case.called {call : Api} (hc : Case s act s') (h : s'.pc g = .called c call) :
    (c = s.nextCall ∧ s'.nextCall = s.nextCall + 1) ∨
      (s.pc g = .called c call ∧ (s'.nextCall = s.nextCall ∨ ∃ a call', act = .api a call')) := by
  -- the agent `k` has moved to `p`
  have moves : ∀ {k : Agent} {p : Pc}, s'.pc = Function.update s.pc k p → p ≠ .called c call →
      s'.nextCall = s.nextCall → (c = s.nextCall ∧ s'.nextCall = s.nextCall + 1) ∨
        (s.pc g = .called c call ∧ (s'.nextCall = s.nextCall ∨ ∃ a call', act = .api a call')) :=
    fun {k p} hpc hp hnext => by
      by_cases hg : g = k
      · rw [hpc, hg, Function.update_self] at h
        exact absurd h hp
      · rw [hpc, Function.update_of_ne hg] at h
        exact .inr ⟨h, .inl hnext⟩
  have onward : ∀ {d : CallId} {q p : Pc} {r : Rt} {o : Option (Role × Rc)} {es : List Event},
      Onward d q r o p es → p ≠ .called c call := fun hon hp => by
    subst hp
    cases hon with
    | on _ _ _ _ _ hfol => exact hfol
  cases hc with
  | calls a call' hen hpc =>
      by_cases hg : g = a.agent
      · have hself : (s.enter a call').pc a.agent = .called s.nextCall call' :=
          Function.update_self ..
        rw [hg, hself, Pc.called.injEq] at h
        exact .inl ⟨h.1.symm, rfl⟩
      · have hother : (s.enter a call').pc g = s.pc g := Function.update_of_ne hg ..
        exact .inr ⟨hother ▸ h, .inr ⟨a, call', rfl⟩⟩
  | acts a env d o p es os sel hen hcall hnp hr _ hs hon => exact moves rfl (onward hon) rfl
  | resumesFd w t env d v use o p es hw hpc ho hon => exact moves rfl (onward hon) rfl
  | parks w t env d p hw hl hcall hnp hp hm =>
      refine moves (k := .task t) (p := p) rfl ?_ rfl
      cases hp <;> simp
  | dispatches w env t q hw hl hq hm =>
      by_cases hg : g = .task t
      · subst hg
        have hself : (if s.pc (.task t) = .fresh then Pc.user else s.pc (.task t)) = .called c call :=
          (Function.update_self ..).symm.trans h
        split at hself
        · cases hself
        · exact .inr ⟨hself, .inl rfl⟩
      · exact .inr ⟨(Function.update_of_ne hg _ _).symm.trans h, .inl rfl⟩
  | returns w t | goesOn w t | finishes w t => exact moves (k := .task t) rfl (by simp) rfl
  | runBegins n | runPrepares n | runFails n | spawns n | launches n | aborts n | runEnds n
  | abortEnds n | halts n | shutsDown n => exact moves (k := .ext n) rfl (by simp) rfl
  | _ => exact .inr ⟨h, .inl rfl⟩

theorem Case.nextCall_le (hc : Case s act s') : s.nextCall ≤ s'.nextCall := by
  cases hc with
  | calls a call => exact Nat.le_succ _
  | _ => exact le_rfl

/-- A registered task at the entry of a function runs. -/
theorem Ok.enabled_of_called {call : Api} (hok : s.Ok) (ht : t ∈ s.rt.allTasks)
    (hpc : s.pc (.task t) = .called c call) : ∃ w, s.enabled (.task w t) = true := by
  have hfits := hok.fits t ht
  rw [hpc] at hfits
  have hrun : (s.rt.task t).state = .running := by
    cases hs : (s.rt.task t).state with
    | running => rfl
    | ready => exact absurd (hfits.ready hs) (by simp [Pc.parked])
    | sleeping => cases hfits.sleeping hs
    | waitingChan => cases hfits.chan hs
    | waitingSelect => obtain ⟨_, _, h⟩ := hfits.select hs; cases h
    | waitingJoin => obtain ⟨_, h, -⟩ := hfits.join hs; cases h
    | waitingFd => obtain ⟨_, _, h⟩ := hfits.fd hs; cases h
    | dead => exact absurd ⟨ht, hs⟩ (hok.rest.noDead t)
  obtain ⟨w, hw⟩ := (hok.runs t).mp ⟨ht, hrun⟩
  exact ⟨w, by simpa [Sys.enabled] using hw⟩

/-- The call at whose entry somebody stands is the last one that has been made. -/
def Prompt (s : Sys) : Prop :=
  ∀ a c call, s.enabled a = true → s.pc a.agent = .called c call → s.nextCall = c + 1

theorem Prepared.nextCall_eq {s₀ : Sys} (hp : s.Prepared s₀) : s₀.nextCall = s.nextCall := by
  obtain ⟨tape, rfl | rfl⟩ := hp <;> rfl

theorem prompt_of_reach (h : machine.Reach (Under Solo) s) : s.Prompt := by
  refine h.invariant (fun s hs => ?_) fun s act s' hr ih hact hstep a c call hen hpc => ?_
  · obtain ⟨kind, rfl⟩ := hs
    intro a c call _ hpc
    cases a <;> cases hpc
  · have hok := ok_of_under hr
    have hsingle := single_of_reach (fun _ _ hc => hc) (fun _ _ _ _ _ hc => hc) hr
    obtain ⟨s₀, hp, hcase⟩ := hok.step_cases hact.1 hstep
    rcases hcase.called hpc with ⟨rfl, hnext⟩ | ⟨hpc₀, hnext⟩
    · exact hnext
    · -- whoever stood there before is the only one to act
      rw [hp.pc_eq] at hpc₀
      obtain ⟨b, hb, hagent⟩ : ∃ b : Actor, s.enabled b = true ∧ b.agent = a.agent := by
        cases a with
        | ext n => exact ⟨.ext n, rfl, rfl⟩
        | task w t =>
            have hok' := hcase.ok (hp.ok hok)
            have ht : t ∈ s'.rt.allTasks :=
              ((hok'.runs t).mpr ⟨w, by simpa [Sys.enabled] using hen⟩).1
            have ht₀ : t ∈ s₀.rt.allTasks := by
              rcases hcase.recorded (hp.ok hok) ht with ⟨hmem, -⟩ | ⟨hmade, -⟩
              · exact hmem
              · have hfresh := (hp.ok hok).fresh t hmade
                rw [hp.pc_eq] at hfresh
                cases hfresh.symm.trans hpc₀
            obtain ⟨v, hv⟩ := (hp.ok hok).enabled_of_called ht₀ (hp.pc_eq ▸ hpc₀)
            refine ⟨.task v t, ?_, rfl⟩
            rwa [Sys.enabled, ← hp.workers_eq]
      have hpcb : s.pc b.agent = .called c call := hagent ▸ hpc₀
      have hold := ih b c call hb hpcb
      have hmid : s.pc b.agent ≠ .user ∧ (s.pc b.agent).inRun = false := by
        rw [hpcb]
        exact ⟨by simp, rfl⟩
      rcases (hsingle.solitary hok hb hmid.1 hmid.2).step hmid.1 hact.2 hstep with
        ⟨env, rfl⟩ | ⟨mem, interest, filters, os, rfl⟩
      · rcases hnext with hnext | ⟨_, _, hcon⟩
        · rw [hnext, hp.nextCall_eq]
          exact hold
        · cases hcon
      · exact hold

theorem Prepared.turns {s₀ : Sys} (hp : s.Prepared s₀) (hok : s.Ok) :
    (s₀.rt.turns ch).Sublist (s.rt.turns ch) := by
  rcases hp.cases hok with ⟨tape, rfl⟩ | ⟨-, -, rt, hboot, rfl⟩
  · exact .refl _
  · change (rt.line _ ch).Sublist (s.rt.line _ ch)
    rw [hboot.task]
    refine line_thin (served_eq (l := []) (by rw [hboot.log, List.append_nil]) nofun) ?_
    rw [hboot.off.waitq]
    exact List.nil_sublist _

/-- A call whose end is due is not in the line. -/
theorem Pending.not_in_turns (h : machine.Reach Contract s) (hc : s.Pending c) :
    c ∉ s.rt.turns ch := by
  have hbooks := (booked_of_reach h).books
  have hi := (ok_of_reach (fun _ _ hc => hc) h).rest.inv
  intro hin
  rcases List.mem_append.mp hin with hin | hin
  · refine (hbooks.notEnded c hc).1 ?_
    obtain ⟨e, he, hdirect⟩ := List.mem_filterMap.mp hin
    have hsend : c ∈ s.rt.log.filterMap (Event.sender? ch) :=
      List.mem_filterMap.mpr ⟨e, he, Event.sender?_of_direct hdirect⟩
    rw [(even_of_reach h).sends ch] at hsend
    obtain ⟨e', he', hsent⟩ := List.mem_filterMap.mp hsend
    refine List.mem_filterMap.mpr ⟨e', he', ?_⟩
    rw [Event.done_of_sentOk hsent]
    rfl
  · obtain ⟨t, ht, rfl⟩ := List.mem_map.mp hin
    obtain ⟨hmem, hslot⟩ := hi.mem_waitq ht
    have hw := (Task.chanRef_of_slot hslot (by simp [WaitqRef.chan?])).1
    exact (hbooks.waiting t hmem (.inl hw)).2.1 hc

/-- The line of a channel is in the order of the calls. -/
theorem turns_of_reach (h : machine.Reach (Under Solo) s) (ch : ChanId) :
    (s.rt.turns ch).Pairwise (· < ·) ∧ ∀ c ∈ s.rt.turns ch, c < s.nextCall := by
  refine h.invariant (I := fun s => (s.rt.turns ch).Pairwise (· < ·) ∧
    ∀ c ∈ s.rt.turns ch, c < s.nextCall) (fun s hs => ?_) fun s act s' hr ih hact hstep => ?_
  · obtain ⟨kind, rfl⟩ := hs
    exact ⟨.nil, nofun⟩
  · have hok := ok_of_under hr
    obtain ⟨s₀, hp, hcase⟩ := hok.step_cases hact.1 hstep
    obtain ⟨es, hsub, hes⟩ := hcase.turns ch (hp.ok hok)
      (hp.meets hok (meets_of_reach (attentive_of_solo hr)))
    replace hsub := hsub.trans ((hp.turns hok).append (.refl es))
    have hnext : s.nextCall ≤ s'.nextCall := by
      rw [← hp.nextCall_eq]
      exact hcase.nextCall_le
    rcases hes with rfl | ⟨a, c, call, rfl, hen, hpc⟩
    · rw [List.append_nil] at hsub
      exact ⟨ih.1.sublist hsub, fun c hc => (ih.2 c (hsub.subset hc)).trans_le hnext⟩
    · rw [hp.pc_eq] at hpc
      have hprompt := prompt_of_reach hr a c call (enabled_congr hp.workers_eq hen) hpc
      have hpending : s.Pending c := ⟨a.agent, by rw [hpc]; rfl⟩
      have hnot : c ∉ s.rt.turns ch := hpending.not_in_turns (hr.mono fun _ _ hc => hc.1)
      have hbefore : ∀ d ∈ s.rt.turns ch, d < c := fun d hd => by
        have hlt := ih.2 d hd
        rw [hprompt] at hlt
        exact Nat.lt_of_le_of_ne (Nat.lt_succ_iff.mp hlt) fun heq => hnot (heq ▸ hd)
      have hsorted : (s.rt.turns ch ++ [c]).Pairwise (· < ·) := by
        refine List.pairwise_append.mpr ⟨ih.1, List.pairwise_singleton _ _, fun d hd e he => ?_⟩
        rw [List.mem_singleton.mp he]
        exact hbefore d hd
      refine ⟨hsorted.sublist hsub, fun d hd => ?_⟩
      rcases List.mem_append.mp (hsub.subset hd) with hd | hd
      · exact (ih.2 d hd).trans_le hnext
      · rw [hprompt] at hnext
        rw [List.mem_singleton.mp hd]
        exact hnext

end Sys

/-! ## First in, first out -/

/-- The send whose value the entry records, and the value. -/
def Event.brought? (ch : ChanId) : Event → Option (CallId × List Byte)
  | .push x c _ _ v | .handoff x c _ _ _ _ v => if x = ch then some (c, v) else none
  | _ => none

/-- The receive whose value the entry records, and the value. -/
def Event.taken? (ch : ChanId) : Event → Option (CallId × List Byte)
  | .pop x c _ v | .handoff x _ _ _ c _ v => if x = ch then some (c, v) else none
  | _ => none

namespace Rt

/-- The sends that have been served, with their values. -/
def brought (s : Rt) (ch : ChanId) : List (CallId × List Byte) :=
  s.log.filterMap (Event.brought? ch)

/-- The receives that have been served, with their values. -/
def taken (s : Rt) (ch : ChanId) : List (CallId × List Byte) := s.log.filterMap (Event.taken? ch)

theorem brought_fst (s : Rt) (ch : ChanId) : (s.brought ch).map Prod.fst = s.senders ch := by
  rw [brought, List.map_filterMap, senders]
  refine List.filterMap_congr fun e _ => ?_
  cases e with
  | push x => simp only [Event.brought?, Event.sender?]; split <;> rfl
  | handoff x => simp only [Event.brought?, Event.sender?]; split <;> rfl
  | _ => rfl

theorem taken_fst (s : Rt) (ch : ChanId) : (s.taken ch).map Prod.fst = s.receivers ch := by
  rw [taken, List.map_filterMap, receivers]
  refine List.filterMap_congr fun e _ => ?_
  cases e with
  | pop x => simp only [Event.taken?, Event.receiver?]; split <;> rfl
  | handoff x => simp only [Event.taken?, Event.receiver?]; split <;> rfl
  | _ => rfl

theorem brought_snd (s : Rt) (ch : ChanId) : (s.brought ch).map Prod.snd = sentBy (s.history ch) := by
  rw [brought, List.map_filterMap, sentBy, history, List.filterMap_filter]
  refine List.filterMap_congr fun e _ => ?_
  cases e with
  | push x =>
      by_cases hx : x = ch <;> simp [Event.brought?, Event.sent?, Event.chan?, hx]
  | handoff x =>
      by_cases hx : x = ch <;> simp [Event.brought?, Event.sent?, Event.chan?, hx]
  | pop => simp [Event.brought?, Event.sent?]
  | _ => rfl

theorem taken_snd (s : Rt) (ch : ChanId) :
    (s.taken ch).map Prod.snd = receivedBy (s.history ch) := by
  rw [taken, List.map_filterMap, receivedBy, history, List.filterMap_filter]
  refine List.filterMap_congr fun e _ => ?_
  cases e with
  | pop x =>
      by_cases hx : x = ch <;> simp [Event.taken?, Event.received?, Event.chan?, hx]
  | handoff x =>
      by_cases hx : x = ch <;> simp [Event.taken?, Event.received?, Event.chan?, hx]
  | push => simp [Event.taken?, Event.received?]
  | _ => rfl

/-- A channel passes values on in order and serves its direct senders in turn. -/
structure InOrder (s : Rt) (ch : ChanId) : Prop where
  values : (s.taken ch).map Prod.snd ++ (s.chan ch).toRingBuffer.contents =
    (s.brought ch).map Prod.snd
  /-- the receives that have got values are those completed with `MT_OK`, in this order -/
  receives : (s.taken ch).map Prod.fst = s.log.filterMap (Event.receivedOk? ch)
  sends : (s.brought ch).map Prod.fst = s.log.filterMap (Event.sentOk? ch)
  /-- what a call returns is how it was completed -/
  returns : ∀ c rc, Event.ret c rc ∈ s.log → ∃ role, Event.done c role rc ∈ s.log
  /-- direct sends commit in the order of the calls, and none overtakes a parked one -/
  turns : (s.served ch ++ (s.waitq (.senders ch)).items.map fun t => (s.task t).call).Pairwise (· < ·)

end Rt

namespace Sys

variable {s s' : Sys}

/-- The values of the channel that a step moves go from the addresses that the senders have
passed to those that the receivers have passed. -/
structure Supplies (s s' : Sys) (ch : ChanId) : Prop where
  brought : ∃ new, s'.rt.brought ch = s.rt.brought ch ++ new ∧ ∀ c v, (c, v) ∈ new →
    ∃ kind src, s'.Asked c (.send kind ch src) ∧
      (load s.rt.mem src (s.rt.chan ch).elemSize = v ∨ load s'.rt.mem src (s.rt.chan ch).elemSize = v)
  taken : ∃ new, s'.rt.taken ch = s.rt.taken ch ++ new ∧ ∀ c v, (c, v) ∈ new →
    ∃ out, s'.Asked c (.recv ch out) ∧ load s'.rt.mem out v.length = v

theorem Carries.supplies (h : s.Carries s') (ch : ChanId) : s.Supplies s' ch := by
  obtain ⟨es, hlog, hes⟩ := h
  constructor
  · refine ⟨es.filterMap (Event.brought? ch), by rw [brought, hlog, List.filterMap_append, brought],
      fun c v hmem => ?_⟩
    obtain ⟨e, he, hv⟩ := List.mem_filterMap.mp hmem
    obtain ⟨hasked, hheld⟩ := hes e he
    unfold Event.brought? at hv
    split at hv
    · split at hv <;> cases hv
      next hx => exact ⟨_, _, hx ▸ hasked, .inr (hx ▸ hheld)⟩
    · split at hv <;> cases hv
      next hx => exact ⟨_, _, hx ▸ hasked.1, .inl (hx ▸ hheld.1)⟩
    · cases hv
  · refine ⟨es.filterMap (Event.taken? ch), by rw [taken, hlog, List.filterMap_append, taken],
      fun c v hmem => ?_⟩
    obtain ⟨e, he, hv⟩ := List.mem_filterMap.mp hmem
    obtain ⟨hasked, hheld⟩ := hes e he
    unfold Event.taken? at hv
    split at hv
    · split at hv <;> cases hv
      next hx => exact ⟨_, hx ▸ hasked, hheld⟩
    · split at hv <;> cases hv
      next hx => exact ⟨_, hx ▸ hasked.2, hheld.2⟩
    · cases hv

/-- In a run with one worker in which no other thread calls the API, on a channel that has not
been destroyed: what the successful receives have returned, followed by the contents of the
buffer, is what the successful sends have brought, in order; and the calls of `mt_chan_send`
and `mt_chan_try_send` commit in the order in which they have been made, those that are parked
included. What a step adds to the values brought was at the addresses that the sends have
passed, and what it adds to the values taken is then at those that the receives have passed. -/
theorem channel_fifo (h : machine.Reach (Under Solo) s) (hlive : s.rt.Live (.chan ch)) :
    s.rt.InOrder ch ∧
    ∀ act s', s.Contract act → machine.step s act = some s' → s.Supplies s' ch := by
  have hreach : machine.Reach Contract s := h.mono fun _ _ hc => hc.1
  have heven := even_of_reach hreach
  refine ⟨⟨?_, ?_, ?_, (answered_of_reach hreach).returned, (turns_of_reach h ch).1⟩,
    fun act s' hact hstep => (carries_of_step hreach hact hstep).supplies ch⟩
  · rw [taken_snd, brought_snd]
    exact fifo_of_reach (attentive_of_solo h) hlive
  · rw [taken_fst]
    exact heven.receives ch
  · rw [brought_fst]
    exact heven.sends ch

theorem channel_fifo_refilled : ∃ s, machine.Reach (Under Solo) s ∧ s.rt.Live (.chan 3) ∧
    (s.rt.taken 3).map Prod.fst = [8] ∧ (s.rt.brought 3).map Prod.fst = [5, 6] ∧
    (s.rt.waitq (.senders 3)).items = [1] ∧ (s.rt.task 1).call = 7 ∧
    (s.rt.taken 3).map Prod.snd ++ (s.rt.chan 3).toRingBuffer.contents =
      (s.rt.brought 3).map Prod.snd := by
  obtain ⟨s, hs, hp⟩ := reach_of_trace_under Solo .poll (List.flatten [
      invoke (.ext 0) (.go true 0 false), invoke (.ext 0) (.go true 0 false),
      invoke (.ext 0) (.go true 0 false), invoke (.ext 0) (.chanCreate 4 1),
      invoke (.ext 0) (.run 1 true) 2, works 0 3,
      invoke (.task 0 0) (.chanSend (some 3) (some 100)),
      invoke (.task 0 0) (.chanSend (some 3) (some 104)), works 0 2,
      invoke (.task 0 1) (.chanSend (some 3) (some 108)), works 0 2,
      invoke (.task 0 2) (.chanRecv (some 3) (some 200))])
    (fun s => decide (s.rt.Live (.chan 3)) && (s.rt.taken 3).map Prod.fst == [8] &&
      (s.rt.brought 3).map Prod.fst == [5, 6] && (s.rt.waitq (.senders 3)).items == [1] &&
      (s.rt.task 1).call == 7) (by decide +kernel)
  simp only [Bool.and_eq_true, beq_iff_eq, decide_eq_true_eq] at hp
  obtain ⟨⟨⟨⟨hlive, htaken⟩, hbrought⟩, hqueue⟩, hcall⟩ := hp
  exact ⟨s, hs, hlive, htaken, hbrought, hqueue, hcall, (channel_fifo hs hlive).1.values⟩

end Sys

end Microthread
