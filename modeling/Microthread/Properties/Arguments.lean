import Microthread.Properties.Timers
import Microthread.System.Choices
import Microthread.System.Memory
import Microthread.System.Requests

/-!
# The arguments of the channel operations

A call passes the channel and the address where its value is or is to go. A task that parks
in it leaves the address in its record, and a select leaves those of its cases in its waiters;
whoever serves them reads it there. So every entry of the history names the addresses with
which the two calls were made.
-/

namespace Microthread

open Foundation Rt

/-- The call asks for the operation; a select asks for those of its cases. -/
inductive Api.Asks : Api → Op → Prop where
  | send (ch value) : Asks (.chanSend (some ch) (some value)) (.send .plain ch value)
  | trySend (ch value) : Asks (.chanTrySend (some ch) (some value)) (.send .nonblocking ch value)
  | recv (ch out) : Asks (.chanRecv (some ch) (some out)) (.recv ch out)
  | tryRecv (ch out) : Asks (.chanTryRecv (some ch) (some out)) (.recv ch out)
  | selectSend (cases ch value n) : ⟨.send, some ch, some value, n⟩ ∈ cases →
      Asks (.select cases) (.send .select ch value)
  | selectRecv (cases ch out n) : ⟨.recv, some ch, some out, n⟩ ∈ cases →
      Asks (.select cases) (.recv ch out)

/-- The call was made with these arguments. -/
def Sys.Asked (s : Sys) (c : CallId) (o : Op) : Prop :=
  ∃ g call, s.calls c = some (g, call) ∧ call.Asks o

/-- The entry names the addresses that the calls have passed. -/
def Event.Vouched (A : CallId → Op → Prop) : Event → Prop
  | .push ch c kind src _ => A c (.send kind ch src)
  | .pop ch c out _ => A c (.recv ch out)
  | .handoff ch d kind src c out _ => A d (.send kind ch src) ∧ A c (.recv ch out)
  | .done .. | .ret .. => True

theorem Event.Vouched.mono {A B : CallId → Op → Prop} {e : Event} (h : e.Vouched A)
    (hAB : ∀ c o, A c o → B c o) : e.Vouched B := by
  cases e with
  | push | pop => exact hAB _ _ h
  | handoff => exact ⟨hAB _ _ h.1, hAB _ _ h.2⟩
  | done | ret => trivial

theorem Event.vouched_of_not_transfer {A : CallId → Op → Prop} {e : Event} (h : ¬e.IsTransfer) :
    e.Vouched A := by
  cases e with
  | push | pop | handoff => exact absurd trivial h
  | done | ret => trivial

/-- The entry records that a value was stored in user memory. -/
def Event.Stores : Event → Prop
  | .pop .. | .handoff .. => True
  | _ => False

theorem Event.Stores.transfer {e : Event} (h : e.Stores) : e.IsTransfer := by
  cases e with
  | pop | handoff => trivial
  | push | done | ret => exact h.elim

/-- Nothing is stored after a copy. -/
def Orderly (es : List Event) : Prop := es.Pairwise fun e e' => e.IsTransfer → ¬e'.Stores

theorem Orderly.append {es fs : List Event} (h : Orderly es) (hfs : ∀ e ∈ fs, ¬e.Stores) :
    Orderly (es ++ fs) :=
  List.pairwise_append.mpr ⟨h, List.pairwise_of_forall_mem_list fun _ _ e he _ => hfs e he,
    fun _ _ e he _ => hfs e he⟩

/-! ## What the addresses hold -/

/-- The value of the entry was at the sender's address, and is at the receiver's. -/
def Event.Held (size : ChanId → Nat) (m m' : Addr → Byte) : Event → Prop
  | .push ch _ _ src v => load m' src (size ch) = v
  | .pop _ _ out v => load m' out v.length = v
  | .handoff ch _ _ src _ out v => load m src (size ch) = v ∧ load m' out v.length = v
  | .done .. | .ret .. => True

theorem load_store (m : Addr → Byte) (a : Addr) (v : List Byte) :
    load (store m a v) a v.length = v := by
  refine List.ext_getElem (by simp [load]) fun i h _ => ?_
  rw [load, List.length_map, List.length_range] at h
  simp [load, store, h]

section Memory

variable {size : ChanId → Nat} {m m₁ m' : Addr → Byte} {es : List Event}

theorem Copied.eq_of_not_stores (h : Copied size m es m') (hes : ∀ e ∈ es, ¬e.Stores) : m' = m := by
  induction h with
  | nil => rfl
  | push ch c kind src _ ih => exact ih fun e he => hes e (List.mem_cons_of_mem _ he)
  | pop ch c out v => exact absurd trivial (hes _ List.mem_cons_self)
  | handoff ch c kind src d out => exact absurd trivial (hes _ List.mem_cons_self)
  | other e _ _ ih => exact ih fun e he => hes e (List.mem_cons_of_mem _ he)

theorem Event.Held.of_not_stores {e : Event} (h : e.Held size m₁ m') (he : ¬e.Stores) :
    e.Held size m m' := by
  cases e with
  | handoff => exact absurd trivial he
  | push | pop | done | ret => exact h

theorem Copied.held (h : Copied size m es m') (hord : Orderly es) : ∀ e ∈ es, e.Held size m m' := by
  induction h with
  | nil => nofun
  | push ch c kind src hes ih =>
      obtain ⟨hno, hord⟩ := List.pairwise_cons.mp hord
      refine List.forall_mem_cons.mpr ⟨?_, ih hord⟩
      rw [hes.eq_of_not_stores fun e he => hno e he trivial]
      rfl
  | pop ch c out v hes ih =>
      obtain ⟨hno, hord⟩ := List.pairwise_cons.mp hord
      refine List.forall_mem_cons.mpr ⟨?_, fun e he => (ih hord e he).of_not_stores (hno e he trivial)⟩
      rw [hes.eq_of_not_stores fun e he => hno e he trivial]
      exact load_store ..
  | handoff ch c kind src d out hes ih =>
      obtain ⟨hno, hord⟩ := List.pairwise_cons.mp hord
      refine List.forall_mem_cons.mpr ⟨⟨rfl, ?_⟩,
        fun e he => (ih hord e he).of_not_stores (hno e he trivial)⟩
      rw [hes.eq_of_not_stores fun e he => hno e he trivial]
      exact load_store ..
  | other e he hes ih =>
      refine List.forall_mem_cons.mpr ⟨?_, ih (List.pairwise_cons.mp hord).2⟩
      cases e with
      | push | pop | handoff => exact absurd trivial he
      | done | ret => trivial

end Memory

/-! ## The entries of a section -/

namespace Rt

/-- What a task that is parked on channels has left for its peers. -/
inductive Offers (s : Rt) : TaskId → Op → Prop where
  | send (t ch) : t ∈ (s.waitq (.senders ch)).items →
      Offers s t (.send .plain ch (s.chanValueOf t))
  | recv (t ch) : t ∈ (s.waitq (.receivers ch)).items → Offers s t (.recv ch (s.chanValueOf t))
  | selectSend (w ch) : w ∈ (s.selectq (.senders ch)).items →
      Offers s (s.selw w).task (.send .select ch (s.selw w).value)
  | selectRecv (w ch) : w ∈ (s.selectq (.receivers ch)).items →
      Offers s (s.selw w).task (.recv ch (s.selw w).value)

theorem Offers.tape {s : Rt} {t : TaskId} {o : Op} {tape : List Bool}
    (h : ({ s with tape := tape } : Rt).Offers t o) : s.Offers t o := by
  cases h with
  | send _ ch hmem => exact .send t ch hmem
  | recv _ ch hmem => exact .recv t ch hmem
  | selectSend w ch hmem => exact .selectSend w ch hmem
  | selectRecv w ch hmem => exact .selectRecv w ch hmem

/-- The history has gained entries that name the addresses of the calls. -/
def Vouches (A : CallId → Op → Prop) (s s' : Rt) : Prop :=
  ∃ es, s'.log = s.log ++ es ∧ (∀ e ∈ es, e.Vouched A) ∧ Orderly es

variable {A : CallId → Op → Prop} {s s' a : Rt} {ch : ChanId} {c : CallId} {es : List Event}

theorem Vouches.of_eq (h : s'.log = s.log) : Vouches A s s' :=
  ⟨[], by rw [h, List.append_nil], nofun, .nil⟩

/-- Entries follow that store nothing. -/
theorem Vouches.append (h : Vouches A s a) (hlog : s'.log = a.log ++ es)
    (hes : ∀ e ∈ es, e.Vouched A ∧ ¬e.Stores) : Vouches A s s' := by
  obtain ⟨fs, hfs, hv, hord⟩ := h
  refine ⟨fs ++ es, by rw [hlog, hfs, List.append_assoc], fun e he => ?_,
    hord.append fun e he => (hes e he).2⟩
  exact (List.mem_append.mp he).elim (hv e) fun he => (hes e he).1

/-- Entries follow that record no copy. -/
theorem Vouches.quietly (h : Vouches A s a)
    (h' : ∃ es, s'.log = a.log ++ es ∧ ∀ e ∈ es, ¬e.IsTransfer) : Vouches A s s' := by
  obtain ⟨es, hes, hidle⟩ := h'
  exact h.append hes fun e he =>
    ⟨Event.vouched_of_not_transfer (hidle e he), fun hst => hidle e he hst.transfer⟩

theorem Murmurs.vouches (h : s.Murmurs s') : Vouches A s s' := by
  obtain ⟨es, hes, hidle⟩ := h
  have hnone : Vouches A s s := .of_eq rfl
  exact hnone.quietly ⟨es, hes, fun e he => (hidle e he).1⟩

theorem Thins.vouches (h : Thins s s') : Vouches A s s' := by
  have hnone : Vouches A s s := .of_eq rfl
  exact hnone.quietly h.log

theorem transfer_vouches {kind : SendKind} {src out : Addr} {d : CallId}
    (hd : A d (.send kind ch src)) (hc : A c (.recv ch out)) :
    Vouches A s (s.transfer ch d kind src c out) :=
  ⟨[_], rfl, fun e he => by rw [List.mem_singleton.mp he]; exact ⟨hd, hc⟩, List.pairwise_singleton ..⟩

theorem enqueue_vouches {kind : SendKind} {src : Addr} (hc : A c (.send kind ch src)) :
    Vouches A s (s.enqueue ch c kind src) :=
  ⟨[_], rfl, fun e he => by rw [List.mem_singleton.mp he]; exact hc, List.pairwise_singleton ..⟩

theorem dequeue_vouches {out : Addr} (hc : A c (.recv ch out)) :
    Vouches A s (s.dequeue ch c out) :=
  ⟨[_], rfl, fun e he => by rw [List.mem_singleton.mp he]; exact hc, List.pairwise_singleton ..⟩

variable (hoff : ∀ t o, s.Offers t o → A (s.task t).call o)

include hoff

theorem SendNow.vouches {kind : SendKind} {value : Addr} {rc : Rc}
    (hs : SendNow s c kind ch value rc s') (hc : A c (.send kind ch value)) : Vouches A s s' := by
  cases hs with
  | closed => exact .of_eq rfl
  | plain t _ ht =>
      have hout := hoff t _ (.recv t ch (List.mem_of_head? ht))
      exact (transfer_vouches hc hout).quietly (Thins.log (thins_wakeChan ..))
  | select w items _ _ hw =>
      have hout := hoff _ _ (.selectRecv w ch (List.mem_of_head? hw))
      exact (transfer_vouches hc hout).quietly (Thins.log (thins_wakeSelect ..))
  | buffer => exact enqueue_vouches hc

/-- The refill names the address that the parked sender has left. -/
theorem Filled.vouches {out : Addr} (hf : Filled (s.dequeue ch c out) ch s')
    (hc : A c (.recv ch out)) : Vouches A s s' := by
  have hpop : Vouches A s (s.dequeue ch c out) := dequeue_vouches hc
  have refill : ∀ {d kind src}, A d (.send kind ch src) →
      Vouches A s ((s.dequeue ch c out).enqueue ch d kind src) := fun hd =>
    hpop.append rfl fun e he => by rw [List.mem_singleton.mp he]; exact ⟨hd, id⟩
  cases hf with
  | nothing => exact hpop
  | plain t _ _ ht =>
      have hsrc := hoff t _ (.send t ch (List.mem_of_head? ht))
      exact (refill hsrc).quietly (Thins.log (thins_wakeChan ..))
  | select w items _ _ _ hw =>
      have hsrc := hoff _ _ (.selectSend w ch (List.mem_of_head? hw))
      exact (refill hsrc).quietly (Thins.log (thins_wakeSelect ..))

theorem RecvNow.vouches {out : Addr} {rc : Rc} (hr : RecvNow s c ch out rc s')
    (hc : A c (.recv ch out)) : Vouches A s s' := by
  cases hr with
  | buffer a _ hf => exact hf.vouches hoff hc
  | plain t _ _ ht =>
      have hsrc := hoff t _ (.send t ch (List.mem_of_head? ht))
      exact (transfer_vouches hsrc hc).quietly (Thins.log (thins_wakeChan ..))
  | select w items _ _ _ hw =>
      have hsrc := hoff _ _ (.selectSend w ch (List.mem_of_head? hw))
      exact (transfer_vouches hsrc hc).quietly (Thins.log (thins_wakeSelect ..))
  | closedPlain t => exact (thins_wakeChan ..).vouches
  | closedSelect w items => exact (thins_wakeSelect ..).vouches
  | closed => exact .of_eq rfl

theorem Section.vouches {does : Op → Prop} {o : Option (Role × Rc)} (hs : Section does c s o s')
    (h : s.Inv) (hsend : ∀ kind ch value, does (.send kind ch value) → A c (.send kind ch value))
    (hrecv : ∀ ch out, does (.recv ch out) → A c (.recv ch out)) : Vouches A s s' := by
  cases hs with
  | idle | sendNot | recvNot => exact .of_eq rfl
  | release x rc _ hr => exact hr.shift.murmurs.vouches
  | fd o _ _ hop => exact (Shifts.murmurs (hop.shifts h)).vouches
  | go rc _ _ hc => exact hc.murmurs.vouches
  | chanCreate rc _ _ hc => exact hc.created.murmurs.vouches
  | cancel x _ hc => exact hc.murmurs.vouches
  | send kind ch value rc hd _ hs => exact hs.vouches hoff (hsend kind ch value hd)
  | recv ch out rc hd _ hr => exact hr.vouches hoff (hrecv ch out hd)
  | close ch rc _ _ hc => exact hc.murmurs.vouches
  | destroy ch rc _ _ hd => exact hd.murmurs.vouches
  | unselect t rc _ _ hf => exact .of_eq (Registers.log_eq hf.registers)
  | unwait t rc x _ _ _ hq =>
      obtain ⟨gens, polling, interest, filters, tape, rfl⟩ := hq
      exact .of_eq rfl

end Rt

/-! ## What a call in progress has been made with -/

/-- The call that the place tells of. -/
def Pc.told : Pc → Option (CallId × Api)
  | .called c call => some (c, call)
  | .selectTry c cases _ _ | .selectReg c cases _ | .selectPark c cases _ => some (c, .select cases)
  | _ => none

theorem Onward.told {c : CallId} {q p : Pc} {r : Rt} {o : Option (Role × Rc)} {es : List Event}
    {x : CallId × Api} (hon : Onward c q r o p es) (hx : p.told = some x) : q.told = some x := by
  cases hon with
  | on _ _ hpark _ _ hfol =>
      cases p with
      | called => exact hfol.elim
      | selectTry d cases plan i =>
          cases i with
          | zero =>
              rw [(hfol.1 rfl).1]
              exact hx
          | succ j =>
              rw [(hfol.2 j rfl).1]
              exact hx
      | selectReg d cases plan =>
          obtain ⟨j, rfl, -⟩ := hfol
          exact hx
      | selectPark => cases hpark
      | _ => cases hx
  | out => cases hx

theorem Parks.told {t : TaskId} {c : CallId} {q p : Pc} {r r' : Rt} {x : CallId × Api}
    (hp : Parks t c q r p r') (hx : p.told = some x) : q.told = some x := by
  cases hp with
  | select cases plan hq =>
      rw [hq]
      exact hx
  | _ => cases hx

/-- What the place tells of is an operation of the call. -/
theorem Pc.asks_of_does {g : Agent} {p : Pc} {c : CallId} {o : Op} (hc : p.call? = some c)
    (ho : (∃ kind ch value, o = .send kind ch value) ∨ ∃ ch out, o = .recv ch out)
    (hd : Pc.Does g p o) : ∃ call, p.told = some (c, call) ∧ call.Asks o := by
  rcases ho with ⟨kind, ch, value, rfl⟩ | ⟨ch, out, rfl⟩
  · cases kind with
    | plain =>
        obtain ⟨e, rfl⟩ := hd
        cases hc
        exact ⟨_, rfl, .send ch value⟩
    | nonblocking =>
        obtain ⟨e, rfl⟩ := hd
        cases hc
        exact ⟨_, rfl, .trySend ch value⟩
    | select =>
        obtain ⟨e, cases, plan, i, n, rfl, hi⟩ := hd
        cases hc
        exact ⟨_, rfl, .selectSend cases ch value n (List.mem_of_getElem? hi)⟩
  · rcases hd with ⟨e, rfl⟩ | ⟨e, rfl⟩ | ⟨e, cases, plan, i, n, rfl, hi⟩
    · cases hc
      exact ⟨_, rfl, .recv ch out⟩
    · cases hc
      exact ⟨_, rfl, .tryRecv ch out⟩
    · cases hc
      exact ⟨_, rfl, .selectRecv cases ch out n (List.mem_of_getElem? hi)⟩

namespace Sys

variable {s s' : Sys} {act : Act} {t : TaskId} {o : Op}

/-- The places where calls are in progress tell of the calls that were made. -/
def Tells (s : Sys) : Prop := ∀ g c call, (s.pc g).told = some (c, call) → s.calls c = some (g, call)

theorem told_update {pc : Agent → Pc} {P : Agent → CallId → Api → Prop} {g : Agent} {p : Pc}
    (h : ∀ k c call, (pc k).told = some (c, call) → P k c call)
    (hp : ∀ c call, p.told = some (c, call) → P g c call) :
    ∀ k c call, (Function.update pc g p k).told = some (c, call) → P k c call := by
  intro k c call hk
  by_cases heq : k = g
  · subst heq
    rw [Function.update_self] at hk
    exact hp c call hk
  · rw [Function.update_of_ne heq] at hk
    exact h k c call hk

theorem Case.tells (hc : Case s act s') (h : s.Tells) (hfresh : s.calls s.nextCall = none) :
    s'.Tells := by
  have silent : ∀ {p : Pc} {g : Agent}, p.told = none →
      ∀ c call, p.told = some (c, call) → s.calls c = some (g, call) := fun hp c call hx => by
    rw [hp] at hx
    cases hx
  cases hc with
  | calls a call =>
      refine told_update (P := fun g c call => (s.enter a _).calls c = some (g, call))
        (fun g c call hg => ?_) fun c call hx => ?_
      · have hold := h g c call hg
        refine (Function.update_of_ne ?_ _ _).trans hold
        rintro rfl
        simp [hfresh] at hold
      · cases hx
        exact Function.update_self ..
  | acts a env c o p es os sel _ _ _ _ _ _ hon =>
      exact told_update h fun c call hx => h a.agent c call (hon.told hx)
  | resumesFd w u env c v use o p es _ _ _ hon =>
      exact told_update h fun c call hx => h (.task u) c call (hon.told hx)
  | parks w u env c p _ _ _ _ hp =>
      exact told_update h fun c call hx => h (.task u) c call (hp.told hx)
  | dispatches w env u q =>
      refine told_update h ?_
      split
      · exact silent rfl
      · exact h _
  | writes | descriptors | starts | startFails | loops | exits => exact h
  | _ => exact told_update h (silent rfl)

/-! ## What parked tasks have left -/

end Sys

/-- A task that waits on channels waited before, or has parked by a step of its own. -/
theorem Task.Step.eq_or_own {own : Prop} {k k' : Task} (h : k.Step own k')
    (hst : k'.state = .waitingChan ∨ k'.state = .waitingSelect) :
    k' = k ∨ own ∧ k.state = .running := by
  cases h with
  | same => exact .inl rfl
  | woken o hw => simp [hw.state_new] at hst
  | runs => simp at hst
  | calls _ ho hr | selects _ _ _ _ _ _ ho hr | waits ho hr | collects ho hr | leaves ho hr =>
      exact .inr ⟨ho, hr⟩

section Parking

variable {s s' : Rt} {t : TaskId} {c : CallId} {q p : Pc} {ch : ChanId}

theorem Parks.asks_send (hp : Parks t c q s p s') (hst : (s'.task t).state = .waitingChan)
    (href : (s'.task t).chanRef = some (.senders ch)) : p.call? = some c ∧
      ∃ call, q.told = some (c, call) ∧ call.Asks (.send .plain ch (s'.chanValueOf t)) := by
  cases hp with
  | send x value hq =>
      simp only [parkChan, Function.update_self, Task.chanRef, Option.some.injEq,
        WaitqRef.senders.injEq] at href
      refine ⟨rfl, _, by rw [hq]; rfl, ?_⟩
      rw [href]
      simpa [chanValueOf, parkChan] using Api.Asks.send ch value
  | recv x out => simp [parkChan, Task.chanRef] at href
  | select cases plan _ _ hp => simp [hp.enlists.1] at hst
  | join => simp [Rt.parkJoin] at hst
  | sleep => simp [Rt.parkSleep] at hst
  | yield => simp [Rt.parkYield] at hst
  | fd => simp [Rt.parkFd] at hst

theorem Parks.asks_recv (hp : Parks t c q s p s') (hst : (s'.task t).state = .waitingChan)
    (href : (s'.task t).chanRef = some (.receivers ch)) : p.call? = some c ∧
      ∃ call, q.told = some (c, call) ∧ call.Asks (.recv ch (s'.chanValueOf t)) := by
  cases hp with
  | send x value => simp [parkChan, Task.chanRef] at href
  | recv x out hq =>
      simp only [parkChan, Function.update_self, Task.chanRef, Option.some.injEq,
        WaitqRef.receivers.injEq] at href
      refine ⟨rfl, _, by rw [hq]; rfl, ?_⟩
      rw [href]
      simpa [chanValueOf, parkChan] using Api.Asks.recv ch out
  | select cases plan _ _ hp => simp [hp.enlists.1] at hst
  | join => simp [Rt.parkJoin] at hst
  | sleep => simp [Rt.parkSleep] at hst
  | yield => simp [Rt.parkYield] at hst
  | fd => simp [Rt.parkFd] at hst

/-- Each waiter of a select holds the address of one of its cases. -/
theorem Parks.asks_case (hp : Parks t c q s p s') (hst : (s'.task t).state = .waitingSelect)
    (hplan : p.Planned) {w : WaiterId} (hw : w ∈ (s'.task t).selectWaiters) : p.call? = some c ∧
      ∃ call, q.told = some (c, call) ∧
        ((s'.selw w).ref = .senders ch → call.Asks (.send .select ch (s'.selw w).value)) ∧
        ((s'.selw w).ref = .receivers ch → call.Asks (.recv ch (s'.selw w).value)) := by
  cases hp with
  | select cases plan hq _ hp =>
      refine ⟨rfl, _, by rw [hq]; rfl, ?_⟩
      obtain ⟨-, hrec, -⟩ := hp.enlists
      obtain ⟨i, x, hx, hchan, hrec⟩ := hrec w hw
      have hmem := List.mem_of_getElem? hx
      obtain ⟨hch, hv⟩ := (selectScan_some hplan).channel x hmem hchan
      obtain ⟨op, ch?, a?, ms⟩ := x
      obtain ⟨y, rfl⟩ := Option.isSome_iff_exists.mp hch
      obtain ⟨a, rfl⟩ := Option.isSome_iff_exists.mp hv
      rw [hrec]
      constructor
      · intro href
        rw [SelectWaiter.ref, waiterOf] at href
        split at href
        · next hop =>
            obtain rfl : y = ch := SelectqRef.senders.inj href
            obtain rfl : op = .send := hop
            exact .selectSend cases y a ms hmem
        · cases href
      · intro href
        rw [SelectWaiter.ref, waiterOf] at href
        split at href
        · cases href
        · next hop =>
            obtain rfl : y = ch := SelectqRef.receivers.inj href
            obtain rfl : op = .recv := (SelectCase.isChannel_iff.mp hchan).resolve_left hop
            exact .selectRecv cases y a ms hmem
  | send | recv => simp [parkChan] at hst
  | join => simp [Rt.parkJoin] at hst
  | sleep => simp [Rt.parkSleep] at hst
  | yield => simp [Rt.parkYield] at hst
  | fd => simp [Rt.parkFd] at hst

end Parking

namespace Sys

variable {s s' : Sys} {act : Act} {t : TaskId} {o : Op}

theorem Case.waits (hc : Case s act s') (h : s.Ok) (ht : t ∈ s'.rt.allTasks)
    (hst : (s'.rt.task t).state = .waitingChan ∨ (s'.rt.task t).state = .waitingSelect) :
    (t ∈ s.rt.allTasks ∧ s'.rt.task t = s.rt.task t) ∨
      ∃ c p r, Parks t c (s.pc (.task t)) s.rt p r ∧ s'.pc (.task t) = p ∧
        s'.rt.task = r.task ∧ s'.rt.selw = r.selw := by
  rcases hc.recorded h ht with ⟨hmem, hk⟩ | ⟨-, id, x, hnew⟩
  · rcases hk.eq_or_own hst with heq | ⟨hown, hrun⟩
    · exact .inl ⟨hmem, heq⟩
    · obtain ⟨c, p, r, -, hp⟩ := hc.parks_own h hown hrun ht (by rcases hst with h | h <;> simp [h])
      exact .inr ⟨c, p, r, hp⟩
  · simp [hnew] at hst

/-- A task in a queue of a channel has been there with this record, or has just parked. -/
theorem Case.waitq_items (hc : Case s act s') (h : s.Ok) {q : WaitqRef} (hq : q.chan? ≠ none)
    (hmem : t ∈ (s'.rt.waitq q).items) :
    (t ∈ (s.rt.waitq q).items ∧ s'.rt.task t = s.rt.task t) ∨
      ∃ c p r, Parks t c (s.pc (.task t)) s.rt p r ∧ s'.pc (.task t) = p ∧ s'.rt.task = r.task ∧
        (r.task t).state = .waitingChan ∧ (r.task t).chanRef = some q := by
  obtain ⟨ht, hslot⟩ := (hc.ok h).rest.inv.mem_waitq hmem
  obtain ⟨hst, href⟩ := Task.chanRef_of_slot hslot hq
  rcases hc.waits h ht (.inl hst) with ⟨hmem₀, heq⟩ | ⟨c, p, r, hp, hpc, htask, -⟩
  · exact .inl ⟨(h.rest.inv.task.placed.mem (.waitq q) t).mpr ⟨hmem₀, heq ▸ hslot⟩, heq⟩
  · exact .inr ⟨c, p, r, hp, hpc, htask, htask ▸ hst, htask ▸ href⟩

/-- A waiter in a queue of a channel has been there with this record, or its select has just
parked. -/
theorem Case.selectq_items (hc : Case s act s') (h : s.Ok) {q : SelectqRef} {w : WaiterId}
    (hmem : w ∈ (s'.rt.selectq q).items) (ht : (s'.rt.selw w).task = t) :
    (w ∈ (s.rt.selectq q).items ∧ s'.rt.selw w = s.rt.selw w ∧ s'.rt.task t = s.rt.task t) ∨
      ∃ c p r, Parks t c (s.pc (.task t)) s.rt p r ∧ s'.pc (.task t) = p ∧ s'.rt.selw = r.selw ∧
        (r.task t).state = .waitingSelect ∧ w ∈ (r.task t).selectWaiters ∧ (r.selw w).ref = q := by
  have h' := hc.ok h
  obtain ⟨hall, hw, href⟩ := h'.rest.inv.mem_selectq hmem
  have hst := h'.rest.inv.waitingSelect_of_mem h'.rest.noWaiters hmem
  rw [ht] at hall hw hst
  rcases hc.waits h hall (.inr hst) with ⟨hmem₀, heq⟩ | ⟨c, p, r, hp, hpc, htask, hselw⟩
  · rw [heq] at hw
    rcases hc.chooses h ⟨hmem₀, heq ▸ hst⟩ hall with hsp | ⟨rc, index, copies, hset⟩
    · have hkeep := hsp.selw w hw
      refine .inl ⟨(h.rest.inv.select.placed.mem q w).mpr ⟨?_, ?_⟩, hkeep, heq⟩
      · rw [Rt.Listed, ← hkeep, ht]
        exact ⟨hmem₀, hw⟩
      · rw [← hkeep, href]
    · rw [hset.record] at hst
      cases hst
  · exact .inr ⟨c, p, r, hp, hpc, hselw, htask ▸ hst, htask ▸ hw, hselw ▸ href⟩

/-- A task that waits offers what it offered before, or what the call in which it has just
parked asks for. -/
theorem Case.offers (hc : Case s act s') (h : s.Ok) (hplan : ∀ g, (s'.pc g).Planned)
    (ho : s'.rt.Offers t o) :
    (s.rt.Offers t o ∧ (s'.rt.task t).call = (s.rt.task t).call) ∨
      ∃ call, (s.pc (.task t)).told = some ((s'.rt.task t).call, call) ∧ call.Asks o := by
  have h' := hc.ok h
  have hcall : ∀ {u c p}, s'.pc (.task u) = p → p.call? = some c → u ∈ s'.rt.allTasks →
      (s'.rt.task u).call = c := fun hpc hc hu => (h'.fits _ hu).call _ (by rw [hpc]; exact hc)
  cases ho with
  | send _ ch hmem =>
      have ht := (h'.rest.inv.mem_waitq hmem).1
      rcases hc.waitq_items h (by simp [WaitqRef.chan?]) hmem with
        ⟨hold, heq⟩ | ⟨c, p, r, hp, hpc, htask, hst, href⟩
      · rw [chanValueOf, heq]
        exact .inl ⟨.send t ch hold, rfl⟩
      · obtain ⟨hc', call, hq, hasks⟩ := hp.asks_send hst href
        rw [hcall hpc hc' ht, chanValueOf, htask]
        exact .inr ⟨call, hq, hasks⟩
  | recv _ ch hmem =>
      have ht := (h'.rest.inv.mem_waitq hmem).1
      rcases hc.waitq_items h (by simp [WaitqRef.chan?]) hmem with
        ⟨hold, heq⟩ | ⟨c, p, r, hp, hpc, htask, hst, href⟩
      · rw [chanValueOf, heq]
        exact .inl ⟨.recv t ch hold, rfl⟩
      · obtain ⟨hc', call, hq, hasks⟩ := hp.asks_recv hst href
        rw [hcall hpc hc' ht, chanValueOf, htask]
        exact .inr ⟨call, hq, hasks⟩
  | selectSend w ch hmem =>
      have ht := (h'.rest.inv.mem_selectq hmem).1
      rcases hc.selectq_items h hmem rfl with
        ⟨hold, hselw, heq⟩ | ⟨c, p, r, hp, hpc, hselw, hst, hw, href⟩
      · rw [heq, hselw]
        exact .inl ⟨.selectSend w ch hold, rfl⟩
      · obtain ⟨hc', call, hq, hasks, -⟩ := hp.asks_case hst (hpc ▸ hplan _) hw
        rw [hcall hpc hc' ht, hselw]
        exact .inr ⟨call, hselw ▸ hq, hasks href⟩
  | selectRecv w ch hmem =>
      have ht := (h'.rest.inv.mem_selectq hmem).1
      rcases hc.selectq_items h hmem rfl with
        ⟨hold, hselw, heq⟩ | ⟨c, p, r, hp, hpc, hselw, hst, hw, href⟩
      · rw [heq, hselw]
        exact .inl ⟨.selectRecv w ch hold, rfl⟩
      · obtain ⟨hc', call, hq, -, hasks⟩ := hp.asks_case hst (hpc ▸ hplan _) hw
        rw [hcall hpc hc' ht, hselw]
        exact .inr ⟨call, hselw ▸ hq, hasks href⟩

/-! ## Every run -/

/-- Wherever a value waits to be copied or has been copied, the addresses are those that the
calls have passed. -/
structure Vouched (s : Sys) : Prop where
  fresh : ∀ c, s.nextCall ≤ c → s.calls c = none
  tells : s.Tells
  offers : ∀ t o, s.rt.Offers t o → s.Asked (s.rt.task t).call o
  log : ∀ e ∈ s.rt.log, e.Vouched s.Asked

theorem Tells.asked (h : s.Tells) {g : Agent} {c : CallId} {call : Api}
    (hpc : (s.pc g).told = some (c, call)) (ho : call.Asks o) : s.Asked c o :=
  ⟨g, call, h g c call hpc, ho⟩

theorem Busy.vouches {r : Rt} (hb : s.Busy act r) (h : s.Ok) (hv : s.Vouched) :
    Vouches s.Asked s.rt r := by
  cases hb with
  | still hthin => exact hthin.vouches
  | acts a env c out hact hen hcall hnp hs hthin =>
      refine Vouches.quietly (hs.vouches hv.offers h.rest.inv (fun kind ch value hd => ?_)
        fun ch out hd => ?_) hthin.log
      · obtain ⟨call, hpc, ho⟩ := Pc.asks_of_does hcall (.inl ⟨_, _, _, rfl⟩) hd
        exact hv.tells.asked hpc ho
      · obtain ⟨call, hpc, ho⟩ := Pc.asks_of_does hcall (.inr ⟨_, _, rfl⟩) hd
        exact hv.tells.asked hpc ho
  | parks w t env c p hact hw hcall hnp hp hthin _ =>
      have hnone : Vouches s.Asked s.rt _ :=
        .of_eq (hp.log_eq (h.rest.noWaiters t ((h.runs t).mpr ⟨w, hw⟩)))
      exact hnone.quietly hthin.log
  | shutdown hd hthin =>
      have hnone : Vouches s.Asked s.rt _ := .of_eq hd.log
      exact hnone.quietly hthin.log

theorem Case.vouched (hc : Case s act s') (h : s.Ok) (hplan : ∀ g, (s'.pc g).Planned)
    (hv : s.Vouched) : s'.Vouched := by
  have hnext : s.calls s.nextCall = none := hv.fresh _ le_rfl
  -- the list of calls only grows
  have grown : s'.nextCall = s.nextCall ∧ s'.calls = s.calls ∨ ∃ x,
      s'.nextCall = s.nextCall + 1 ∧ s'.calls = Function.update s.calls s.nextCall (some x) := by
    cases hc with
    | calls a call => exact .inr ⟨_, rfl, rfl⟩
    | _ => exact .inl ⟨rfl, rfl⟩
  have mono : ∀ c o, s.Asked c o → s'.Asked c o := by
    rintro c o ⟨g, call, hcall, ho⟩
    refine ⟨g, call, ?_, ho⟩
    rcases grown with ⟨-, heq⟩ | ⟨x, -, heq⟩
    · rw [heq, hcall]
    · rw [heq, Function.update_of_ne, hcall]
      rintro rfl
      simp [hnext] at hcall
  refine ⟨fun c hle => ?_, hc.tells hv.tells hnext, fun t o ho => ?_, fun e he => ?_⟩
  · rcases grown with ⟨hn, heq⟩ | ⟨x, hn, heq⟩
    · rw [heq]
      exact hv.fresh c (hn ▸ hle)
    · have hlt : s.nextCall < c := Nat.lt_of_succ_le (le_trans hn.ge hle)
      rw [heq, Function.update_of_ne hlt.ne']
      exact hv.fresh c hlt.le
  · rcases hc.offers h hplan ho with ⟨hold, heq⟩ | ⟨call, hpc, hasks⟩
    · rw [heq]
      exact mono _ _ (hv.offers t o hold)
    · exact mono _ _ (hv.tells.asked hpc hasks)
  · obtain ⟨es, hlog, hes, -⟩ := hc.busy.vouches h hv
    rw [hlog] at he
    rcases List.mem_append.mp he with he | he
    · exact (hv.log e he).mono mono
    · exact (hes e he).mono mono

theorem Prepared.vouched {s₀ : Sys} (hp : s.Prepared s₀) (hok : s.Ok) (hv : s.Vouched) :
    s₀.Vouched := by
  rcases hp.cases hok with ⟨tape, rfl⟩ | ⟨-, -, rt, hb, rfl⟩
  · exact ⟨hv.fresh, hv.tells, fun t o ho => hv.offers t o ho.tape, hv.log⟩
  · refine ⟨hv.fresh, hv.tells, fun t o ho => ?_, fun e he => hv.log e (hb.log ▸ he)⟩
    cases ho with
    | send _ ch hmem | recv _ ch hmem => simp [hb.off.waitq] at hmem
    | selectSend w ch hmem | selectRecv w ch hmem => simp [hb.off.selectq] at hmem

/-- In every run the history names the addresses that the calls have passed. -/
theorem vouched_of_reach (h : machine.Reach Contract s) : s.Vouched := by
  refine h.invariant (fun s hs => ?_) fun s act s' hr hv hact hstep => ?_
  · obtain ⟨kind, rfl⟩ := hs
    refine ⟨fun _ _ => rfl, fun g c call hg => ?_, fun t o ho => ?_, nofun⟩
    · cases g <;> cases hg
    · cases ho with
      | send _ ch hmem | recv _ ch hmem | selectSend w ch hmem | selectRecv w ch hmem => cases hmem
  · have hok := ok_of_reach (fun _ _ hc => hc) hr
    obtain ⟨s₀, hp, hcase⟩ := hok.step_cases hact hstep
    exact hcase.vouched (hp.ok hok) (timesSelects_of_reach (.step hr hact hstep)).2 (hp.vouched hok hv)

/-- The entries that the step has made name the addresses with which the calls were made, and
those held the values, or hold them now. -/
def Carries (s s' : Sys) : Prop :=
  ∃ es, s'.rt.log = s.rt.log ++ es ∧ ∀ e ∈ es, e.Vouched s'.Asked ∧
    e.Held (fun ch => (s.rt.chan ch).elemSize) s.rt.mem s'.rt.mem

theorem carries_of_step (h : machine.Reach Contract s) (hact : s.Contract act)
    (hstep : machine.step s act = some s') : s.Carries s' := by
  have hok := ok_of_reach (fun _ _ hc => hc) h
  have hv' := vouched_of_reach (.step h hact hstep)
  by_cases hwrite : ∃ a addr v, act = .write a addr v
  · obtain ⟨a, addr, v, rfl⟩ := hwrite
    simp only [machine, step] at hstep
    split at hstep <;> cases hstep
    exact ⟨[], (List.append_nil _).symm, fun e he => absurd he List.not_mem_nil⟩
  · obtain ⟨es, hlog, hcopied⟩ :=
      copies_of_step h hact hstep fun a addr v heq => hwrite ⟨a, addr, v, heq⟩
    obtain ⟨s₀, hp, hcase⟩ := hok.step_cases hact hstep
    obtain ⟨fs, hfs, -, hord⟩ :=
      hcase.busy.vouches (hp.ok hok) (hp.vouched hok (vouched_of_reach h))
    have hlog₀ : s₀.rt.log = s.rt.log := by
      rcases hp.cases hok with ⟨tape, rfl⟩ | ⟨-, -, rt, hb, rfl⟩
      · rfl
      · exact hb.log
    obtain rfl : es = fs := List.append_cancel_left (hlog.symm.trans (hlog₀ ▸ hfs))
    refine ⟨es, hlog, fun e he => ⟨hv'.log e ?_, hcopied.held hord e he⟩⟩
    rw [hlog]
    exact List.mem_append_right _ he

end Sys
end Microthread
