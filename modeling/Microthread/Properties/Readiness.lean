import Mathlib.Data.List.TakeWhile
import Microthread.Properties.Generations

/-!
# The waiters that a report reaches

An entry of a batch is about every active waiter of its descriptor that waits for a direction
it reports, but most entries complete only the first of them. Which waiters a pass completes
therefore depends on the entries that come before, and on who stands first in the list.
-/

namespace Microthread

open Foundation

namespace ReadyEvent

/-- The directions that the loop of a back end makes of an entry. -/
def directions (e : ReadyEvent) : IoBackendKind → Nat
  | .none => 0
  | .poll | .epoll => revents2FdEvents e.bits
  | .kqueue => e.widened

/-- `POLLNVAL`, for which poll has a loop of its own. -/
def Invalid (e : ReadyEvent) (k : IoBackendKind) : Prop := k = .poll ∧ e.bits &&& pollNval ≠ 0

/-- The entry is about a waiter. -/
def Meets (e : ReadyEvent) (k : IoBackendKind) (x : FdWaiter) : Prop :=
  e.fd = x.fd ∧ (e.Invalid k ∨ x.events &&& e.directions k ≠ 0)

/-- The entry completes every waiter that it is about, not the first of them only. -/
def Sweeps (e : ReadyEvent) (k : IoBackendKind) : Prop := k = .epoll ∨ e.Invalid k

end ReadyEvent

namespace Rt

variable {s a b : Rt} {v w : FdWaiterId} {k : IoBackendKind} {e : ReadyEvent}
  {batch : List ReadyEvent}

/-- The active waiters of the same descriptor that stand before `w`. -/
def ahead (s : Rt) (w : FdWaiterId) : List FdWaiterId :=
  (s.activeOn (s.fdw w).fd).takeWhile fun v => v != w

/-- The batch has an entry that completes the waiter: it completes all that it is about, or
the waiters ahead that it is about have had entries of their own before. -/
def Reached (s : Rt) (w : FdWaiterId) (batch : List ReadyEvent) : Prop :=
  ∃ earlier e later, batch = earlier ++ e :: later ∧ e.Meets s.ioBackendKind (s.fdw w) ∧
    (e.Sweeps s.ioBackendKind ∨ ∀ v ∈ s.ahead w, e.Meets s.ioBackendKind (s.fdw v) →
      ∃ x ∈ earlier, x.Meets s.ioBackendKind (s.fdw v))

/-! ## One entry -/

/-- One turn of the loop of a back end. -/
def entryDispatch (k : IoBackendKind) (s : Rt) (e : ReadyEvent) : Rt :=
  match k with
  | .none => s
  | .poll => s.pollBackendDispatch e
  | .epoll => s.epollBackendDispatch e
  | .kqueue => s.kqueueBackendDispatch e

theorem backendDispatch_eq (s : Rt) (batch : List ReadyEvent) :
    s.backendDispatch batch = batch.foldl (entryDispatch s.ioBackendKind) s := by
  unfold backendDispatch
  cases s.ioBackendKind with
  | none => exact (List.foldl_fixed' (fun _ => rfl) batch).symm
  | poll | epoll | kqueue => rfl

/-- Waiters are completed and nothing else happens to them. -/
structure Lessens (s a : Rt) : Prop where
  list : a.fdWaiters = s.fdWaiters
  record : ∀ w, a.fdw w = s.fdw w ∨ a.fdw w = { s.fdw w with state := .readyReserved }

theorem Lessens.refl (s : Rt) : Lessens s s := ⟨rfl, fun _ => .inl rfl⟩

theorem Lessens.trans (h : Lessens s a) (h' : Lessens a b) : Lessens s b where
  list := h'.list.trans h.list
  record w := by
    rcases h'.record w with heq | heq
    · rw [heq]
      exact h.record w
    · refine .inr (heq.trans ?_)
      rcases h.record w with heq' | heq' <;> rw [heq']

theorem Lessens.active (h : Lessens s a) (ha : (a.fdw w).state = .active) : a.fdw w = s.fdw w :=
  (h.record w).resolve_right fun heq => by simp [heq] at ha

theorem Lessens.activeOn (h : Lessens s a) (fd : Nat) :
    a.activeOn fd = (s.activeOn fd).filter a.fdWaiterIsActive := by
  unfold Rt.activeOn
  rw [h.list, List.filter_filter]
  refine List.filter_congr fun w _ => ?_
  cases hw : a.fdWaiterIsActive w with
  | false => rfl
  | true =>
      have ha : (a.fdw w).state = .active := by simpa [fdWaiterIsActive] using hw
      have hs : s.fdWaiterIsActive w = true := by
        rw [← hw, fdWaiterIsActive, fdWaiterIsActive, h.active ha]
      rw [hs, h.active ha]
      rfl

theorem mem_takeWhile_of_filter {α : Type} [DecidableEq α] {l : List α} {p : α → Bool} {x y : α}
    (hy : p y = true) (hx : x ∈ (l.filter p).takeWhile fun z => z != y) :
    x ∈ l.takeWhile fun z => z != y := by
  induction l with
  | nil => exact hx
  | cons z l ih =>
      by_cases hzy : z = y
      · subst hzy
        simp [hy] at hx
      · rw [List.takeWhile_cons_of_pos (by simpa using hzy)]
        by_cases hz : p z = true
        · rw [List.filter_cons_of_pos hz, List.takeWhile_cons_of_pos (by simpa using hzy)] at hx
          exact List.mem_cons.mpr ((List.mem_cons.mp hx).imp_right ih)
        · rw [List.filter_cons_of_neg hz] at hx
          exact List.mem_cons_of_mem _ (ih hx)

/-- Completing waiters puts nobody ahead of another. -/
theorem Lessens.ahead (h : Lessens s a) (hw : (a.fdw w).state = .active) (hv : v ∈ a.ahead w) :
    v ∈ s.ahead w := by
  unfold Rt.ahead at hv ⊢
  rw [h.active hw, h.activeOn] at hv
  exact mem_takeWhile_of_filter (by simpa [fdWaiterIsActive] using hw) hv

theorem FdShift.lessens {c : FdCause} (hm : FdShift c s a) : Lessens s a := by
  cases hm with
  | tape | insert => exact ⟨rfl, fun _ => .inl rfl⟩
  | wake v items rc ready =>
      refine ⟨rfl, fun w => ?_⟩
      by_cases hw : w = v
      · subst hw
        exact .inr (Function.update_self ..)
      · exact .inl (Function.update_of_ne hw _ _)

theorem FdShifts.lessens {c : FdCause} (hm : FdShifts c s a) : Lessens s a := by
  induction hm with
  | refl => exact .refl _
  | tail _ hm ih => exact ih.trans (FdShift.lessens hm)

theorem Inv.entryDispatch (h : s.Inv) (k : IoBackendKind) (he : e ∈ batch) :
    FdShifts (.ready batch) s (entryDispatch k s e) := by
  cases k with
  | none => exact .refl
  | poll => exact h.pollBackendDispatch he
  | epoll => exact h.epollBackendDispatchLoop he 3 _
  | kqueue => exact h.kqueueBackendDispatch he

/-- The state while a batch is dispatched. -/
structure Poised (s : Rt) : Prop where
  inv : s.Inv
  orderly : s.Orderly

theorem Poised.shifts {c : FdCause} (h : s.Poised) (hm : FdShifts c s a) : a.Poised :=
  ⟨FdShifts.inv hm h.inv, h.orderly.drifts (FdShifts.drifts hm)⟩

theorem Poised.entries (h : s.Poised) (k : IoBackendKind) (es : List ReadyEvent) :
    (es.foldl (Rt.entryDispatch k) s).Poised ∧ Lessens s (es.foldl (Rt.entryDispatch k) s) := by
  have hm : FdShifts (.ready es) s (es.foldl (Rt.entryDispatch k) s) :=
    foldl_shifts es (fun a e he ha => ha.entryDispatch k he) h.inv
  exact ⟨h.shifts hm, FdShifts.lessens hm⟩

/-! ## Who is completed -/

theorem mem_takeWhile_of_find? {α : Type} [DecidableEq α] {l : List α} {p : α → Bool} {x y : α}
    (hf : l.find? p = some x) (hy : p y = true) (hne : x ≠ y) : x ∈ l.takeWhile fun z => z != y := by
  induction l with
  | nil => simp at hf
  | cons z l ih =>
      by_cases hz : p z = true
      · rw [List.find?_cons_of_pos hz] at hf
        obtain rfl := Option.some.inj hf
        rw [List.takeWhile_cons_of_pos (by simpa using hne)]
        exact List.mem_cons_self
      · rw [List.find?_cons_of_neg hz] at hf
        have hzy : z ≠ y := fun heq => hz (heq ▸ hy)
        rw [List.takeWhile_cons_of_pos (by simpa using hzy)]
        exact List.mem_cons_of_mem _ (ih hf)

theorem mem_ahead (hv : v ∈ s.ahead w) : v ∈ s.activeOn (s.fdw w).fd ∧ v ≠ w :=
  ⟨(List.takeWhile_sublist _).subset hv, by simpa using List.mem_takeWhile_imp hv⟩

/-- The first waiter that an entry concerns is completed. -/
theorem Served.takes {fd r : Nat} (h : Served s fd r a) (hw : w ∈ s.activeOn fd)
    (hev : (s.fdw w).events &&& r ≠ 0)
    (hfirst : ∀ v ∈ s.ahead w, (s.fdw v).events &&& r = 0) : (a.fdw w).state ≠ .active := by
  have hconcerns : s.Concerns r w = true := by simpa [Concerns] using hev
  cases h with
  | none hf => exact absurd hconcerns (List.find?_eq_none.mp hf w hw)
  | some v hf hl hfdw =>
      by_cases hvw : v = w
      · subst hvw
        simp [hfdw, readied]
      · have hmem := mem_takeWhile_of_find? hf hconcerns hvw
        rw [← (mem_activeOn.mp hw).2.2] at hmem
        have hv : s.Concerns r v = true := List.find?_some hf
        simp [Concerns, hfirst v hmem] at hv

/-- The loop over an epoll entry completes every waiter that waits for a direction left. -/
theorem Poised.epollLoop (h : s.Poised) {fuel r : Nat} (hw : w ∈ s.activeOn e.fd) (hr : r < 4)
    (hfuel : r % 2 + r / 2 ≤ fuel) (hev : (s.fdw w).events &&& r ≠ 0) :
    ((epollBackendDispatchLoop e fuel r s).fdw w).state ≠ .active := by
  induction fuel generalizing s r with
  | zero =>
      obtain rfl : r = 0 := by omega
      simp at hev
  | succ fuel ih =>
      unfold epollBackendDispatchLoop
      split
      · next hz => simp [hz] at hev
      · rw [h.orderly.upToDate.fdFindWaiter_eq]
        cases hf : (s.activeOn e.fd).find? (s.Concerns r) with
        | none => exact absurd (by simpa [Concerns] using hev) (List.find?_eq_none.mp hf w hw)
        | some v =>
            have hv := List.mem_of_find?_eq_some hf
            have hvr : r &&& (s.fdw v).events ≠ 0 := by
              simpa [Concerns, Nat.and_comm] using List.find?_some hf
            obtain ⟨hv1, hv2, hv3⟩ := mem_activeOn.mp hv
            obtain ⟨hw1, hw2, hw3⟩ := mem_activeOn.mp hw
            simp only [if_neg fun hz : r &&& (s.fdw v).events = 0 ∧ _ => hvr hz.1]
            have hstep : FdShifts (.ready [e]) s (s.fdReadyWaiter v .ok (r &&& (s.fdw v).events)) :=
              h.inv.fdReadyWaiter_shifts hv1 hv2 (gives_ok List.mem_cons_self s hv3 hvr)
            obtain ⟨hlist, hfdw⟩ := s.fdReadyWaiter_fdw v .ok (r &&& (s.fdw v).events)
            have hnext := h.shifts hstep
            generalize s.fdReadyWaiter v .ok (r &&& (s.fdw v).events) = b at hstep hlist hfdw hnext
            by_cases hvw : v = w
            · subst hvw
              intro ha
              have hone : e ∈ [e] := List.mem_cons_self
              have hloop := hnext.inv.epollBackendDispatchLoop hone fuel
                (r &&& (3 ^^^ (r &&& (s.fdw v).events)))
              rw [(FdShifts.lessens hloop).active ha, hfdw] at ha
              simp [readied] at ha
            · have hrec : b.fdw w = s.fdw w := by
                rw [hfdw, readied, Function.update_of_ne (Ne.symm hvw)]
              have hlt : ∀ u ∈ s.fdWaiters, (s.fdw u).events < 4 := fun u hu =>
                interest_lt (valid_cases (h.orderly.exclusive.valid u hu))
              obtain ⟨c1, -, c3⟩ := cleared_spec r hr _ (hlt v hv1) hvr
              have hdisj := h.orderly.exclusive.activeOn_disjoint hw hv (Ne.symm hvw)
              have hkeep := (cleared_and r hr _ (hlt v hv1) _ (hlt w hw1)).1 hdisj
              refine ih hnext (mem_activeOn.mpr ⟨hlist ▸ hw1, hrec ▸ hw2, hrec ▸ hw3⟩) c1
                (by unfold cleared at c3; omega) ?_
              rw [hrec, Nat.and_comm]
              exact fun hz => hev ((Nat.and_comm ..).trans (hkeep.symm.trans hz))

/-- The `POLLNVAL` loop completes every waiter of the descriptor. -/
theorem Poised.invalidateAll (h : s.Poised) {fd fuel : Nat} (hw : w ∈ s.activeOn fd)
    (hfuel : (s.activeOn fd).length ≤ fuel) : ((fdInvalidateAll fd fuel s).fdw w).state ≠ .active := by
  have hgives : ∀ (a : Rt) x, x.fd = fd →
      (FdCause.ready [{ fd := fd, bits := pollNval }]).Gives a x .invalid 0 := fun a x hx =>
    ⟨_, List.mem_cons_self, hx.symm, .inr (.inl ⟨rfl, rfl, by simp [pollNval]⟩)⟩
  induction fuel generalizing s with
  | zero =>
      obtain hnil := List.length_eq_zero_iff.mp (Nat.le_zero.mp hfuel)
      simp [hnil] at hw
  | succ fuel ih =>
      unfold fdInvalidateAll
      rw [h.orderly.upToDate.fdFindWaiter_eq]
      cases hf : (s.activeOn fd).find? (s.Concerns (fdRead ||| fdWrite)) with
      | none =>
          have hnot := List.find?_eq_none.mp hf w hw
          rcases valid_cases (h.orderly.exclusive.valid w (mem_activeOn.mp hw).1) with hev | hev | hev <;>
            simp [Concerns, hev, fdRead, fdWrite] at hnot
      | some v =>
          have hv := List.mem_of_find?_eq_some hf
          obtain ⟨hv1, hv2, hv3⟩ := mem_activeOn.mp hv
          have hstep := h.inv.fdReadyWaiter_shifts hv1 hv2 (hgives s _ hv3)
          obtain ⟨hlist, hfdw⟩ := s.fdReadyWaiter_fdw v .invalid 0
          have hnext := h.shifts hstep
          simp only
          generalize s.fdReadyWaiter v .invalid 0 = b at hstep hlist hfdw hnext
          have hactive := activeOn_readied hlist hfdw fd
          by_cases hvw : v = w
          · subst hvw
            intro ha
            have hloop := hnext.inv.fdInvalidateAll fd fuel
              (fun a x hx => gives_closed List.mem_cons_self a x hx) hgives
            rw [(FdShifts.lessens hloop).active ha, hfdw] at ha
            simp [readied] at ha
          · refine ih hnext ?_ ?_
            · rw [hactive, List.mem_filter]
              exact ⟨hw, by simpa using Ne.symm hvw⟩
            · have hlt : (b.activeOn fd).length < (s.activeOn fd).length := by
                rw [hactive, List.length_filter_lt_length_iff_exists]
                exact ⟨v, hv, by simp⟩
              omega

theorem pollBackendDispatch_served (s : Rt) (he : ¬e.Invalid .poll) :
    Served s e.fd (e.directions .poll) (s.pollBackendDispatch e) := by
  have hnval : ¬(e.bits &&& pollNval ≠ 0) := fun h => he ⟨rfl, h⟩
  unfold pollBackendDispatch
  rw [if_neg hnval]
  split
  · next hz =>
      refine .none (List.find?_eq_none.mpr fun v _ => ?_) rfl rfl
      simp [Concerns, ReadyEvent.directions, hz, revents2FdEvents]
  · exact s.findReady_served e.fd _ .ok fun w a =>
      if revents2FdEvents e.bits &&& (a.fdw w).events = 0 ∧ e.bits &&& (pollErr ||| pollHup) ≠ 0
      then (a.fdw w).events else revents2FdEvents e.bits &&& (a.fdw w).events

/-- An entry completes the first waiter that it is about, or all of them. -/
theorem Poised.entry (h : s.Poised) (hw : w ∈ s.fdWaiters) (ha : (s.fdw w).state = .active)
    (hm : e.Meets k (s.fdw w)) (hfirst : e.Sweeps k ∨ ∀ v ∈ s.ahead w, ¬e.Meets k (s.fdw v)) :
    ((entryDispatch k s e).fdw w).state ≠ .active := by
  obtain ⟨hfd, hm⟩ := hm
  have hon : w ∈ s.activeOn e.fd := mem_activeOn.mpr ⟨hw, ha, hfd.symm⟩
  have plain : (hs : ¬e.Sweeps k) → (hi : ¬e.Invalid k) →
      Served s e.fd (e.directions k) (entryDispatch k s e) →
      ((entryDispatch k s e).fdw w).state ≠ .active := fun hs hi hserved => by
    refine hserved.takes hon (hm.resolve_left hi) fun v hv => ?_
    by_contra hev
    refine hfirst.resolve_left hs v hv ⟨?_, .inr hev⟩
    exact hfd.trans (mem_activeOn.mp (mem_ahead hv).1).2.2.symm
  cases k with
  | none => exact absurd (hm.resolve_left fun hi => by cases hi.1) (by simp [ReadyEvent.directions])
  | poll =>
      by_cases hi : e.Invalid .poll
      · have hbits : e.bits ≠ 0 := fun hz => hi.2 (by simp [hz])
        unfold entryDispatch pollBackendDispatch
        simp only [if_neg hbits, if_pos hi.2]
        exact h.invalidateAll hon (List.length_filter_le _ _)
      · refine plain (fun hs => ?_) hi (s.pollBackendDispatch_served hi)
        exact hi (hs.resolve_left (by decide))
  | epoll =>
      have hev := hm.resolve_left fun hi => by cases hi.1
      have hlt : revents2FdEvents e.bits < 4 := by
        rw [revents2FdEvents_eq]
        split <;> split <;> decide
      exact h.epollLoop hon hlt (by omega) hev
  | kqueue =>
      have hi : ¬e.Invalid .kqueue := fun hi => by cases hi.1
      exact plain (fun hs => hs.elim (by decide) hi) hi (s.kqueueBackendDispatch_served e)

/-! ## A pass -/

/-- Nobody stands before a waiter that stands before another. -/
theorem Exclusive.ahead_nil (h : s.Exclusive) (hv : v ∈ s.ahead w) (hw : w ∈ s.activeOn (s.fdw w).fd) :
    s.ahead v = [] := by
  obtain ⟨hmem, hne⟩ := mem_ahead hv
  unfold ahead at hv ⊢
  rw [(mem_activeOn.mp hmem).2.2]
  rcases h.activeOn_cases (s.fdw w).fd with h0 | ⟨x, h1⟩ | ⟨x, y, h2, -⟩
  · simp [h0] at hw
  · rw [h1] at hmem hw
    exact absurd ((List.mem_singleton.mp hmem).trans (List.mem_singleton.mp hw).symm) hne
  · rw [h2] at hv ⊢
    have hx : v = x := by
      by_contra hvx
      have hmem' := hmem
      rw [h2] at hmem'
      simp only [List.mem_cons, List.not_mem_nil, or_false, hvx, false_or] at hmem'
      subst hmem'
      by_cases hxw : x = w
      · simp [hxw] at hv
      · rw [h2] at hw
        simp only [List.mem_cons, List.not_mem_nil, or_false] at hw
        exact hw.elim (fun he => hxw he.symm) fun he => hne he.symm
    subst hx
    simp

theorem Poised.entries_cons (h : s.Poised) (k : IoBackendKind) (e : ReadyEvent)
    (later : List ReadyEvent)
    (hactive : (((e :: later).foldl (Rt.entryDispatch k) s).fdw w).state = .active) :
    ((Rt.entryDispatch k s e).fdw w).state = .active ∧ (s.fdw w).state = .active := by
  rw [List.foldl_cons] at hactive
  obtain ⟨hnext, hfirst⟩ := h.entries k [e]
  obtain ⟨-, hrest⟩ := Poised.entries (s := entryDispatch k s e) hnext k later
  rw [hrest.active hactive] at hactive
  refine ⟨hactive, ?_⟩
  have heq := Lessens.active (a := entryDispatch k s e) hfirst hactive
  rwa [heq] at hactive

/-- A pass completes every waiter that the batch reaches. -/
theorem Poised.reached (h : s.Poised) (hr : s.Reached w batch) (hw : w ∈ s.fdWaiters) :
    ((s.backendDispatch batch).fdw w).state ≠ .active := by
  obtain ⟨earlier, e, later, rfl, hm, hfirst⟩ := hr
  rw [backendDispatch_eq, List.foldl_append]
  generalize s.ioBackendKind = k at hm hfirst ⊢
  obtain ⟨hpoised, hless⟩ := h.entries k earlier
  intro hactive
  obtain ⟨hnot, ha⟩ := hpoised.entries_cons k e later hactive
  refine hpoised.entry (hless.list ▸ hw) ha (hless.active ha ▸ hm)
    (hfirst.imp_right fun hfirst v hv hmv => ?_) hnot
  -- an earlier entry has completed whoever stood ahead
  have hva := (mem_activeOn.mp (mem_ahead hv).1).2.1
  obtain ⟨x, hx, hmx⟩ := hfirst v (hless.ahead ha hv) (hless.active hva ▸ hmv)
  obtain ⟨pre, post, rfl⟩ := List.append_of_mem hx
  obtain ⟨hpre, hless'⟩ := h.entries k pre
  rw [List.foldl_append] at ha hva hv
  obtain ⟨-, hafter⟩ := hpre.entries k (x :: post)
  obtain ⟨hnotv, hvactive⟩ := hpre.entries_cons k x post hva
  have hwa := ha
  rw [hafter.active ha] at hwa
  have hnil := hpre.orderly.exclusive.ahead_nil (hafter.ahead ha hv)
    (mem_activeOn.mpr ⟨hless'.list ▸ hw, hwa, rfl⟩)
  have hvw : v ∈ s.fdWaiters := by
    have hmem := (mem_activeOn.mp (mem_ahead (hafter.ahead ha hv)).1).1
    exact hless'.list ▸ hmem
  exact hpre.entry (hless'.list ▸ hvw) hvactive (hless'.active hvactive ▸ hmx)
    (.inr (by simp [hnil])) hnotv

end Rt

end Microthread
