import Mathlib.Logic.Function.Basic
import Microthread.Foundation.Queue

/-!
# Intrusive linked queues

Queues whose elements carry one link each: a queue is a pointer to its first
element, a pointer to its last one and a counter. Any number of queues share the
link field, so an element is in at most one of them.

The operations write the cells one by one. Removal walks along with a pointer to
the link that it may have to rewrite and, one element behind, a pointer for the
tail; the walk gets fuel, because only a proper chain makes it end. `Rep` relates
the cells to queues in the sense of `Foundation.Queue`, and every operation
refines the one on lists.
-/

namespace Foundation

universe u v

/-- The link of every element, and head, tail and counter of every queue. -/
structure Links (ρ : Type u) (α : Type v) where
  next : α → Option α := fun _ => none
  head : ρ → Option α := fun _ => none
  tail : ρ → Option α := fun _ => none
  count : ρ → Nat := fun _ => 0

/-- A cell that holds a pointer to an element: the head of the queue or a link. -/
inductive Cell (α : Type v) where
  | head | next (y : α)

namespace Links

variable {ρ : Type u} {α : Type v} [DecidableEq ρ] [DecidableEq α]

/-- Append an element. -/
def push (m : Links ρ α) (r : ρ) (x : α) : Links ρ α :=
  let m := { m with next := Function.update m.next x none }
  let m := match m.tail r with
    | none =>
      { m with head := Function.update m.head r (some x), tail := Function.update m.tail r (some x) }
    | some z =>
      { m with next := Function.update m.next z (some x), tail := Function.update m.tail r (some x) }
  { m with count := Function.update m.count r (m.count r + 1) }

/-- Detach the first element; `dec` decrements the counter. -/
def pop (dec : Nat → Nat) (m : Links ρ α) (r : ρ) : Option α × Links ρ α :=
  match m.head r with
  | none => (none, m)
  | some x =>
    let m := { m with head := Function.update m.head r (m.next x) }
    let m := match m.head r with
      | none => { m with tail := Function.update m.tail r none }
      | some _ => m
    let m := { m with next := Function.update m.next x none }
    (some x, { m with count := Function.update m.count r (dec (m.count r)) })

def read (m : Links ρ α) (r : ρ) : Cell α → Option α
  | .head => m.head r
  | .next y => m.next y

def write (m : Links ρ α) (r : ρ) (v : Option α) : Cell α → Links ρ α
  | .head => { m with head := Function.update m.head r v }
  | .next y => { m with next := Function.update m.next y v }

/-- The walk of `remove`: `link` is the cell to look at, `prev` the element before it. -/
def removeLoop (r : ρ) (x : α) (m : Links ρ α) :
    Nat → Cell α → Option α → Option (Bool × Links ρ α)
  | 0, _, _ => none
  | fuel + 1, link, prev =>
    match m.read r link with
    | none => some (false, m)
    | some y =>
      if y = x then
        let m := m.write r (m.next x) link
        let m := if m.tail r = some x then { m with tail := Function.update m.tail r prev } else m
        let m := { m with next := Function.update m.next x none }
        some (true, { m with count := Function.update m.count r (m.count r - 1) })
      else removeLoop r x m fuel (.next y) (some y)

/-- Unlink an element wherever it stands, and report whether it was there. -/
def remove (fuel : Nat) (m : Links ρ α) (r : ρ) (x : α) : Option (Bool × Links ρ α) :=
  removeLoop r x m fuel .head none

/-- Following the links from `p` visits the elements of the list, in order, and arrives at `q`. -/
def Segment (next : α → Option α) : Option α → List α → Option α → Prop
  | p, [], q => p = q
  | p, x :: xs, q => p = some x ∧ Segment next (next x) xs q

/-- The cells hold the queue `k` at `r`: the chain from the head is the list of the elements, the
tail is the last of them, if there is one, and the counter is their number. -/
structure Holds (m : Links ρ α) (r : ρ) (k : Queue α) : Prop where
  chain : Segment m.next (m.head r) k.items none
  tail : m.tail r = k.items.getLast?
  count : m.count r = k.count
  exact : k.Exact
  nodup : k.items.Nodup

/-- The cells hold the queues `q`, which have no element in common. -/
structure Rep (m : Links ρ α) (q : ρ → Queue α) : Prop where
  holds : ∀ r, Holds m r (q r)
  apart : ∀ r r' x, x ∈ (q r).items → x ∈ (q r').items → r = r'

omit [DecidableEq ρ] [DecidableEq α] in
theorem rep_empty : Rep ({} : Links ρ α) fun _ => {} :=
  ⟨fun _ => ⟨rfl, rfl, rfl, rfl, List.nodup_nil⟩, fun _ _ x hx => by simp at hx⟩

/-! ## Segments -/

section Segment

variable {next next' : α → Option α} {p q v : Option α} {y : α} {xs ys : List α}

omit [DecidableEq α] in
theorem Segment.congr (h : Segment next p xs q) (heq : ∀ x ∈ xs, next' x = next x) :
    Segment next' p xs q := by
  induction xs generalizing p with
  | nil => exact h
  | cons x xs ih =>
      refine ⟨h.1, ?_⟩
      rw [heq x List.mem_cons_self]
      exact ih h.2 fun z hz => heq z (List.mem_cons_of_mem x hz)

omit [DecidableEq α] in
theorem segment_append :
    Segment next p (xs ++ ys) q ↔ ∃ v, Segment next p xs v ∧ Segment next v ys q := by
  induction xs generalizing p with
  | nil => exact ⟨fun h => ⟨p, rfl, h⟩, fun ⟨v, hv, h⟩ => hv ▸ h⟩
  | cons x xs ih =>
      constructor
      · rintro ⟨hp, h⟩
        obtain ⟨v, hxs, hys⟩ := ih.mp h
        exact ⟨v, ⟨hp, hxs⟩, hys⟩
      · rintro ⟨v, ⟨hp, hxs⟩, hys⟩
        exact ⟨hp, ih.mpr ⟨v, hxs, hys⟩⟩

omit [DecidableEq α] in
theorem Segment.head_eq (h : Segment next p xs none) : p = xs.head? := by
  cases xs with
  | nil => exact h
  | cons x xs => exact h.1

/-- The last link of a segment is rewritten. -/
theorem Segment.relink (h : Segment next p (xs ++ [y]) q) (hy : y ∉ xs) (v : Option α) :
    Segment (Function.update next y v) p (xs ++ [y]) v := by
  obtain ⟨w, hxs, hw, -⟩ := segment_append.mp h
  refine segment_append.mpr ⟨w, hxs.congr fun x hx => ?_, hw, Function.update_self ..⟩
  exact Function.update_of_ne (fun heq : x = y => hy (heq ▸ hx)) _ _

end Segment

/-! ## The operations refine those on lists -/

section Refinement

variable {m m' : Links ρ α} {q : ρ → Queue α} {r : ρ} {x : α}

omit [DecidableEq α] in
/-- One queue is replaced; the cells of the others are as before. -/
theorem Rep.replace (h : Rep m q) {k : Queue α} (hk : Holds m' r k)
    (hapart : ∀ r' ≠ r, ∀ y ∈ k.items, y ∉ (q r').items)
    (hothers : ∀ r' ≠ r, m'.head r' = m.head r' ∧ m'.tail r' = m.tail r' ∧
      m'.count r' = m.count r' ∧ ∀ y ∈ (q r').items, m'.next y = m.next y) :
    Rep m' (Function.update q r k) := by
  have hself : Function.update q r k r = k := Function.update_self ..
  have hne : ∀ r' ≠ r, Function.update q r k r' = q r' := fun r' hr =>
    Function.update_of_ne hr _ _
  refine ⟨fun r' => ?_, fun r₁ r₂ y h₁ h₂ => ?_⟩
  · by_cases hr : r' = r
    · rw [hr, hself]
      exact hk
    · obtain ⟨hhead, htail, hcount, hnext⟩ := hothers r' hr
      have hold := h.holds r'
      rw [hne r' hr]
      exact ⟨hhead ▸ hold.chain.congr hnext, htail ▸ hold.tail, hcount ▸ hold.count, hold.exact,
        hold.nodup⟩
  · by_cases hr₁ : r₁ = r
    · by_cases hr₂ : r₂ = r
      · rw [hr₁, hr₂]
      · rw [hr₁, hself] at h₁
        rw [hne r₂ hr₂] at h₂
        exact absurd h₂ (hapart r₂ hr₂ y h₁)
    · rw [hne r₁ hr₁] at h₁
      by_cases hr₂ : r₂ = r
      · rw [hr₂, hself] at h₂
        exact absurd h₁ (hapart r₁ hr₁ y h₂)
      · rw [hne r₂ hr₂] at h₂
        exact h.apart r₁ r₂ y h₁ h₂

theorem Rep.push (h : Rep m q) (hx : ∀ r', x ∉ (q r').items) :
    Rep (m.push r x) (Function.update q r ((q r).push x)) := by
  have hfresh : ∀ r', ∀ y ∈ (q r').items, y ≠ x := fun r' y hy heq => hx r' (heq ▸ hy)
  have hseg : Segment (Function.update m.next x none) (m.head r) (q r).items none :=
    (h.holds r).chain.congr fun y hy => Function.update_of_ne (hfresh r y hy) _ _
  have hnodup : ((q r).push x).items.Nodup := by
    rw [Queue.push_items]
    exact (List.nodup_append.mpr ⟨(h.holds r).nodup, List.nodup_singleton x, by
      rintro y hy z hz rfl
      exact hx r (List.mem_singleton.mp hz ▸ hy)⟩)
  have hapart : ∀ r' ≠ r, ∀ y ∈ ((q r).push x).items, y ∉ (q r').items := by
    intro r' hr y hy hy'
    rw [Queue.push_items] at hy
    rcases List.mem_append.mp hy with hy | hy
    · exact hr (h.apart r' r y hy' hy)
    · exact hx r' (List.mem_singleton.mp hy ▸ hy')
  unfold Links.push
  dsimp only
  rcases List.eq_nil_or_concat' (q r).items with hnil | ⟨ys, z, hz⟩
  · have htail : m.tail r = none := by rw [(h.holds r).tail, hnil, List.getLast?_nil]
    rw [htail]
    refine h.replace ⟨?_, ?_, ?_, (h.holds r).exact.push x, hnodup⟩ hapart fun r' hr => ⟨?_, ?_, ?_, ?_⟩
    · rw [Queue.push_items, hnil, List.nil_append]
      exact ⟨Function.update_self .., Function.update_self ..⟩
    · rw [Queue.push_items, hnil]
      exact Function.update_self ..
    · exact (Function.update_self ..).trans (congrArg (· + 1) (h.holds r).count)
    · exact Function.update_of_ne hr _ _
    · exact Function.update_of_ne hr _ _
    · exact Function.update_of_ne hr _ _
    · intro y hy
      exact Function.update_of_ne (hfresh r' y hy) _ _
  · have htail : m.tail r = some z := by rw [(h.holds r).tail, hz, List.getLast?_concat]
    have hzmem : z ∈ (q r).items := by simp [hz]
    have hzys : z ∉ ys := by
      have := (h.holds r).nodup
      rw [hz, List.nodup_append] at this
      exact fun hmem => this.2.2 z hmem z (List.mem_singleton_self z) rfl
    have hzx : x ≠ z := fun heq => hx r (heq ▸ hzmem)
    rw [htail]
    refine h.replace ⟨?_, ?_, ?_, (h.holds r).exact.push x, hnodup⟩ hapart fun r' hr => ⟨rfl, ?_, ?_, ?_⟩
    · rw [hz] at hseg
      rw [Queue.push_items, hz]
      refine segment_append.mpr ⟨some x, hseg.relink hzys (some x), rfl, ?_⟩
      exact (Function.update_of_ne hzx _ _).trans (Function.update_self ..)
    · rw [Queue.push_items, List.getLast?_concat]
      exact Function.update_self ..
    · exact (Function.update_self ..).trans (congrArg (· + 1) (h.holds r).count)
    · exact Function.update_of_ne hr _ _
    · exact Function.update_of_ne hr _ _
    · intro y hy
      have hyz : y ≠ z := fun heq => hr (h.apart r' r y hy (heq ▸ hzmem))
      exact (Function.update_of_ne hyz _ _).trans
        (Function.update_of_ne (hfresh r' y hy) _ _)

/-- Detaching the head of the list. -/
theorem Rep.pop {dec : Nat → Nat} (hdec : ∀ n, 0 < n → dec n = n - 1) (h : Rep m q) (r : ρ) :
    (m.pop dec r).1 = (q r).items.head? ∧
      Rep (m.pop dec r).2 (Function.update q r (q r).rest) := by
  have hold := h.holds r
  have hhead := hold.chain.head_eq
  cases hitems : (q r).items with
  | nil =>
      have hnone : m.head r = none := by rw [hhead, hitems, List.head?_nil]
      have hpop : (q r).pop = none := Queue.pop_eq_none.mpr hitems
      simp only [Links.pop, hnone, Queue.rest_of_pop_none hpop, Function.update_eq_self]
      exact ⟨rfl, h⟩
  | cons x rest =>
      have hsome : m.head r = some x := by rw [hhead, hitems, List.head?_cons]
      have hpop : (q r).pop = some (x, { items := rest, count := (q r).count - 1 }) :=
        Queue.pop_eq_some.mpr ⟨hitems, rfl⟩
      obtain ⟨hexact, hpos⟩ := hold.exact.pop hpop
      have hnodup := hold.nodup
      rw [hitems, List.nodup_cons] at hnodup
      obtain ⟨-, hrest⟩ : m.head r = some x ∧ Segment m.next (m.next x) rest none := by
        have := hold.chain
        rwa [hitems] at this
      have hmem : ∀ y ∈ rest, y ∈ (q r).items := fun y hy => by
        rw [hitems]
        exact List.mem_cons_of_mem x hy
      rw [Queue.rest_of_pop_some hpop]
      simp only [Links.pop, hsome, Function.update_self]
      refine ⟨rfl, h.replace ⟨?_, ?_, ?_, hexact, hnodup.2⟩ ?_ ?_⟩
      · have hseg : Segment (Function.update m.next x none)
            (Function.update m.head r (m.next x) r) rest none := by
          rw [Function.update_self]
          refine hrest.congr fun y hy => Function.update_of_ne (fun heq => hnodup.1 ?_) _ _
          exact heq ▸ hy
        split <;> exact hseg
      · have htail := hold.tail
        rw [hitems] at htail
        have hfirst := hrest.head_eq
        cases rest with
        | nil =>
            rw [show m.next x = none from hfirst]
            exact Function.update_self ..
        | cons y ys =>
            rw [show m.next x = some y from hfirst]
            exact htail.trans List.getLast?_cons_cons
      · have hcount : m.count r = (q r).count := hold.count
        split <;> exact (Function.update_self ..).trans (by rw [hcount, hdec _ hpos])
      · intro r' hr y hy hy'
        exact hr (h.apart r' r y hy' (hmem y hy))
      · intro r' hr
        have hnext : ∀ y ∈ (q r').items, Function.update m.next x none y = m.next y := by
          intro y hy
          refine Function.update_of_ne (fun heq => hr (h.apart r' r y hy ?_)) _ _
          rw [heq, hitems]
          exact List.mem_cons_self
        split
        · exact ⟨Function.update_of_ne hr _ _, Function.update_of_ne hr _ _,
            Function.update_of_ne hr _ _, hnext⟩
        · exact ⟨Function.update_of_ne hr _ _, rfl, Function.update_of_ne hr _ _, hnext⟩

/-- The cell that points behind the elements `pre` of a queue. -/
def cellAfter (pre : List α) : Cell α :=
  match pre.getLast? with
  | none => .head
  | some y => .next y

omit [DecidableEq ρ] [DecidableEq α] in
theorem Holds.read {k : Queue α} {pre suf : List α} (h : Holds m r k)
    (hsplit : k.items = pre ++ suf) : m.read r (cellAfter pre) = suf.head? := by
  have hchain := h.chain
  rw [hsplit] at hchain
  obtain ⟨v, hpre, hsuf⟩ := segment_append.mp hchain
  rw [← hsuf.head_eq]
  rcases List.eq_nil_or_concat' pre with rfl | ⟨ys, y, rfl⟩
  · exact hpre
  · obtain ⟨w, -, -, hv⟩ := segment_append.mp hpre
    have hv : m.next y = v := hv
    simpa [cellAfter, Links.read] using hv

/-- What the code does at the link that points to the element. -/
theorem Rep.unlink (h : Rep m q) {pre rest : List α} (hsplit : (q r).items = pre ++ x :: rest) :
    Rep (let a := m.write r (m.next x) (cellAfter pre)
        let b := if a.tail r = some x then
          { a with tail := Function.update a.tail r pre.getLast? } else a
        { b with
          next := Function.update b.next x none
          count := Function.update b.count r (b.count r - 1) })
      (Function.update q r { items := pre ++ rest, count := (q r).count - 1 }) := by
  have hold := h.holds r
  have hnodup := hold.nodup
  rw [hsplit] at hnodup
  obtain ⟨hpre, hxrest, hcross⟩ := List.nodup_append.mp hnodup
  obtain ⟨hxr, hrest⟩ := List.nodup_cons.mp hxrest
  have hxpre : x ∉ pre := fun hmem => hcross x hmem x List.mem_cons_self rfl
  have hmem : ∀ y, y ∈ pre ++ rest → y ∈ (q r).items := by
    intro y hy
    rw [hsplit]
    rcases List.mem_append.mp hy with hy | hy
    · exact List.mem_append_left _ hy
    · exact List.mem_append_right _ (List.mem_cons_of_mem x hy)
  have hxmem : x ∈ (q r).items := by simp [hsplit]
  have hchain := hold.chain
  rw [hsplit] at hchain
  obtain ⟨v, hseg, -, hsuf⟩ := segment_append.mp hchain
  have hkeeps : Queue.Exact ({ items := pre ++ rest, count := (q r).count - 1 } : Queue α) := by
    have hlen : (q r).count = (q r).items.length := hold.exact
    rw [hsplit] at hlen
    simp only [Queue.Exact, hlen, List.length_append, List.length_cons]
    omega
  -- the links after the rewriting of the cell that pointed to the element
  have hwrite : ∃ a, a = m.write r (m.next x) (cellAfter pre) ∧
      Segment a.next (a.head r) (pre ++ rest) none ∧ a.tail = m.tail ∧ a.count = m.count ∧
      (∀ r' ≠ r, a.head r' = m.head r') ∧ ∀ y, y ∉ pre → a.next y = m.next y := by
    refine ⟨_, rfl, ?_⟩
    rcases List.eq_nil_or_concat' pre with rfl | ⟨ys, y, rfl⟩
    · refine ⟨?_, rfl, rfl, fun r' hr => Function.update_of_ne hr _ _, fun _ _ => rfl⟩
      change Segment m.next (Function.update m.head r (m.next x) r) rest none
      rwa [Function.update_self]
    · have hcell : cellAfter (ys ++ [y]) = .next y := by simp [cellAfter]
      rw [hcell]
      have hy : y ∉ ys := fun hmem =>
        (List.nodup_append.mp hpre).2.2 y hmem y (List.mem_singleton_self y) rfl
      refine ⟨?_, rfl, rfl, fun _ _ => rfl, fun z hz => ?_⟩
      · refine segment_append.mpr ⟨m.next x, hseg.relink hy _, hsuf.congr fun z hz => ?_⟩
        refine Function.update_of_ne (fun heq => ?_) _ _
        exact hcross y (by simp) z (List.mem_cons_of_mem x hz) heq.symm
      · exact Function.update_of_ne (fun heq : z = y => hz (by simp [heq])) _ _
  obtain ⟨a, ha, hlinks, htail, hcount, hheads, hnexts⟩ := hwrite
  rw [← ha]
  dsimp only
  have hlast : m.tail r = (pre ++ x :: rest).getLast? := by rw [hold.tail, hsplit]
  refine h.replace ⟨?_, ?_, ?_, hkeeps, ?_⟩ ?_ ?_
  · have hclear : Segment (Function.update a.next x none) (a.head r) (pre ++ rest) none := by
      refine hlinks.congr fun y hy => Function.update_of_ne (fun heq => ?_) _ _
      rcases List.mem_append.mp (heq ▸ hy) with hy | hy
      · exact hxpre hy
      · exact hxr hy
    split <;> exact hclear
  · rw [htail]
    cases rest with
    | nil =>
        rw [if_pos (by rw [hlast, List.getLast?_concat]), List.append_nil]
        exact Function.update_self ..
    | cons y ys =>
        have hne : m.tail r ≠ some x := by
          intro heq
          rw [hlast, List.getLast?_append_cons, List.getLast?_cons_cons] at heq
          exact hxr (List.mem_of_getLast? heq)
        rw [if_neg hne]
        change a.tail r = (pre ++ y :: ys).getLast?
        rw [htail, hlast, List.getLast?_append_cons, List.getLast?_append_cons,
          List.getLast?_cons_cons]
  · have hself : Function.update a.count r (a.count r - 1) r = (q r).count - 1 := by
      rw [Function.update_self, hcount, hold.count]
    split <;> exact hself
  · exact List.nodup_append.mpr ⟨hpre, hrest, fun y hy z hz =>
      hcross y hy z (List.mem_cons_of_mem x hz)⟩
  · intro r' hr y hy hy'
    exact hr (h.apart r' r y hy' (hmem y hy))
  · intro r' hr
    have hnext : ∀ y ∈ (q r').items, Function.update a.next x none y = m.next y := by
      intro y hy
      have hout : ∀ z ∈ (q r).items, y ≠ z := fun z hz heq => hr (h.apart r' r y hy (heq ▸ hz))
      rw [Function.update_of_ne (hout x hxmem)]
      exact hnexts y fun hyp => hout y (hmem y (List.mem_append_left _ hyp)) rfl
    split
    · exact ⟨hheads r' hr, (Function.update_of_ne hr _ _).trans (congrFun htail r'),
        (Function.update_of_ne hr _ _).trans (congrFun hcount r'), hnext⟩
    · exact ⟨hheads r' hr, congrFun htail r',
        (Function.update_of_ne hr _ _).trans (congrFun hcount r'), hnext⟩

/-- The walk has passed `pre` and not met the element. -/
theorem Rep.removeLoop (h : Rep m q) (pre : List α) {suf : List α}
    (hsplit : (q r).items = pre ++ suf) (hx : x ∉ pre) {fuel : Nat} (hfuel : suf.length < fuel) :
    ∃ m', removeLoop r x m fuel (cellAfter pre) pre.getLast? = some (((q r).remove x).1, m') ∧
      Rep m' (Function.update q r ((q r).remove x).2) := by
  induction fuel generalizing pre suf with
  | zero => omega
  | succ fuel ih =>
      have hread := (h.holds r).read hsplit
      unfold Links.removeLoop
      cases suf with
      | nil =>
          have hnot : x ∉ (q r).items := by
            rw [hsplit, List.append_nil]
            exact hx
          rw [hread, Queue.remove_of_not_mem hnot, Function.update_eq_self]
          exact ⟨m, rfl, h⟩
      | cons y rest =>
          rw [hread]
          dsimp only [List.head?_cons]
          by_cases hyx : y = x
          · subst hyx
            have hmem : y ∈ (q r).items := by simp [hsplit]
            have herase : (q r).items.erase y = pre ++ rest := by
              rw [hsplit, List.erase_append_right _ hx, List.erase_cons_head]
            rw [if_pos rfl, Queue.remove_of_mem hmem, herase]
            exact ⟨_, rfl, h.unlink hsplit⟩
          · rw [if_neg hyx]
            have hcell : (Cell.next y : Cell α) = cellAfter (pre ++ [y]) := by simp [cellAfter]
            have hprev : some y = (pre ++ [y]).getLast? := by simp
            rw [hcell, hprev]
            refine ih (pre ++ [y]) (by rw [hsplit, List.append_cons]) ?_ (Nat.lt_of_succ_lt_succ hfuel)
            intro hmem
            rcases List.mem_append.mp hmem with hmem | hmem
            · exact hx hmem
            · exact hyx (List.mem_singleton.mp hmem).symm

theorem Rep.remove (h : Rep m q) (r : ρ) (x : α) {fuel : Nat} (hfuel : (q r).items.length < fuel) :
    ∃ m', m.remove fuel r x = some (((q r).remove x).1, m') ∧
      Rep m' (Function.update q r ((q r).remove x).2) :=
  h.removeLoop [] rfl (by simp) hfuel

end Refinement

end Links

end Foundation
