import Microthread.Model.Stack

/-!
# The sizes of stacks

`mt_stack_alloc` tests the requested size against a lower bound only. Rounding it up to
pages and adding the guard page are additions of `size_t`, and a request near `SIZE_MAX`
makes them wrap: the stack is then smaller than requested. `alloc_sound_iff` says for
which requests this cannot happen.
-/

namespace Microthread

namespace Stack

variable {guards : GuardPages} {page requestedSize : Nat} {os : StackAnswers}

/-- The size that `mt_stack_alloc` works with. -/
def effectiveSize (requestedSize : Nat) : Nat :=
  if requestedSize = 0 then defaultStackSizeBytes else requestedSize

/-- The least multiple of the page size that is not below `value`. -/
def ceilPages (page value : Nat) : Nat := (value + (page - 1)) / page * page

def guardSizeOf (page : Nat) : GuardPages → Nat
  | .enabled => page
  | .disabled => 0

/-- A stack of whole pages that is large enough and lies in its mapping above the guard. -/
structure Sound (page size : Nat) (k : Stack) : Prop where
  pages : page ∣ k.usableSize
  enough : size ≤ k.usableSize
  exact : k.mappingSize = k.usableSize + k.guardSize
  inside : ∃ mapping usable, k.mapping = some mapping ∧ k.usable = some usable ∧
    mapping + k.guardSize ≤ usable ∧ usable + k.usableSize ≤ mapping + k.mappingSize

/-- What `mt_stack_alloc` promises of its result. -/
def Delivers (page size : Nat) (r : Rc × Stack) : Prop :=
  (r.1 = .ok ∧ r.2.Sound page size) ∨ (r.1 ≠ .ok ∧ r.2 = {})

/-- The mapping has room for the rounded size and the guard, or the request is refused: it is
too small, or the length of its mapping wraps to zero. -/
def Fits (guards : GuardPages) (page requestedSize : Nat) : Prop :=
  effectiveSize requestedSize < minStackSizeBytes ∨
    ceilPages page (effectiveSize requestedSize) + guardSizeOf page guards < 2 ^ 64 ∨
    (guards = .enabled ∧
      (ceilPages page (effectiveSize requestedSize) + page) % 2 ^ 64 = 0)

theorem ceilPages_dvd (page value : Nat) : page ∣ ceilPages page value := Nat.dvd_mul_left _ _

theorem ceilPages_bounds (hp : 0 < page) (value : Nat) :
    value ≤ ceilPages page value ∧ ceilPages page value < value + page := by
  have hdiv := Nat.div_add_mod (value + (page - 1)) page
  have hmod := Nat.mod_lt (value + (page - 1)) hp
  have hcomm : page * ((value + (page - 1)) / page) = ceilPages page value := Nat.mul_comm _ _
  omega

/-- The two ways to round up agree. -/
theorem ceilPages_eq (hp : 0 < page) (value : Nat) : ceilPages page value =
    if value % page = 0 then value else value + (page - value % page) := by
  have hrem := Nat.mod_lt value hp
  have hdiv := Nat.div_add_mod value page
  have hcomm : page * (value / page) = value / page * page := Nat.mul_comm _ _
  by_cases h0 : value % page = 0
  · have hq : (value + (page - 1)) / page = value / page := by
      refine Nat.div_eq_of_lt_le ?_ ?_
      · omega
      · rw [Nat.succ_mul]
        omega
    rw [ceilPages, hq, if_pos h0]
    omega
  · have hq : (value + (page - 1)) / page = value / page + 1 := by
      refine Nat.div_eq_of_lt_le ?_ ?_
      · rw [Nat.succ_mul]
        omega
      · rw [Nat.succ_mul, Nat.succ_mul]
        omega
    rw [ceilPages, hq, if_neg h0, Nat.succ_mul]
    omega

/-- `mt_round_up` rounds up modulo `2 ^ 64`. -/
theorem roundUp_eq (hp : 0 < page) {value : Nat} (hv : value < 2 ^ 64) :
    roundUp value page = ceilPages page value % 2 ^ 64 := by
  rw [roundUp, if_neg (by omega), ceilPages_eq hp]
  by_cases h0 : value % page = 0
  · simp only [h0, if_true]
    exact (Nat.mod_eq_of_lt hv).symm
  · simp only [h0, if_false]
    rfl

theorem Sound.delivers {size : Nat} {k : Stack} (h : k.Sound page size) :
    Delivers page size (.ok, k) := .inl ⟨rfl, h⟩

theorem delivers_error {size : Nat} {rc : Rc} (h : rc ≠ .ok) : Delivers page size (rc, {}) :=
  .inr ⟨h, rfl⟩

/-- A result that wraps is no stack of the requested size. -/
theorem not_delivers {size : Nat} {k : Stack}
    (h : k.usableSize < size ∨ k.mappingSize ≠ k.usableSize + k.guardSize) :
    ¬Delivers page size (.ok, k) := by
  rintro (⟨-, hsound⟩ | ⟨hok, -⟩)
  · rcases h with h | h
    · exact absurd hsound.enough (Nat.not_le.mpr h)
    · exact h hsound.exact
  · exact hok rfl

theorem alloc_disabled (hp : 0 < page) (hpage : page < 2 ^ 64) (hreq : requestedSize < 2 ^ 64) :
    (∀ os, Delivers page (effectiveSize requestedSize)
      (stackAlloc .disabled page os requestedSize)) ↔ Fits .disabled page requestedSize := by
  have hsize : effectiveSize requestedSize < 2 ^ 64 := by
    rw [effectiveSize]
    split
    · decide
    · exact hreq
  have hround := roundUp_eq hp hsize
  obtain ⟨hle, hlt⟩ := ceilPages_bounds hp (effectiveSize requestedSize)
  have hdvd := ceilPages_dvd page (effectiveSize requestedSize)
  simp only [stackAlloc, Fits, guardSizeOf, malloc]
  rw [← effectiveSize]
  generalize effectiveSize requestedSize = size at *
  generalize ceilPages page size = ceil at *
  rw [hround]
  by_cases hsmall : size < minStackSizeBytes
  · simp only [hsmall, if_true, true_or, iff_true]
    exact fun _ => delivers_error (by decide)
  · simp only [hsmall, if_false, false_or, reduceCtorEq, false_and, or_false, add_zero]
    constructor
    · intro h
      by_contra hwrap
      refine not_delivers (.inl ?_) (h { address := some 0, protectOk := true })
      change ceil % 2 ^ 64 < size
      omega
    · intro hfit os
      rw [Nat.mod_eq_of_lt hfit]
      cases os.address with
      | none => exact delivers_error (by decide)
      | some mapping =>
          exact Sound.delivers
            ⟨hdvd, hle, rfl, mapping, mapping, rfl, rfl, le_refl _, le_refl _⟩

theorem alloc_enabled (hp : 0 < page) (hpage : page < 2 ^ 64) (hreq : requestedSize < 2 ^ 64) :
    (∀ os, Delivers page (effectiveSize requestedSize)
      (stackAlloc .enabled page os requestedSize)) ↔ Fits .enabled page requestedSize := by
  have hsize : effectiveSize requestedSize < 2 ^ 64 := by
    rw [effectiveSize]
    split
    · decide
    · exact hreq
  have hround := roundUp_eq hp hsize
  obtain ⟨hle, hlt⟩ := ceilPages_bounds hp (effectiveSize requestedSize)
  have hdvd := ceilPages_dvd page (effectiveSize requestedSize)
  have htotal : sizeAdd (roundUp (effectiveSize requestedSize) page) page =
      (ceilPages page (effectiveSize requestedSize) + page) % 2 ^ 64 := by
    rw [hround]
    exact Nat.mod_add_mod _ _ _
  simp only [stackAlloc, Fits, guardSizeOf, mmap]
  rw [← effectiveSize]
  generalize effectiveSize requestedSize = size at *
  generalize ceilPages page size = ceil at *
  simp only [hround] at htotal ⊢
  simp only [htotal]
  by_cases hsmall : size < minStackSizeBytes
  · simp only [hsmall, if_true, true_or, iff_true]
    exact fun _ => delivers_error (by decide)
  · simp only [hsmall, if_false, false_or, true_and]
    by_cases hzero : (ceil + page) % 2 ^ 64 = 0
    · simp only [hzero, if_true, or_true, iff_true]
      exact fun _ => delivers_error (by decide)
    · simp only [hzero, if_false, or_false]
      constructor
      · intro h
        by_contra hwrap
        refine not_delivers ?_ (h { address := some 0, protectOk := true })
        by_cases hceil : ceil < 2 ^ 64
        · refine .inr ?_
          change (ceil + page) % 2 ^ 64 ≠ ceil % 2 ^ 64 + page
          omega
        · refine .inl ?_
          change ceil % 2 ^ 64 < size
          omega
      · intro hfit os
        rw [Nat.mod_eq_of_lt hfit, Nat.mod_eq_of_lt (by omega)]
        cases os.address with
        | none => exact delivers_error (by decide)
        | some mapping =>
            cases os.protectOk with
            | false => exact delivers_error (by decide)
            | true =>
                refine Sound.delivers
                  ⟨hdvd, hle, rfl, mapping, mapping + page, rfl, rfl, le_refl _, ?_⟩
                change mapping + page + ceil ≤ mapping + (ceil + page)
                omega

/-- The scheduler's view of `mt_stack_alloc` gives the code that the sizes give, for a mapping
whose length is not zero. -/
theorem rt_stackAlloc_rc (s : Rt) (page mapping size : Nat)
    (h : sizeAdd (roundUp (effectiveSize size) page) page ≠ 0) :
    (s.stackAlloc size).1 =
      (stackAlloc .enabled page
        { address := if s.ask.1 then some mapping else none, protectOk := s.ask.2.ask.1 }
        size).1 := by
  simp only [Rt.stackAlloc, stackAlloc, mmap]
  rw [← effectiveSize, if_neg h]
  by_cases hsmall : effectiveSize size < minStackSizeBytes
  · simp only [hsmall, if_true]
  · simp only [hsmall, if_false]
    rcases s.ask with ⟨_ | _, s₁⟩
    · rfl
    · rcases hguard : s₁.ask with ⟨_ | _, s₂⟩
      · simp [hguard]
      · simp [hguard]

/-- `mt_stack_alloc` keeps its promise, whatever the operating system answers, if and only if
the exact size of the mapping is below `2 ^ 64` or the request is refused before. -/
theorem alloc_sound_iff (guards : GuardPages) (hp : 0 < page) (hpage : page < 2 ^ 64)
    (hreq : requestedSize < 2 ^ 64) :
    (∀ os, Delivers page (effectiveSize requestedSize)
      (stackAlloc guards page os requestedSize)) ↔ Fits guards page requestedSize := by
  cases guards with
  | enabled => exact alloc_enabled hp hpage hreq
  | disabled => exact alloc_disabled hp hpage hreq

/-- The largest size with room for the guard page is granted, and one page more is refused, since
the length of its mapping is zero. With one byte more the mapping is the guard alone. -/
theorem alloc_sound_iff_last :
    (∀ os, Delivers 4096 (effectiveSize (2 ^ 64 - 8192))
      (stackAlloc .enabled 4096 os (2 ^ 64 - 8192))) ∧
    (∀ os, Delivers 4096 (effectiveSize (2 ^ 64 - 4096))
      (stackAlloc .enabled 4096 os (2 ^ 64 - 4096))) ∧
    ¬∀ os, Delivers 4096 (effectiveSize (2 ^ 64 - 4095))
      (stackAlloc .enabled 4096 os (2 ^ 64 - 4095)) := by
  refine ⟨?_, ?_, fun hall => ?_⟩
  · exact (alloc_sound_iff .enabled (by decide) (by decide) (by decide)).mpr (.inr (.inl (by decide)))
  · exact (alloc_sound_iff .enabled (by decide) (by decide) (by decide)).mpr
      (.inr (.inr ⟨rfl, by decide⟩))
  · have hfits := (alloc_sound_iff .enabled (by decide) (by decide) (by decide)).mp hall
    revert hfits
    unfold Fits
    decide

/-- A request of `SIZE_MAX` bytes is granted with the guard page alone. -/
theorem alloc_largest_wraps :
    stackAlloc .enabled 4096 { address := some 8192, protectOk := true } (2 ^ 64 - 1) =
      (.ok, { mapping := some 8192, mappingSize := 4096, usable := some 12288, usableSize := 0
              guardSize := 4096, allocKind := .mmap }) ∧
    ¬Delivers 4096 (effectiveSize (2 ^ 64 - 1))
      (stackAlloc .enabled 4096 { address := some 8192, protectOk := true } (2 ^ 64 - 1)) := by
  have heq : stackAlloc .enabled 4096 { address := some 8192, protectOk := true } (2 ^ 64 - 1) =
      (.ok, { mapping := some 8192, mappingSize := 4096, usable := some 12288, usableSize := 0
              guardSize := 4096, allocKind := .mmap }) := by decide +kernel
  refine ⟨heq, ?_⟩
  rw [heq]
  exact not_delivers (.inl (by decide))

end Stack

end Microthread
