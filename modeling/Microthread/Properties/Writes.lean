import Microthread.Model.Writing

/-!
# The write loops send an exact prefix

The operating system takes a prefix of what a round offers it, and the loop offers the
bytes after those already taken. So the bytes taken so far are always the first `total`
bytes of the buffer, and only a round that stops the loop ends it before the last one.
-/

namespace Microthread.Io

/-- The round ends the loop: the system call failed for good, or the wait did not succeed. -/
def Round.Stops (deadlineNs : Nat) (round : Round) : Prop :=
  match round.answer with
  | .takes _ => False
  | .failed err =>
    err ≠ .eintr ∧ ((err ≠ .eagain ∧ err ≠ .ewouldblock) ∨
      round.waitWrite (timeoutLeftMs deadlineNs round.nowNs) ≠ .ok)

/-- What a caller may rely on after a write of the whole of `buf` with these rounds. -/
structure Written.Exact (w : Written) (buf : List Byte) (deadlineNs : Nat)
    (rounds : List Round) : Prop where
  accepted_eq : w.accepted = buf.take w.result.toNat
  result_ne : w.result ≠ 0
  result_le : w.result ≤ buf.length
  short : 0 < w.result → w.result < buf.length →
    ∃ before round, rounds = before ++ round :: w.rest ∧ round.Stops deadlineNs
  refused : w.result < 0 → w.accepted = []

theorem toSsize_of_le {n : Nat} (h : n ≤ ssizeMax) : toSsize n = n := by
  unfold ssizeMax at h
  exact Int.bmod_eq_of_le (by omega) (by omega)

theorem toInt_neg {rc : Rc} (h : rc ≠ .ok) : rc.toInt < 0 := by
  cases rc <;> first | exact absurd rfl h | decide

theorem ioErrorFromErrno_ne (err : Errno) : ioErrorFromErrno true err ≠ .ok := by
  cases err <;> decide

section Loop

variable {p : List Byte} {deadlineNs total : Nat} {accepted : List Byte} {w : Written}

/-- A round that takes bytes, or none, goes on after them. -/
theorem fdWriteLoop_takes (n : Nat) {round : Round} {rounds : List Round}
    (hans : round.answer = .takes n) (hlt : total < p.length) (hmax : p.length ≤ ssizeMax) :
    fdWriteLoop p p.length deadlineNs total accepted (round :: rounds) =
      fdWriteLoop p p.length deadlineNs (total + min n (p.length - total))
        (accepted ++ (p.drop total).take n) rounds := by
  have hoffered : (p.drop total).take (p.length - total) = p.drop total :=
    List.take_of_length_le (by simp)
  have hlen : ((p.drop total).take n).length = min n (p.length - total) := by simp
  unfold ssizeMax at hmax
  rw [fdWriteLoop, if_pos hlt, hans]
  simp only [osWrite, hoffered, hlen]
  by_cases hzero : min n (p.length - total) = 0
  · have hnil : (p.drop total).take n = [] := List.length_eq_zero_iff.mp (hlen.trans hzero)
    simp [hzero, hnil]
  · have hpos : ((min n (p.length - total) : Nat) : Int) > 0 := by omega
    have hmod : (total + min n (p.length - total)) % 2 ^ 64 = total + min n (p.length - total) :=
      Nat.mod_eq_of_lt (by omega)
    rw [if_pos hpos, Int.toNat_natCast, hmod]

/-- A round whose call fails ends the loop or leaves it where it was. -/
theorem fdWriteLoop_failed (err : Errno) {round : Round} {rounds : List Round}
    (hans : round.answer = .failed err) (hlt : total < p.length) :
    (¬round.Stops deadlineNs ∧
      fdWriteLoop p p.length deadlineNs total accepted (round :: rounds) =
        fdWriteLoop p p.length deadlineNs total accepted rounds) ∨
    (round.Stops deadlineNs ∧ ∃ rc : Rc, rc ≠ .ok ∧
      fdWriteLoop p p.length deadlineNs total accepted (round :: rounds) =
        some ⟨if total > 0 then toSsize total else rc.toInt, accepted, rounds⟩) := by
  have hstops : round.Stops deadlineNs ↔ err ≠ .eintr ∧ ((err ≠ .eagain ∧ err ≠ .ewouldblock) ∨
      round.waitWrite (timeoutLeftMs deadlineNs round.nowNs) ≠ .ok) := by
    simp only [Round.Stops, hans]
  rw [hstops, fdWriteLoop, if_pos hlt, hans]
  simp only [osWrite, WriteAnswer.errno]
  by_cases hintr : err = .eintr
  · left
    simp [hintr]
  by_cases hfail : err ≠ .eagain ∧ err ≠ .ewouldblock
  · right
    exact ⟨⟨hintr, .inl hfail⟩, _, ioErrorFromErrno_ne err, by simp [hintr, hfail]⟩
  by_cases hwait : round.waitWrite (timeoutLeftMs deadlineNs round.nowNs) = .ok
  · left
    simp [hintr, hfail, hwait]
  · right
    exact ⟨⟨hintr, .inr hwait⟩, _, hwait, by simp [hintr, hfail, hwait]⟩

/-- The loop has counted every byte. -/
theorem exact_full (hpos : 0 < p.length) (hmax : p.length ≤ ssizeMax) (htotal : total ≤ p.length)
    (hnot : ¬total < p.length) (rest rounds : List Round) :
    Written.Exact ⟨toSsize total, p.take total, rest⟩ p deadlineNs rounds := by
  have heq : total = p.length := by omega
  subst heq
  rw [toSsize_of_le hmax]
  exact ⟨by simp, by simp only [ne_eq]; omega, by simp, fun _ h => absurd h (by simp),
    fun h => absurd h (by simp)⟩

/-- The loop is ended by its first round. -/
theorem exact_stopped {rc : Rc} {round : Round} (hmax : p.length ≤ ssizeMax)
    (htotal : total ≤ p.length) (hrc : rc ≠ .ok) (hstops : round.Stops deadlineNs)
    (rounds : List Round) :
    Written.Exact ⟨if total > 0 then toSsize total else rc.toInt, p.take total, rounds⟩ p
      deadlineNs (round :: rounds) := by
  have hneg := toInt_neg hrc
  by_cases hsome : total > 0
  · rw [if_pos hsome, toSsize_of_le (htotal.trans hmax)]
    exact ⟨by simp, by simp only [ne_eq]; omega, by simpa using htotal,
      fun _ _ => ⟨[], round, rfl, hstops⟩, fun h => absurd h (by simp)⟩
  · obtain rfl : total = 0 := by omega
    rw [if_neg hsome]
    exact ⟨by simp [Int.toNat_of_nonpos hneg.le], by simp only [ne_eq]; omega,
      by simp only; omega, fun h => absurd h (by simp only; omega), fun _ => by simp⟩

theorem Written.Exact.cons {rounds : List Round} (h : w.Exact p deadlineNs rounds)
    (round : Round) : w.Exact p deadlineNs (round :: rounds) := by
  refine ⟨h.accepted_eq, h.result_ne, h.result_le, fun h₀ h₁ => ?_, h.refused⟩
  obtain ⟨before, last, heq, hstops⟩ := h.short h₀ h₁
  exact ⟨round :: before, last, by rw [heq, List.cons_append], hstops⟩

/-- The loop started after `total` bytes; they are what the system has accepted. -/
theorem fdWriteLoop_exact (hpos : 0 < p.length) (hmax : p.length ≤ ssizeMax)
    (rounds : List Round) (htotal : total ≤ p.length) (hacc : accepted = p.take total)
    (hrun : fdWriteLoop p p.length deadlineNs total accepted rounds = some w) :
    w.Exact p deadlineNs rounds := by
  induction rounds generalizing total accepted with
  | nil =>
      unfold fdWriteLoop at hrun
      split at hrun
      · cases hrun
      · obtain rfl := Option.some.inj hrun
        subst hacc
        exact exact_full hpos hmax htotal ‹_› _ _
  | cons round rounds ih =>
      by_cases hlt : total < p.length
      · cases hans : round.answer with
        | takes n =>
            rw [fdWriteLoop_takes n hans hlt hmax] at hrun
            have hle : total + min n (p.length - total) ≤ p.length := by omega
            refine (ih hle ?_ hrun).cons round
            rw [hacc, List.take_add, ← List.length_drop, ← List.take_eq_take_min]
        | failed err =>
            obtain ⟨-, heq⟩ | ⟨hstops, rc, hrc, heq⟩ :=
              fdWriteLoop_failed err hans hlt
            · exact (ih htotal hacc (heq ▸ hrun)).cons round
            · obtain rfl := Option.some.inj (heq.symm.trans hrun)
              subst hacc
              exact exact_stopped hmax htotal hrc hstops rounds
      · rw [fdWriteLoop, if_neg hlt] at hrun
        obtain rfl := Option.some.inj hrun
        subst hacc
        exact exact_full hpos hmax htotal hlt _ _

/-- The two loops of the source do the same on every tape. -/
theorem netWriteLoop_eq (p : List Byte) (len deadlineNs : Nat) (rounds : List Round) :
    ∀ total accepted, netWriteLoop p len deadlineNs total accepted rounds =
      fdWriteLoop p len deadlineNs total accepted rounds := by
  induction rounds with
  | nil =>
      intro total accepted
      rw [netWriteLoop, fdWriteLoop]
  | cons round rounds ih =>
      intro total accepted
      rw [netWriteLoop, fdWriteLoop]
      simp only [ih]

end Loop

section Calls

variable {buf : List Byte} {w : Written}

theorem netWrite_eq (fd : Int) (buf : Option (List Byte)) (len timeoutMs : Nat) (nbRc : Rc)
    (nowNs : Nat) (rounds : List Round) :
    netWrite fd buf len timeoutMs nbRc nowNs rounds =
      fdWrite fd buf len timeoutMs nbRc nowNs rounds := by
  unfold netWrite fdWrite
  rw [netWriteLoop_eq]

/-- A call refused before its loop has sent nothing. -/
theorem exact_refused {rc : Rc} (hrc : rc ≠ .ok) (deadlineNs : Nat) (rounds : List Round) :
    Written.Exact ⟨rc.toInt, [], rounds⟩ buf deadlineNs rounds := by
  have hneg := toInt_neg hrc
  exact ⟨by simp [Int.toNat_of_nonpos hneg.le], by simp only [ne_eq]; omega,
    by simp only; omega, fun h => absurd h (by simp only; omega), fun _ => rfl⟩

theorem fdWrite_exact (hpos : 0 < buf.length) (hmax : buf.length ≤ ssizeMax) (fd : Int)
    (timeoutMs : Nat) (nbRc : Rc) (nowNs : Nat) (rounds : List Round)
    (hrun : fdWrite fd (some buf) buf.length timeoutMs nbRc nowNs rounds = some w) :
    w.Exact buf (Rt.deadlineFromTimeout nowNs timeoutMs) rounds := by
  unfold fdWrite at hrun
  split at hrun
  · obtain rfl := Option.some.inj hrun
    exact exact_refused (by decide) _ _
  · rw [if_neg (by omega)] at hrun
    split at hrun
    · obtain rfl := Option.some.inj hrun
      exact exact_refused ‹_› _ _
    · exact fdWriteLoop_exact hpos hmax rounds (by omega) (by simp) hrun

/-- For every buffer an object can have and every run of the operating system, both
functions send exactly the bytes they report, stop short of the last only after a failure
or a wait that did not succeed, and agree with each other. -/
theorem writes_send_prefix_exactly (fd : Int) (buf : List Byte) (timeoutMs : Nat) (nbRc : Rc)
    (nowNs : Nat) (rounds : List Round) (hpos : 0 < buf.length)
    (hmax : buf.length ≤ ssizeMax) :
    (∀ w, fdWrite fd (some buf) buf.length timeoutMs nbRc nowNs rounds = some w →
      w.Exact buf (Rt.deadlineFromTimeout nowNs timeoutMs) rounds) ∧
    (∀ w, netWrite fd (some buf) buf.length timeoutMs nbRc nowNs rounds = some w →
      w.Exact buf (Rt.deadlineFromTimeout nowNs timeoutMs) rounds) ∧
    netWrite fd (some buf) buf.length timeoutMs nbRc nowNs rounds =
      fdWrite fd (some buf) buf.length timeoutMs nbRc nowNs rounds := by
  refine ⟨fun w => fdWrite_exact hpos hmax fd timeoutMs nbRc nowNs rounds, fun w hrun => ?_,
    netWrite_eq ..⟩
  rw [netWrite_eq] at hrun
  exact fdWrite_exact hpos hmax fd timeoutMs nbRc nowNs rounds hrun

/-- A short write, an interrupted call, a wait that succeeds and one that times out. -/
def interruptedRounds : List Round :=
  [⟨.takes 2, 0, fun _ => .ok⟩, ⟨.failed .eintr, 0, fun _ => .ok⟩,
    ⟨.failed .eagain, 1, fun _ => .ok⟩, ⟨.takes 1, 1, fun _ => .ok⟩,
    ⟨.failed .ewouldblock, 2, fun _ => .timeout⟩, ⟨.takes 5, 2, fun _ => .ok⟩]

theorem writes_send_prefix_exactly_interrupted :
    ∃ w, fdWrite 3 (some [1, 2, 3, 4, 5]) 5 10 .ok 0 interruptedRounds = some w ∧
      w.result = 3 ∧ w.accepted = [1, 2, 3] ∧
      w.Exact [1, 2, 3, 4, 5] (Rt.deadlineFromTimeout 0 10) interruptedRounds :=
  ⟨_, rfl, by decide, by decide,
    (writes_send_prefix_exactly 3 [1, 2, 3, 4, 5] 10 .ok 0 interruptedRounds (by decide)
      (by decide)).1 _ rfl⟩

end Calls

end Microthread.Io
