import Mathlib.Logic.Function.Basic
import Microthread.Foundation.Machine

/-!
# One mutex, and code that is handed from thread to thread

Threads run code of their own and tasks. A task switches back to the thread that runs it, and
another thread may go on with it later. There is one mutex, and it is the threads that own it.
`Code` is what a program does with the mutex on each of its paths, and `Code.check` follows all
paths at once. `Program.disciplined_of_reach` says what a program whose functions pass the check
does in every interleaving: whoever locks the mutex does not own it, whoever unlocks it does, a
task switches to its thread while the thread owns it, a thread to a task and a call back to its
caller while it does not.
-/

namespace Foundation.Locking

universe u

/-- What a program does with the mutex, and where it switches. `κ` are the calls of the operating
system that may block. -/
inductive Op (κ : Type u) where
  | acquire | release
  /-- a task switches to the thread that runs it -/
  | park
  /-- a thread switches to a task -/
  | dispatch
  | block (call : κ)
  deriving DecidableEq

/-- The paths through a function. -/
inductive Code (κ : Type u) where
  | skip
  | op (o : Op κ)
  | seq (a b : Code κ)
  | alt (a b : Code κ)
  | loop (a : Code κ)
  /-- `a` in a task, `b` in code of the thread itself -/
  | onTask (a b : Code κ)
  | call (a : Code κ)
  | ret
  /-- leave the innermost loop -/
  | leave
  deriving DecidableEq

namespace Code

variable {κ : Type u}

/-- One after another. -/
def steps (l : List (Code κ)) : Code κ := l.foldr seq skip

/-- The body of an `if` without an `else`. -/
def maybe (a : Code κ) : Code κ := alt a skip

end Code

namespace Op

variable {κ : Type u} (tol : κ → Bool)

/-- What may be done by a task or a thread, with the mutex held or not. Calls in `tol` may be made
while it is held. -/
def allowed (task held : Bool) : Op κ → Bool
  | .acquire => !held
  | .release => held
  | .park => task && held
  | .dispatch => !task && !held
  | .block call => !held || tol call

/-- Whether the mutex is held when the code goes on; a task is back on a thread then. -/
def after (held : Bool) : Op κ → Bool
  | .acquire | .dispatch => true
  | .release | .park => false
  | .block _ => held

end Op

/-- With which states of the mutex the code may be gone on with after it ends, leaves a loop or
returns. -/
structure Exits where
  next : Bool → Bool
  leave : Bool → Bool
  ret : Bool → Bool

/-- The code of a caller: the mutex is free again. -/
def Exits.caller : Exits := ⟨fun h => !h, fun _ => false, fun _ => false⟩

/-- More is allowed. -/
structure Exits.Le (x y : Exits) : Prop where
  next : ∀ h, x.next h = true → y.next h = true
  leave : ∀ h, x.leave h = true → y.leave h = true
  ret : ∀ h, x.ret h = true → y.ret h = true

namespace Code

variable {κ : Type u} (tol : κ → Bool) (task : Bool)

/-- The code keeps the discipline on every path if it starts with the mutex held or not. -/
def check : Code κ → Exits → Bool → Bool
  | .skip, x, h => x.next h
  | .op o, x, h => o.allowed tol task h && x.next (o.after h)
  | .seq a b, x, h => a.check ⟨b.check x, x.leave, x.ret⟩ h
  | .alt a b, x, h => a.check x h && b.check x h
  | .loop a, x, h => a.check ⟨fun h' => h' == h, x.next, x.ret⟩ h && x.next h
  | .onTask a b, x, h => if task then a.check x h else b.check x h
  | .call a, x, h => a.check ⟨x.next, fun _ => false, x.next⟩ h
  | .ret, x, h => x.ret h
  | .leave, x, h => x.leave h

/-- A function that is called with the mutex free keeps the discipline and returns with the mutex
free. -/
def sound (c : Code κ) : Bool := (Code.call c).check tol task .caller false

variable {tol task}

theorem check_mono {x y : Exits} (hxy : x.Le y) (c : Code κ) {h : Bool}
    (hc : c.check tol task x h = true) : c.check tol task y h = true := by
  induction c generalizing x y h with
  | skip => exact hxy.next h hc
  | op o =>
      simp only [check, Bool.and_eq_true] at hc ⊢
      exact ⟨hc.1, hxy.next _ hc.2⟩
  | seq a b iha ihb =>
      have hle : Exits.Le ⟨b.check tol task x, x.leave, x.ret⟩
          ⟨b.check tol task y, y.leave, y.ret⟩ := ⟨fun _ hb => ihb hxy hb, hxy.leave, hxy.ret⟩
      exact iha hle hc
  | alt a b iha ihb =>
      simp only [check, Bool.and_eq_true] at hc ⊢
      exact ⟨iha hxy hc.1, ihb hxy hc.2⟩
  | loop a ih =>
      simp only [check, Bool.and_eq_true] at hc ⊢
      have hle : Exits.Le ⟨fun h' => h' == h, x.next, x.ret⟩ ⟨fun h' => h' == h, y.next, y.ret⟩ :=
        ⟨fun _ hh => hh, hxy.next, hxy.ret⟩
      exact ⟨ih hle hc.1, hxy.next h hc.2⟩
  | onTask a b iha ihb =>
      simp only [check] at hc ⊢
      split
      · next ht =>
          rw [if_pos ht] at hc
          exact iha hxy hc
      · next ht =>
          rw [if_neg ht] at hc
          exact ihb hxy hc
  | call a ih =>
      have hle : Exits.Le ⟨x.next, fun _ => false, x.next⟩ ⟨y.next, fun _ => false, y.next⟩ :=
        ⟨hxy.next, fun _ hh => hh, hxy.next⟩
      exact ih hle hc
  | ret => exact hxy.ret h hc
  | leave => exact hxy.leave h hc

end Code

/-! ## Threads and tasks -/

/-- What is left to do, innermost first. -/
inductive Frame (κ : Type u) where
  | code (c : Code κ)
  /-- the end of the body of a loop -/
  | again (c : Code κ)
  /-- the return to a caller -/
  | back
  /-- code of the user, which calls functions as it likes -/
  | user
  deriving DecidableEq

inductive Strand where
  | thread (n : Nat) | task (t : Nat)
  deriving DecidableEq

structure State (κ : Type u) where
  stack : Strand → List (Frame κ)
  /-- the task that a thread runs -/
  task : Nat → Option Nat
  owner : Option Nat

/-- How a thread goes on where it has a choice. -/
inductive Choice (κ : Type u) where
  | go | left | right
  | call (f : Code κ)
  | leave
  | task (t : Nat)
  deriving DecidableEq

/-- Code that begins no operation. -/
def advance {κ : Type u} (task : Bool) : Choice κ → List (Frame κ) → Option (List (Frame κ))
  | .go, .code .skip :: k => some k
  | .go, .code (.seq a b) :: k => some (.code a :: .code b :: k)
  | .left, .code (.alt a _) :: k => some (.code a :: k)
  | .right, .code (.alt _ b) :: k => some (.code b :: k)
  | .left, .code (.loop a) :: k => some (.code a :: .again a :: k)
  | .right, .code (.loop _) :: k => some k
  | .go, .code (.onTask a b) :: k => some (.code (if task then a else b) :: k)
  | .go, .code (.call a) :: k => some (.code a :: .back :: k)
  | .go, .code .ret :: .back :: k => some k
  | .go, .code .ret :: .code _ :: k => some (.code .ret :: k)
  | .go, .code .ret :: .again _ :: k => some (.code .ret :: k)
  | .go, .code .leave :: .again _ :: k => some k
  | .go, .code .leave :: .code _ :: k => some (.code .leave :: k)
  | .go, .again a :: k => some (.code (.loop a) :: k)
  | .go, .back :: k => some k
  | .call f, .user :: k => some (.code (.call f) :: .user :: k)
  | .leave, .user :: k => some k
  | _, _ => none

namespace State

variable {κ : Type u} (s : State κ)

/-- Whose code the thread runs. -/
def strand (n : Nat) : Strand :=
  match s.task n with
  | none => .thread n
  | some t => .task t

/-- The code that thread `n` runs goes on with `k`. -/
def goOn (n : Nat) (k : List (Frame κ)) : State κ :=
  { s with stack := Function.update s.stack (s.strand n) k }

/-- Thread `n` executes an operation. Nothing keeps it from switching, blocking or unlocking
when it should not. -/
def perform (n : Nat) (k : List (Frame κ)) (choice : Choice κ) : Op κ → Option (State κ)
  | .acquire => if s.owner = none then some { s.goOn n k with owner := some n } else none
  | .release => some { s.goOn n k with owner := none }
  | .park =>
    match s.task n with
    | some _ => some { s.goOn n k with task := Function.update s.task n none }
    | none => none
  | .dispatch =>
    match s.task n, choice with
    | none, .task t => some { s.goOn n k with task := Function.update s.task n (some t) }
    | _, _ => none
  | .block _ => some (s.goOn n k)

def step : Nat × Choice κ → Option (State κ)
  | (n, choice) =>
    match s.stack (s.strand n) with
    | .code (.op o) :: k => s.perform n k choice o
    | fs => (advance (s.task n).isSome choice fs).map (s.goOn n)

end State

/-- The functions that users may call, the code of threads that are made for it, and what a task
does after its function. -/
structure Program (κ : Type u) where
  api : List (Code κ)
  threads : List (Code κ)
  tail : Code κ

namespace Program

variable {κ : Type u} (P : Program κ)

/-- Nothing has happened yet. -/
structure Initial (s : State κ) : Prop where
  owner : s.owner = none
  idle : ∀ n, s.task n = none
  thread : ∀ n, s.stack (.thread n) = [.user] ∨
    ∃ c ∈ P.threads, s.stack (.thread n) = [.code (.call c)]
  task : ∀ t, s.stack (.task t) = [.user, .code P.tail]

def machine : Machine (State κ) (Nat × Choice κ) where
  init := P.Initial
  step := State.step

/-- Users call functions of the program, and nobody switches to a task that is running: the code
leaves it to a run queue which task comes next, and that is not part of it. -/
def Obeys (s : State κ) : Nat × Choice κ → Prop
  | (_, .call f) => f ∈ P.api
  | (_, .task t) => ∀ m, s.task m ≠ some t
  | _ => True

/-- All code passes the check. -/
structure Sound (tol : κ → Bool) : Prop where
  api : ∀ f ∈ P.api, ∀ task, f.sound tol task = true
  threads : ∀ c ∈ P.threads, c.sound tol false = true
  tail : P.tail.check tol true .caller false = true

end Program

/-! ## The check is right -/

section Check

variable {κ : Type u} (tol : κ → Bool) (task : Bool)

/-- With which states of the mutex the frames may be gone on with. -/
def exits : List (Frame κ) → Exits
  | [] => .caller
  | .code c :: k => ⟨c.check tol task (exits k), (exits k).leave, (exits k).ret⟩
  | .again c :: k => ⟨(Code.loop c).check tol task (exits k), (exits k).next, (exits k).ret⟩
  | .back :: k => ⟨(exits k).next, fun _ => false, (exits k).next⟩
  | .user :: k => ⟨fun h => !h && (exits k).next false, fun _ => false, fun _ => false⟩

variable {tol task}

theorem exits_call {f : Code κ} {k : List (Frame κ)} {h : Bool} (hf : f.sound tol task = true)
    (hk : (exits tol task (.user :: k)).next h = true) :
    (exits tol task (.code (.call f) :: .user :: k)).next h = true := by
  simp only [exits, Bool.and_eq_true, Bool.not_eq_eq_eq_not, Bool.not_true] at hk
  obtain ⟨rfl, hk⟩ := hk
  have hle : Exits.caller.Le (exits tol task (.user :: k)) := by
    refine ⟨fun h hh => ?_, fun _ hh => hh, fun _ hh => hh⟩
    have hh : (!h) = true := hh
    simp only [exits, hh, hk, Bool.and_self]
  exact Code.check_mono hle _ hf

/-- Going on keeps what the check has found. -/
theorem exits_advance {choice : Choice κ} {fs k : List (Frame κ)} {h : Bool}
    (hs : advance task choice fs = some k)
    (hcall : ∀ f, choice = .call f → f.sound tol task = true)
    (hfs : (exits tol task fs).next h = true) : (exits tol task k).next h = true := by
  unfold advance at hs
  split at hs
  · cases hs
    exact hfs
  · cases hs
    exact hfs
  · cases hs
    exact (Bool.and_eq_true_iff.mp hfs).1
  · cases hs
    exact (Bool.and_eq_true_iff.mp hfs).2
  · next a k =>
      cases hs
      have hle : Exits.Le ⟨fun h' => h' == h, (exits tol task k).next, (exits tol task k).ret⟩
          (exits tol task (.again a :: k)) := by
        refine ⟨fun h' hh => ?_, fun _ hh => hh, fun _ hh => hh⟩
        rw [eq_of_beq hh]
        exact hfs
      exact Code.check_mono hle a (Bool.and_eq_true_iff.mp hfs).1
  · cases hs
    exact (Bool.and_eq_true_iff.mp hfs).2
  · cases hs
    cases task <;> exact hfs
  · cases hs
    exact hfs
  · cases hs
    exact hfs
  · cases hs
    exact hfs
  · cases hs
    exact hfs
  · cases hs
    exact hfs
  · cases hs
    exact hfs
  · cases hs
    exact hfs
  · cases hs
    exact hfs
  · next f k =>
      cases hs
      exact exits_call (hcall f rfl) hfs
  · cases hs
    simp only [exits, Bool.and_eq_true, Bool.not_eq_eq_eq_not, Bool.not_true] at hfs
    obtain ⟨rfl, hk⟩ := hfs
    exact hk
  · cases hs

end Check

/-! ## Interleavings -/

namespace State

variable {κ : Type u} {tol : κ → Bool} {s s' : State κ} {n m : Nat} {k : List (Frame κ)}

/-- Whatever operation a thread is about to perform is allowed, and where a thread runs code of the
user, or nothing any more, it does not own the mutex. -/
structure Disciplined (tol : κ → Bool) (s : State κ) : Prop where
  op : ∀ n o k, s.stack (s.strand n) = .code (.op o) :: k →
    o.allowed tol (s.task n).isSome (s.owner == some n) = true
  user : ∀ n k, s.stack (s.strand n) = .user :: k → s.owner ≠ some n
  done : ∀ n, s.stack (s.strand n) = [] → s.owner ≠ some n

/-- What runs fits the mutex as it is, a thread that runs a task will own the mutex when it goes
on itself, and a task that has parked goes on without it. -/
structure Inv (tol : κ → Bool) (s : State κ) : Prop where
  once : ∀ n m t, s.task n = some t → s.task m = some t → n = m
  current : ∀ n,
    (exits tol (s.task n).isSome (s.stack (s.strand n))).next (s.owner == some n) = true
  waiting : ∀ n, s.task n ≠ none → (exits tol false (s.stack (.thread n))).next true = true
  parked : ∀ t, (∀ n, s.task n ≠ some t) → (exits tol true (s.stack (.task t))).next false = true

/-- Which task a thread runs is its own affair. -/
theorem step_task {choice : Choice κ} (hs : s.step (n, choice) = some s') (hmn : m ≠ n) :
    s'.task m = s.task m := by
  simp only [step] at hs
  split at hs
  · next o k _ =>
      cases o with
      | acquire =>
          simp only [perform] at hs
          split at hs <;> cases hs
          rfl
      | release | block =>
          cases hs
          rfl
      | park =>
          simp only [perform] at hs
          split at hs <;> cases hs
          exact Function.update_of_ne hmn ..
      | dispatch =>
          simp only [perform] at hs
          split at hs <;> cases hs
          exact Function.update_of_ne hmn ..
  · obtain ⟨k, -, rfl⟩ := Option.map_eq_some_iff.mp hs
    rfl

theorem strand_of_none (h : s.task n = none) : s.strand n = .thread n := by
  rw [strand, h]

theorem strand_of_some {t : Nat} (h : s.task n = some t) : s.strand n = .task t := by
  rw [strand, h]

theorem Inv.strand_inj (h : s.Inv tol) (heq : s.strand n = s.strand m) : n = m := by
  cases hn : s.task n with
  | none =>
      cases hm : s.task m with
      | none =>
          rw [strand_of_none hn, strand_of_none hm] at heq
          exact Strand.thread.inj heq
      | some u =>
          rw [strand_of_none hn, strand_of_some hm] at heq
          cases heq
  | some t =>
      cases hm : s.task m with
      | none =>
          rw [strand_of_some hn, strand_of_none hm] at heq
          cases heq
      | some u =>
          rw [strand_of_some hn, strand_of_some hm] at heq
          cases heq
          exact h.once n m t hn hm

theorem Inv.disciplined (h : s.Inv tol) : s.Disciplined tol := by
  refine ⟨fun n o k hk => ?_, fun n k hk => ?_, fun n hk => ?_⟩
  · have hn := h.current n
    rw [hk] at hn
    exact (Bool.and_eq_true_iff.mp hn).1
  · have hn := h.current n
    rw [hk] at hn
    intro ho
    simp [exits, ho] at hn
  · have hn := h.current n
    rw [hk] at hn
    intro ho
    simp [exits, Exits.caller, ho] at hn

/-- A thread goes on with the code it runs. -/
theorem Inv.goes (h : s.Inv tol) (htask : s'.task = s.task)
    (hstack : s'.stack = Function.update s.stack (s.strand n) k)
    (hk : (exits tol (s.task n).isSome k).next (s'.owner == some n) = true)
    (hother : ∀ m, m ≠ n → (s'.owner == some m) = (s.owner == some m)) : s'.Inv tol := by
  have hstrand : ∀ m, s'.strand m = s.strand m := fun m => by rw [strand, strand, htask]
  refine ⟨fun n m t => htask ▸ h.once n m t, fun m => ?_, fun m hm => ?_, fun t ht => ?_⟩
  · rw [htask, hstrand, hstack]
    by_cases hmn : m = n
    · subst hmn
      rw [Function.update_self]
      exact hk
    · rw [Function.update_of_ne (fun heq => hmn (h.strand_inj heq)), hother m hmn]
      exact h.current m
  · rw [htask] at hm
    rw [hstack, Function.update_of_ne]
    · exact h.waiting m hm
    · intro heq
      cases hn : s.task n with
      | none =>
          rw [strand_of_none hn] at heq
          cases heq
          exact hm hn
      | some u =>
          rw [strand_of_some hn] at heq
          cases heq
  · rw [htask] at ht
    rw [hstack, Function.update_of_ne]
    · exact h.parked t ht
    · intro heq
      cases hn : s.task n with
      | none =>
          rw [strand_of_none hn] at heq
          cases heq
      | some u =>
          rw [strand_of_some hn] at heq
          cases heq
          exact ht n hn

theorem strand_update {v : Option Nat} (htask : s'.task = Function.update s.task n v)
    (hmn : m ≠ n) : s'.strand m = s.strand m := by
  rw [strand, strand, htask, Function.update_of_ne hmn]

/-- A task hands the mutex to the thread that runs it. -/
theorem Inv.parks (h : s.Inv tol) {t : Nat} (ht : s.task n = some t) (hown : s.owner = some n)
    (hk : (exits tol true k).next false = true) (htask : s'.task = Function.update s.task n none)
    (hstack : s'.stack = Function.update s.stack (s.strand n) k) (howner : s'.owner = s.owner) :
    s'.Inv tol := by
  have hstrand := strand_of_some ht
  have hnone : s'.task n = none := by rw [htask, Function.update_self]
  have hkeep : ∀ m, m ≠ n → s'.task m = s.task m := fun m hmn => by
    rw [htask, Function.update_of_ne hmn]
  refine ⟨fun a b u ha hb => ?_, fun m => ?_, fun m hm => ?_, fun u hu => ?_⟩
  · have hne : ∀ m, s'.task m = some u → m ≠ n := by
      rintro m hm rfl
      rw [hnone] at hm
      cases hm
    exact h.once a b u (hkeep a (hne a ha) ▸ ha) (hkeep b (hne b hb) ▸ hb)
  · by_cases hmn : m = n
    · subst hmn
      rw [strand_of_none hnone, hnone, hstack, Function.update_of_ne (by simp [hstrand]), howner,
        hown]
      simpa using h.waiting m (by simp [ht])
    · rw [strand_update htask hmn, hstack,
        Function.update_of_ne (fun heq => hmn (h.strand_inj heq)), hkeep m hmn, howner]
      exact h.current m
  · have hmn : m ≠ n := by
      rintro rfl
      exact hm hnone
    rw [hstack, Function.update_of_ne (by simp [hstrand])]
    exact h.waiting m (hkeep m hmn ▸ hm)
  · rw [hstack, hstrand]
    by_cases hut : u = t
    · subst hut
      rw [Function.update_self]
      exact hk
    · rw [Function.update_of_ne (by simpa using hut)]
      refine h.parked u fun m hm => ?_
      by_cases hmn : m = n
      · rw [hmn, ht] at hm
        exact hut (Option.some.inj hm).symm
      · exact hu m (hkeep m hmn ▸ hm)

/-- A thread switches to a task that nobody runs. -/
theorem Inv.dispatches (h : s.Inv tol) {t : Nat} (hn : s.task n = none) (hown : s.owner ≠ some n)
    (ht : ∀ m, s.task m ≠ some t) (hk : (exits tol false k).next true = true)
    (htask : s'.task = Function.update s.task n (some t))
    (hstack : s'.stack = Function.update s.stack (s.strand n) k) (howner : s'.owner = s.owner) :
    s'.Inv tol := by
  have hstrand := strand_of_none hn
  have hsome : s'.task n = some t := by rw [htask, Function.update_self]
  have hkeep : ∀ m, m ≠ n → s'.task m = s.task m := fun m hmn => by
    rw [htask, Function.update_of_ne hmn]
  refine ⟨fun a b u ha hb => ?_, fun m => ?_, fun m hm => ?_, fun u hu => ?_⟩
  · by_cases han : a = n
    · by_cases hbn : b = n
      · rw [han, hbn]
      · rw [han, hsome] at ha
        rw [hkeep b hbn, ← ha] at hb
        exact absurd hb (ht b)
    · by_cases hbn : b = n
      · rw [hbn, hsome] at hb
        rw [hkeep a han, ← hb] at ha
        exact absurd ha (ht a)
      · exact h.once a b u (hkeep a han ▸ ha) (hkeep b hbn ▸ hb)
  · by_cases hmn : m = n
    · subst hmn
      have hfree : (s.owner == some m) = false := by simpa using hown
      rw [strand_of_some hsome, hsome, hstack, Function.update_of_ne (by simp [hstrand]), howner,
        hfree]
      exact h.parked t ht
    · rw [strand_update htask hmn, hstack,
        Function.update_of_ne (fun heq => hmn (h.strand_inj heq)), hkeep m hmn, howner]
      exact h.current m
  · rw [hstack, hstrand]
    by_cases hmn : m = n
    · subst hmn
      rw [Function.update_self]
      exact hk
    · rw [Function.update_of_ne (by simpa using hmn)]
      exact h.waiting m (hkeep m hmn ▸ hm)
  · rw [hstack, hstrand, Function.update_of_ne (by simp)]
    refine h.parked u fun m hm => ?_
    by_cases hmn : m = n
    · rw [hmn, hn] at hm
      cases hm
    · exact hu m (hkeep m hmn ▸ hm)

end State

namespace Program

variable {κ : Type u} {P : Program κ} {tol : κ → Bool} {s s' : State κ}

theorem Initial.inv (h : P.Initial s) (hsound : P.Sound tol) : s.Inv tol := by
  refine ⟨fun n m t ht => ?_, fun n => ?_, fun n hn => absurd (h.idle n) hn, fun t _ => ?_⟩
  · rw [h.idle] at ht
    cases ht
  · rw [State.strand_of_none (h.idle n), h.idle, h.owner]
    rcases h.thread n with hst | ⟨c, hc, hst⟩
    · rw [hst]
      rfl
    · rw [hst]
      exact hsound.threads c hc
  · rw [h.task]
    simpa [exits] using hsound.tail

/-- One step of any thread. -/
theorem inv_step {n : Nat} {choice : Choice κ} (hsound : P.Sound tol) (h : s.Inv tol)
    (hobey : P.Obeys s (n, choice)) (hs : P.machine.step s (n, choice) = some s') : s'.Inv tol := by
  have hn := h.current n
  simp only [machine, State.step] at hs
  split at hs
  · next o k hk =>
      rw [hk] at hn
      obtain ⟨hallowed, hnext⟩ := Bool.and_eq_true_iff.mp hn
      cases o with
      | acquire =>
          simp only [State.perform] at hs
          split at hs
          · next hfree =>
              cases hs
              refine h.goes rfl rfl ?_ fun m hm => ?_
              · change (exits tol _ k).next (some n == some n) = true
                rw [beq_self_eq_true]
                exact hnext
              · change (some n == some m) = (s.owner == some m)
                rw [hfree]
                simp [Ne.symm hm]
          · cases hs
      | release =>
          cases hs
          have hown : s.owner = some n := by simpa [Op.allowed] using hallowed
          refine h.goes rfl rfl ?_ fun m hm => ?_
          · exact hnext
          · simp [hown, Ne.symm hm]
      | park =>
          simp only [State.perform] at hs
          split at hs
          · next t ht =>
              cases hs
              simp only [Op.allowed, ht, Option.isSome_some, Bool.true_and, beq_iff_eq] at hallowed
              rw [ht] at hnext
              exact h.parks ht hallowed hnext rfl rfl rfl
          · cases hs
      | dispatch =>
          simp only [State.perform] at hs
          split at hs
          · next t ht =>
              cases hs
              rw [ht] at hnext hallowed
              exact h.dispatches ht (by simpa [Op.allowed] using hallowed) hobey hnext rfl rfl rfl
          · cases hs
      | block call =>
          cases hs
          exact h.goes rfl rfl hnext fun _ _ => rfl
  · obtain ⟨k, hk, rfl⟩ := Option.map_eq_some_iff.mp hs
    refine h.goes rfl rfl (exits_advance hk (fun f hf => ?_) hn) fun _ _ => rfl
    subst hf
    exact hsound.api f hobey _

theorem disciplined_of_reach (hsound : P.Sound tol) (h : P.machine.Reach P.Obeys s) :
    s.Disciplined tol := by
  refine State.Inv.disciplined ?_
  refine h.invariant (fun s hs => hs.inv hsound) fun s act s' _ ih hobey hs => ?_
  exact inv_step hsound ih hobey hs

end Program

end Foundation.Locking
