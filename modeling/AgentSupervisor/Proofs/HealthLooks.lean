import AgentSupervisor.Health.Check
import Mathlib.Data.Nat.Find

/-!
# When a health check ends

A check ends at the first look that settles it, or when no looks are left. Looks are numbered
from one, and every look but the first has a wait before it.

* `looks_after`   : before the first look that settles it, a check goes on;
* `looks_cases`   : how the looks of a check end;
* `check_verdict` : the report of a check, and how long it takes.
-/

namespace AgentSupervisor.Health

variable {ε : Type} {read : Nat → Except ε PidRead} {table : ProcessTable}
  {patterns : List Pattern} {policy : RetryPolicy} {delay i k n : Nat}

/-! ## Looks that settle a check -/

/-- Look `k` settles a check: it fails, or finds a number, or finds nothing where an earlier look
    found an unfinished file. -/
def Settles (read : Nat → Except ε PidRead) (k : Nat) : Prop :=
  (∃ e, read k = .error e) ∨ (∃ p, read k = .ok (.found p)) ∨
    (read k = .ok .missing ∧ ∃ j, 1 ≤ j ∧ j < k ∧ read j = .ok .incomplete)

/-- None of the first `k` looks settles a check. -/
def Open (read : Nat → Except ε PidRead) (k : Nat) : Prop :=
  ∀ j, 1 ≤ j → j ≤ k → ¬ Settles read j

/-- The first look that settles a check. -/
structure First (read : Nat → Except ε PidRead) (i : Nat) : Prop where
  pos : 1 ≤ i
  settles : Settles read i
  earlier : ∀ j, 1 ≤ j → j < i → ¬ Settles read j

theorem First.open_pred (h : First read i) : Open read (i - 1) := fun j h1 h2 =>
  h.earlier j h1 (by have := h.pos; omega)

theorem Open.mono {m : Nat} (h : Open read k) (hm : m ≤ k) : Open read m :=
  fun j h1 h2 => h j h1 (by omega)

/-- Among looks one of which settles a check there is a first one. -/
theorem open_or_first (read : Nat → Except ε PidRead) (n : Nat) :
    Open read n ∨ ∃ i, i ≤ n ∧ First read i := by
  classical
  by_cases h : ∃ j, 1 ≤ j ∧ j ≤ n ∧ Settles read j
  · obtain ⟨h1, hn, hs⟩ := Nat.find_spec h
    refine .inr ⟨Nat.find h, hn, h1, hs, fun j hj1 hj hset => ?_⟩
    exact Nat.find_min h hj ⟨hj1, by omega, hset⟩
  · exact .inl fun j h1 hn hs => h ⟨j, h1, hn, hs⟩

/-- Has one of the first `k` looks found an unfinished file? -/
def seen (read : Nat → Except ε PidRead) : (k : Nat) → Bool
  | 0 => false
  | k + 1 =>
    match read (k + 1) with
    | .ok .incomplete => true
    | _ => seen read k

theorem seen_iff : seen read k = true ↔ ∃ j, 1 ≤ j ∧ j < k + 1 ∧ read j = .ok .incomplete := by
  induction k with
  | zero =>
    constructor
    · intro h
      cases h
    · rintro ⟨j, h1, h2, -⟩
      omega
  | succ k ih =>
    constructor
    · intro h
      unfold seen at h
      split at h
      · rename_i hread
        exact ⟨k + 1, by omega, by omega, hread⟩
      · obtain ⟨j, h1, h2, hj⟩ := ih.mp h
        exact ⟨j, h1, by omega, hj⟩
    · rintro ⟨j, h1, h2, hj⟩
      unfold seen
      split
      · rfl
      · rename_i hread
        have hne : j ≠ k + 1 := fun e => hread (e ▸ hj)
        exact ih.mpr ⟨j, h1, by omega, hj⟩

/-! ## One look -/

/-- How a look that settles a check ends it. -/
def endingOf : Except ε PidRead → Ending ε
  | .error e => .failed e
  | .ok (.found p) => .pid p
  | .ok .missing => .vanished
  | .ok .incomplete => .exhausted

theorem look_settled (hs : Settles read (k + 1)) (left slept : Nat) :
    look read delay (left + 1) k slept (seen read k) =
      ⟨endingOf (read (k + 1)), k + 1, slept⟩ := by
  rcases hs with ⟨e, he⟩ | ⟨p, hp⟩ | ⟨hm, hj⟩
  · simp only [look, he, endingOf]
  · simp only [look, hp, endingOf]
  · simp only [look, hm, endingOf, seen_iff.mpr hj, if_true]

theorem look_open (hs : ¬ Settles read (k + 1)) (left slept : Nat) :
    look read delay (left + 1) k slept (seen read k) =
      look read delay left (k + 1) (slept + if left = 0 then 0 else delay)
        (seen read (k + 1)) := by
  cases hread : read (k + 1) with
  | error e => exact absurd (.inl ⟨e, hread⟩) hs
  | ok r =>
    cases r with
    | found p => exact absurd (.inr (.inl ⟨p, hread⟩)) hs
    | incomplete => simp only [look, seen, hread]
    | missing =>
      have hseen : seen read k = false := by
        rw [Bool.eq_false_iff]
        exact fun h => hs (.inr (.inr ⟨hread, seen_iff.mp h⟩))
      simp only [look, seen, hread, hseen, Bool.false_eq_true, if_false]

/-! ## All looks -/

/-- **While nothing is settled a check goes on**, and its look `k + 1` has `k` waits before it. -/
theorem looks_after (hk : k < n) (h : Open read k) :
    look read delay n 0 0 false = look read delay (n - k) k (k * delay) (seen read k) := by
  induction k with
  | zero => rw [Nat.sub_zero, Nat.zero_mul]; rfl
  | succ k ih =>
    have hleft : n - k = n - (k + 1) + 1 := by omega
    rw [ih (by omega) (h.mono (by omega)), hleft, look_open (h (k + 1) (by omega) (by omega)),
      if_neg (by omega), Nat.succ_mul]

theorem looks_first (hi : i ≤ n) (h : First read i) :
    look read delay n 0 0 false = ⟨endingOf (read i), i, (i - 1) * delay⟩ := by
  have hpos := h.pos
  have hleft : n - (i - 1) = n - i + 1 := by omega
  have hset : Settles read (i - 1 + 1) := by rw [Nat.sub_add_cancel hpos]; exact h.settles
  rw [looks_after (by omega) h.open_pred, hleft, look_settled hset, Nat.sub_add_cancel hpos]

theorem looks_open (hn : 1 ≤ n) (h : Open read n) :
    look read delay n 0 0 false = ⟨.exhausted, n, (n - 1) * delay⟩ := by
  have hleft : n - (n - 1) = 0 + 1 := by omega
  have hbefore : Open read (n - 1) := h.mono (Nat.sub_le n 1)
  have hlast : ¬ Settles read (n - 1 + 1) := by
    rw [Nat.sub_add_cancel hn]; exact h n hn (Nat.le_refl n)
  -- the last look is followed by no wait
  rw [looks_after (by omega) hbefore, hleft, look_open hlast, if_pos rfl,
    Nat.sub_add_cancel hn, look, Nat.add_zero]

theorem attempts_pos (policy : RetryPolicy) : 1 ≤ policy.attempts := Nat.le_max_left 1 _

/-- **How the looks of a check end.** -/
theorem looks_cases (read : Nat → Except ε PidRead) (policy : RetryPolicy) :
    Open read policy.attempts ∧
        looks read policy =
          ⟨.exhausted, policy.attempts, (policy.attempts - 1) * policy.delay.toNat⟩ ∨
      ∃ i, i ≤ policy.attempts ∧ First read i ∧
        looks read policy = ⟨endingOf (read i), i, (i - 1) * policy.delay.toNat⟩ := by
  rcases open_or_first read policy.attempts with h | ⟨i, hi, h⟩
  · exact .inl ⟨h, looks_open (attempts_pos policy) h⟩
  · exact .inr ⟨i, hi, h, looks_first hi h⟩

/-- A number that ends the looks was found by one of them. -/
theorem looks_found {read : Nat → Except ε PidRead} {policy : RetryPolicy} {p : UInt32}
    (h : (looks read policy).ending = .pid p) : ∃ k, read k = .ok (.found p) := by
  rcases looks_cases read policy with ⟨-, hl⟩ | ⟨i, -, -, hl⟩
  · rw [hl] at h
    cases h
  · rw [hl] at h
    refine ⟨i, ?_⟩
    cases hr : read i with
    | error e =>
      rw [hr] at h
      cases h
    | ok r =>
      rw [hr] at h
      cases r <;> cases h
      rfl

/-- Each look that is made has a wait before it, except the first, and no wait is left over. -/
theorem looks_pace (read : Nat → Except ε PidRead) (policy : RetryPolicy) (k : Nat)
    (hk : k < (looks read policy).reads) :
    looks read policy = look read policy.delay.toNat (policy.attempts - k) k
      (k * policy.delay.toNat) (seen read k) := by
  have hn := attempts_pos policy
  rcases looks_cases read policy with ⟨h, hl⟩ | ⟨i, hi, h, hl⟩
  · rw [hl] at hk
    exact looks_after hk (h.mono (Nat.le_of_lt hk))
  · rw [hl] at hk
    have hki : k < i := hk
    exact looks_after (by omega) (h.open_pred.mono (by omega))

theorem looks_slept (read : Nat → Except ε PidRead) (policy : RetryPolicy) :
    (looks read policy).slept = ((looks read policy).reads - 1) * policy.delay.toNat := by
  rcases looks_cases read policy with ⟨-, hl⟩ | ⟨i, -, -, hl⟩
  · rw [hl]
  · rw [hl]

/-! ## Reports -/

/-- What tells that the process of a number is not there, or is another one. -/
def Foreign (table : ProcessTable) (patterns : List Pattern) (p : UInt32) : Prop :=
  table p = none ∨ ∃ line, table p = some (some line) ∧ Pattern.acceptsAny patterns line = false

theorem judge_cases (table : ProcessTable) (patterns : List Pattern) (p : UInt32) :
    Foreign table patterns p ∧ judge table patterns p = .crashed ∨
      ¬ Foreign table patterns p ∧ judge table patterns p = .alive p := by
  unfold judge Foreign
  cases table p with
  | none => simp
  | some line =>
    cases line with
    | none => simp
    | some line => cases Pattern.acceptsAny patterns line <;> simp

/-- A process that is reported alive is the one whose number was found. -/
theorem reportOf_alive {l : Looks ε} {p a : UInt32}
    (h : reportOf table patterns l = .ok ⟨.alive p, a⟩) : l.ending = .pid p := by
  unfold reportOf at h
  cases hl : l.ending with
  | pid q =>
    simp only [hl, Except.ok.injEq, Report.mk.injEq] at h
    rcases judge_cases table patterns q with ⟨-, hj⟩ | ⟨-, hj⟩
    · rw [hj] at h
      cases h.1
    · rw [hj] at h
      rw [Health.alive.inj h.1]
  | failed e =>
    rw [hl] at h
    cases h
  | vanished =>
    rw [hl] at h
    cases h
  | exhausted =>
    rw [hl] at h
    cases h

theorem toNat_count (hi : i ≤ policy.attempts) : (UInt32.ofNat i).toNat = i := by
  have hmax : policy.maxAttempts.toNat < 2 ^ 32 := policy.maxAttempts.toNat_lt
  refine UInt32.toNat_ofNat_of_lt' ?_
  unfold RetryPolicy.attempts at hi
  show i < 2 ^ 32
  omega

theorem check_open (h : Open read policy.attempts) :
    check read table patterns policy = .ok ⟨.unknown, UInt32.ofNat policy.attempts⟩ := by
  have hl : looks read policy = _ := looks_open (attempts_pos policy) h
  rw [check, hl, reportOf]

/-- The report of a check that a look settles. -/
def settledBy (table : ProcessTable) (patterns : List Pattern) (attempts : UInt32) :
    Except ε PidRead → Except ε Report
  | .error e => .error e
  | .ok (.found p) => .ok ⟨judge table patterns p, attempts⟩
  | .ok .missing => .ok ⟨.crashed, attempts⟩
  | .ok .incomplete => .ok ⟨.unknown, attempts⟩

theorem check_first (hi : i ≤ policy.attempts) (h : First read i) :
    check read table patterns policy = settledBy table patterns (UInt32.ofNat i) (read i) := by
  have hl : looks read policy = _ := looks_first hi h
  rw [check, hl]
  cases read i with
  | error e => rfl
  | ok r => cases r <;> rfl

/-- **A crash is reported on evidence only.** -/
theorem crashed_evidence {a : UInt32} (h : check read table patterns policy = .ok ⟨.crashed, a⟩) :
    (∃ p, read a.toNat = .ok (.found p) ∧ Foreign table patterns p) ∨
      (read a.toNat = .ok .missing ∧
        ∃ j, 1 ≤ j ∧ j < a.toNat ∧ read j = .ok .incomplete) := by
  rcases open_or_first read policy.attempts with hopen | ⟨i, hi, hfirst⟩
  · rw [check_open hopen] at h
    cases h
  · rw [check_first hi hfirst] at h
    have hcount := toNat_count hi
    rcases hfirst.settles with ⟨e, he⟩ | ⟨p, hp⟩ | ⟨hm, hj⟩
    · rw [he] at h
      cases h
    · rw [hp] at h
      obtain ⟨hjudge, rfl⟩ := Report.mk.inj (Except.ok.inj h)
      rw [hcount]
      rcases judge_cases table patterns p with ⟨hf, -⟩ | ⟨-, halive⟩
      · exact .inl ⟨p, hp, hf⟩
      · rw [halive] at hjudge
        cases hjudge
    · rw [hm] at h
      obtain ⟨-, rfl⟩ := Report.mk.inj (Except.ok.inj h)
      rw [hcount]
      exact .inr ⟨hm, hj⟩

/-- **More looks change no answer but `unknown`.** -/
theorem check_raise {m : UInt32} (hm : policy.maxAttempts ≤ m)
    (h : ∀ a, check read table patterns policy ≠ .ok ⟨.unknown, a⟩) :
    check read table patterns { policy with maxAttempts := m } =
      check read table patterns policy := by
  rcases open_or_first read policy.attempts with hopen | ⟨i, hi, hfirst⟩
  · exact absurd (check_open hopen) (h _)
  · have hmore : policy.attempts ≤ ({ policy with maxAttempts := m } : RetryPolicy).attempts := by
      have : policy.maxAttempts.toNat ≤ m.toNat := hm
      show max 1 policy.maxAttempts.toNat ≤ max 1 m.toNat
      omega
    rw [check_first hi hfirst, check_first (Nat.le_trans hi hmore) hfirst]

/-- **The verdict of a check.** Without a look that settles it the check makes all looks and knows
    nothing; otherwise it ends at the first one, and that look makes the report. -/
theorem check_verdict (read : Nat → Except ε PidRead) (table : ProcessTable)
    (patterns : List Pattern) (policy : RetryPolicy) :
    let n := max 1 policy.maxAttempts.toNat
    let l := looks read policy
    let answer := check read table patterns policy
    (Open read n →
      l.reads = n ∧ ∃ a : UInt32, a.toNat = n ∧ answer = .ok ⟨.unknown, a⟩) ∧
    (∀ i, i ≤ n → First read i →
      l.reads = i ∧ ∃ a : UInt32, a.toNat = i ∧
        (∀ e, read i = .error e → answer = .error e) ∧
        (read i = .ok .missing → answer = .ok ⟨.crashed, a⟩) ∧
        ∀ p, read i = .ok (.found p) →
          (Foreign table patterns p → answer = .ok ⟨.crashed, a⟩) ∧
          (¬ Foreign table patterns p → answer = .ok ⟨.alive p, a⟩)) ∧
    (Open read n ∨ ∃ i, i ≤ n ∧ First read i) ∧
    -- look `k + 1` has `k` waits before it, and the last look has none behind it
    (∀ k, k < l.reads →
      l = look read policy.delay.toNat (n - k) k (k * policy.delay.toNat) (seen read k)) ∧
    l.slept = (l.reads - 1) * policy.delay.toNat ∧
    (∀ a, answer = .ok ⟨.crashed, a⟩ →
      (∃ p, read a.toNat = .ok (.found p) ∧ Foreign table patterns p) ∨
        (read a.toNat = .ok .missing ∧
          ∃ j, 1 ≤ j ∧ j < a.toNat ∧ read j = .ok .incomplete)) ∧
    (∀ m, policy.maxAttempts ≤ m → (∀ a, answer ≠ .ok ⟨.unknown, a⟩) →
      check read table patterns { policy with maxAttempts := m } = answer) := by
  intro n l answer
  refine ⟨fun h => ?_, fun i hi h => ?_, open_or_first read n, looks_pace read policy,
    looks_slept read policy, fun a => crashed_evidence, fun m => check_raise⟩
  · have hl : l = _ := looks_open (attempts_pos policy) h
    exact ⟨congrArg Looks.reads hl, _, toNat_count (Nat.le_refl _), check_open h⟩
  · have hl : l = _ := looks_first hi h
    have hanswer : answer = settledBy table patterns (UInt32.ofNat i) (read i) :=
      check_first hi h
    refine ⟨congrArg Looks.reads hl, _, toNat_count hi, fun e he => ?_, fun hm => ?_,
      fun p hp => ?_⟩
    · rw [hanswer, he, settledBy]
    · rw [hanswer, hm, settledBy]
    · rw [hanswer, hp, settledBy]
      rcases judge_cases table patterns p with ⟨hf, hjudge⟩ | ⟨hf, hjudge⟩
      · exact ⟨fun _ => by rw [hjudge], fun hn => absurd hf hn⟩
      · exact ⟨fun hn => absurd hn hf, fun _ => by rw [hjudge]⟩

/-- A file that is there unfinished at the second look and gone at the third. -/
def vanishing : Nat → Except IoError PidRead
  | 2 => .ok .incomplete
  | _ => .ok .missing

/-- Five looks are allowed; three are made, with two waits, and then a crash is reported. -/
theorem check_verdict_vanishing :
    (looks vanishing ⟨5, 100⟩).reads = 3 ∧ (looks vanishing ⟨5, 100⟩).slept = 200 ∧
      ∃ a : UInt32, a.toNat = 3 ∧
        check vanishing (fun _ => none) [] ⟨5, 100⟩ = .ok ⟨.crashed, a⟩ := by
  have hfirst : First vanishing 3 := by
    refine ⟨by omega, .inr (.inr ⟨rfl, 2, by omega, by omega, rfl⟩), fun j h1 h3 hs => ?_⟩
    have hj : j = 1 ∨ j = 2 := by omega
    rcases hj with rfl | rfl
    · rcases hs with ⟨_, h⟩ | ⟨_, h⟩ | ⟨-, k, hk1, hk, -⟩
      · cases h
      · cases h
      · omega
    · rcases hs with ⟨_, h⟩ | ⟨_, h⟩ | ⟨h, -⟩ <;> cases h
  obtain ⟨-, hsettled, -, -, hslept, -⟩ := check_verdict vanishing (fun _ => none) [] ⟨5, 100⟩
  obtain ⟨hreads, a, ha, -, hmissing, -⟩ := hsettled 3 (by decide) hfirst
  refine ⟨hreads, ?_, a, ha, hmissing rfl⟩
  rw [hslept, hreads]
  rfl

end AgentSupervisor.Health
