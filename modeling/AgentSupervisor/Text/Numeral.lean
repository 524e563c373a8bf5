/-!
# Decimal numerals

Writing a natural number or an integer in decimal, and reading one back under the bounds of
a field. A reader takes an optional sign and any number of leading zeros and nothing else.

* `natOfDigits_decimal` : the digits written for `n` have the value `n`;
* `decimal_all_digit`   : what is written consists of digits, and is not empty.
-/

namespace AgentSupervisor.Text

/-! ## Writing -/

/-- The character of one decimal digit. -/
def digitChar (d : Nat) : Char := Char.ofNat (48 + d)

/-- The decimal digits of a number, without leading zeros. -/
def decimal (n : Nat) : List Char :=
  if n < 10 then [digitChar n] else decimal (n / 10) ++ [digitChar (n % 10)]
termination_by n

/-- The decimal text of an integer, with a minus sign where it is negative. -/
def decimalInt : Int → List Char
  | .ofNat n => decimal n
  | .negSucc n => '-' :: decimal (n + 1)

/-! ## Reading -/

/-- One ASCII digit. -/
def isDigit (c : Char) : Bool := '0' ≤ c && c ≤ '9'

/-- The value of one ASCII digit. -/
def digitValue (c : Char) : Nat := c.toNat - 48

/-- The value of a row of digits, read from the left. -/
def natOfDigits (cs : List Char) : Nat := cs.foldl (fun v c => 10 * v + digitValue c) 0

/-- A nonempty row of digits and nothing else. -/
def digits? (cs : List Char) : Option Nat :=
  if !cs.isEmpty && cs.all isDigit then some (natOfDigits cs) else none

/-- An unsigned numeral below a bound, with an optional plus sign. -/
def unsigned? (bound : Nat) (cs : List Char) : Option Nat := do
  let n ← digits? (match cs with | '+' :: r => r | r => r)
  if n < bound then some n else none

/-- A signed numeral between two bounds, both included. -/
def signed? (low high : Int) (cs : List Char) : Option Int := do
  let n ← match cs with
    | '+' :: r => (digits? r).map Int.ofNat
    | '-' :: r => (digits? r).map fun n => - Int.ofNat n
    | r => (digits? r).map Int.ofNat
  if low ≤ n ∧ n ≤ high then some n else none

/-- One more than the largest value of an unsigned number of 32 bits. -/
def bound32 : Nat := UInt32.size

/-- One more than the largest value of an unsigned number of 64 bits. -/
def bound64 : Nat := UInt64.size

/-! ## Hexadecimal digits -/

/-- The value of a hexadecimal digit. -/
def hexValue (c : Char) : Option Nat :=
  if '0' ≤ c ∧ c ≤ '9' then some (c.toNat - 48)
  else if 'a' ≤ c ∧ c ≤ 'f' then some (c.toNat - 87)
  else if 'A' ≤ c ∧ c ≤ 'F' then some (c.toNat - 55)
  else none

/-! ## The range of doubles -/

/-- The smallest magnitude that does not round to a finite double. -/
def doubleLimit : Nat := Nat.pow 2 1024 - Nat.pow 2 970

/-- Is `n * 10 ^ e` beyond every finite double? The number of digits settles all but the
    close cases, so no large power is ever formed. -/
def exceedsDouble (n : Nat) (e : Int) : Bool :=
  if n = 0 then false
  else
    let magnitude := (decimal n).length + e
    if 311 ≤ magnitude then true
    else if magnitude < 300 then false
    else if 0 ≤ e then doubleLimit ≤ n * Nat.pow 10 e.toNat
    else doubleLimit * Nat.pow 10 (-e).toNat ≤ n

/-! ## Laws -/

theorem digitChar_facts : ∀ d, d < 10 →
    digitValue (digitChar d) = d ∧ isDigit (digitChar d) = true := by decide

theorem natOfDigits_append_single (cs : List Char) (c : Char) :
    natOfDigits (cs ++ [c]) = 10 * natOfDigits cs + digitValue c := by
  simp [natOfDigits]

theorem natOfDigits_decimal (n : Nat) : natOfDigits (decimal n) = n := by
  rw [decimal]
  split
  · rename_i h
    simp [natOfDigits, (digitChar_facts n h).1]
  · rw [natOfDigits_append_single, natOfDigits_decimal (n / 10),
      (digitChar_facts (n % 10) (by omega)).1]
    omega
termination_by n
decreasing_by omega

theorem decimal_all_digit (n : Nat) : ∀ c ∈ decimal n, isDigit c = true := by
  rw [decimal]
  split
  · rename_i h
    simpa using (digitChar_facts n h).2
  · intro c hc
    rcases List.mem_append.mp hc with hc | hc
    · exact decimal_all_digit (n / 10) c hc
    · rw [List.mem_singleton.mp hc]; exact (digitChar_facts (n % 10) (by omega)).2
termination_by n
decreasing_by omega

theorem decimal_ne_nil (n : Nat) : decimal n ≠ [] := by
  rw [decimal]; split <;> simp

theorem digitChar_eq_zero : ∀ d, d < 10 → digitChar d = '0' → d = 0 := by decide

/-- The first digit is a zero only for zero itself. -/
theorem decimal_cons (n : Nat) :
    ∃ c t, decimal n = c :: t ∧ isDigit c = true ∧ (c = '0' → n = 0 ∧ t = []) := by
  rw [decimal]
  split
  · rename_i h
    exact ⟨_, [], rfl, (digitChar_facts n h).2, fun e => ⟨digitChar_eq_zero n h e, rfl⟩⟩
  · obtain ⟨c, t, ht, hc, h0⟩ := decimal_cons (n / 10)
    exact ⟨c, _, by rw [ht]; rfl, hc, fun e => by have := (h0 e).1; omega⟩
termination_by n
decreasing_by omega

theorem digits?_decimal (n : Nat) : digits? (decimal n) = some n := by
  have hall : (decimal n).all isDigit = true := List.all_eq_true.mpr (decimal_all_digit n)
  have hne : (decimal n).isEmpty = false := by
    cases h : decimal n with
    | nil => exact absurd h (decimal_ne_nil n)
    | cons _ _ => rfl
  simp [digits?, hall, hne, natOfDigits_decimal]

end AgentSupervisor.Text
