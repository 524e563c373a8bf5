/-!
# Blank text

Which characters count as white space, and the operations on text that depend on it:
trimming, the blank test and the first word. White space is the Unicode property
`White_Space`, so a no-break space is blank and a zero-width space is not.

* `trimChars_idem` : trimming twice is trimming once.
-/

namespace AgentSupervisor.Text

/-- The characters with the Unicode property `White_Space`. -/
def isBlank (c : Char) : Bool :=
  let n := c.toNat
  (9 ≤ n && n ≤ 13) || n == 0x20 || n == 0x85 || n == 0xA0 || n == 0x1680 ||
    (0x2000 ≤ n && n ≤ 0x200A) || n == 0x2028 || n == 0x2029 || n == 0x202F ||
    n == 0x205F || n == 0x3000

/-! ## Trimming -/

/-- Drop the blanks at the front. -/
def trimFront (cs : List Char) : List Char := cs.dropWhile isBlank

/-- Drop the blanks at the end. -/
def trimBack (cs : List Char) : List Char := (cs.reverse.dropWhile isBlank).reverse

/-- Drop the blanks at both ends. -/
def trimChars (cs : List Char) : List Char := trimBack (trimFront cs)

/-- A string without the blanks at its ends. -/
def trim (s : String) : String := String.ofList (trimChars s.toList)

/-- A string that holds nothing but blanks. -/
def isBlankString (s : String) : Bool := s.toList.all isBlank

/-- The first blank-separated word, empty when there is none. -/
def firstWord (cs : List Char) : List Char :=
  (cs.dropWhile isBlank).takeWhile fun c => !isBlank c

theorem trimFront_head {cs : List Char} {c : Char} {r : List Char}
    (h : trimFront cs = c :: r) : isBlank c = false := by
  induction cs with
  | nil => simp [trimFront] at h
  | cons d ds ih =>
    by_cases hd : isBlank d = true
    · simp only [trimFront, List.dropWhile_cons, hd, ↓reduceIte] at h ih
      exact ih h
    · simp only [trimFront, List.dropWhile_cons, hd] at h
      simp only [Bool.false_eq_true, ↓reduceIte, List.cons.injEq] at h
      rw [← h.1]; simpa using hd

theorem trimFront_eq_self {cs : List Char}
    (h : ∀ c r, cs = c :: r → isBlank c = false) : trimFront cs = cs := by
  cases cs with
  | nil => rfl
  | cons c r => simp [trimFront, h c r rfl]

theorem trimBack_idem (cs : List Char) : trimBack (trimBack cs) = trimBack cs := by
  simp only [trimBack, List.reverse_reverse]
  congr 1
  exact trimFront_eq_self fun c r h => trimFront_head h

theorem trimBack_append_getLast {cs : List Char} {c : Char} (h : isBlank c = false) :
    trimBack (cs ++ [c]) = cs ++ [c] := by
  simp [trimBack, h]

/-- A list is either left alone by `trimBack` down to its first element or loses all of it. -/
theorem trimBack_cons {c : Char} {r : List Char} (h : isBlank c = false) :
    trimBack (c :: r) = c :: trimBack r := by
  simp only [trimBack, List.reverse_cons]
  generalize r.reverse = l
  induction l with
  | nil => simp [h]
  | cons d ds ih =>
    by_cases hd : isBlank d = true
    · simp only [List.cons_append, List.dropWhile_cons, hd, ↓reduceIte]; exact ih
    · simp [hd]

theorem trimChars_idem (cs : List Char) : trimChars (trimChars cs) = trimChars cs := by
  unfold trimChars
  have hfront : trimFront (trimBack (trimFront cs)) = trimBack (trimFront cs) := by
    cases h : trimFront cs with
    | nil => rfl
    | cons c r =>
      have hc := trimFront_head h
      rw [trimBack_cons hc]
      exact trimFront_eq_self fun _ _ e => by cases e; exact hc
  rw [hfront, trimBack_idem]

end AgentSupervisor.Text
