import AgentSupervisor.Proofs.TomlStrings
import AgentSupervisor.Toml.Reader

/-!
# Lines of TOML, written and read

A line that sets a key is read back as that entry, a header as that header, and a text of many
lines as all of them.

* `Denotes`         : a text that is read as a value at the end of its line;
* `Says`            : a text that is read as a row of statements, whatever comes after it;
* `says_writeEntry` : what a written entry says.
-/

namespace AgentSupervisor.Toml

open AgentSupervisor.Text (isDigit)

variable {c : Char} {cs r t rest : List Char} {v : Toml}

/-! ## Numbers -/

theorem isDigit_ne (h : isDigit c = true) (d : Char) (hd : isDigit d = false) : c ≠ d := by
  rintro rfl
  rw [h] at hd
  cases hd

theorem digitsAfter_append (hcs : ∀ c ∈ cs, isDigit c = true) (r : List Char) :
    digitsAfter isDigit (cs ++ '\n' :: r) = (cs, '\n' :: r) := by
  induction cs with
  | nil => rfl
  | cons c cs ih =>
    have hc := hcs c List.mem_cons_self
    rw [List.cons_append, digitsAfter.eq_2 _ _ _ fun d s hunderscore _ =>
      isDigit_ne hc '_' (by decide) hunderscore, if_pos hc,
      ih fun d hd => hcs d (List.mem_cons_of_mem c hd)]

theorem wholeDigits_decimal (n : Nat) (r : List Char) :
    wholeDigits (Text.decimal n ++ '\n' :: r) = some (Text.decimal n, '\n' :: r) := by
  obtain ⟨c, t, ht, hc, hzero⟩ := Text.decimal_cons n
  have hall := Text.decimal_all_digit n
  rw [ht] at hall ⊢
  have hrow : digitRow isDigit (c :: t ++ '\n' :: r) = some (c :: t, '\n' :: r) := by
    rw [List.cons_append, digitRow, if_pos hc,
      digitsAfter_append fun d hd => hall d (List.mem_cons_of_mem c hd)]
  have hlead : ¬ ((c :: t).head? = some '0' ∧ 1 < (c :: t).length) := by
    rintro ⟨h0, hlength⟩
    rw [(hzero (Option.some.inj h0)).2] at hlength
    exact absurd hlength (by simp)
  simp only [wholeDigits, hrow, Option.bind_eq_bind, Option.bind_some, if_neg hlead]

theorem decimalNumber_decimal {n : Nat} (hn : inRange n = true) (r : List Char) :
    decimalNumber none (Text.decimal n ++ '\n' :: r) = some (.integer n, '\n' :: r) := by
  unfold decimalNumber
  rw [wholeDigits_decimal, Option.bind_eq_bind, Option.bind_some]
  split
  rename_i heq
  cases heq
  -- the line feed begins neither a fraction nor an exponent
  split
  · rename_i heq
    cases heq
  · rename_i heq
    cases heq
  · rename_i heq
    cases heq
  · simp only [reduceCtorEq, if_false, Text.natOfDigits_decimal, hn, if_true]

/-- A numeral begins with a digit. -/
theorem decimal_append_ne {d : Char} (hd : isDigit d = false) (n : Nat) (r s : List Char) :
    Text.decimal n ++ r ≠ d :: s := by
  obtain ⟨c, t, ht, hc, -⟩ := Text.decimal_cons n
  rw [ht, List.cons_append]
  intro heq
  exact isDigit_ne hc d hd (List.cons.inj heq).1

/-- A zero in front of a numeral is all of it. -/
theorem decimal_append_ne_base {d : Char} (hbreak : d ≠ '\n') (n : Nat) (r s : List Char) :
    Text.decimal n ++ '\n' :: r ≠ '0' :: d :: s := by
  obtain ⟨c, t, ht, -, hzero⟩ := Text.decimal_cons n
  rw [ht, List.cons_append]
  intro heq
  obtain ⟨h0, htail⟩ := List.cons.inj heq
  rw [(hzero h0).2] at htail
  exact hbreak (List.cons.inj htail).1.symm

/-- **A number of 63 bits is read back** at the end of its line. -/
theorem numberOrMoment_decimal {n : Nat} (hn : inRange n = true) (r : List Char) :
    numberOrMoment (Text.decimal n ++ '\n' :: r) = some (.integer n, '\n' :: r) := by
  have hsign : sign (Text.decimal n ++ '\n' :: r) = (none, Text.decimal n ++ '\n' :: r) :=
    sign.eq_3 _ (fun s => decimal_append_ne (by decide) n _ s)
      fun s => decimal_append_ne (by decide) n _ s
  have hsigned : signedNumber none (Text.decimal n ++ '\n' :: r) =
      some (.integer n, '\n' :: r) := by
    rw [signedNumber.eq_3 _ _ (fun s => decimal_append_ne (by decide) n _ _)
      fun s => decimal_append_ne (by decide) n _ _, decimalNumber_decimal hn]
  have hrest : (Text.decimal n ++ '\n' :: r).dropWhile isDigit = '\n' :: r := by
    rw [List.dropWhile_append_of_pos (Text.decimal_all_digit n)]
    rfl
  rw [numberOrMoment.eq_4 _ (fun s => decimal_append_ne_base (by decide) n r s)
    (fun s => decimal_append_ne_base (by decide) n r s)
    fun s => decimal_append_ne_base (by decide) n r s, hrest]
  simp only [hsign, hsigned]
  rfl

/-! ## Values at the end of a line -/

/-- The text of a value: it begins with no blank, and is read as the value at the end of a
    line. -/
structure Denotes (t : List Char) (v : Toml) : Prop where
  head : ∃ c u, t = c :: u ∧ isSpace c = false
  reads : ∀ fuel depth r, value (fuel + 1) depth (t ++ '\n' :: r) = some (v, '\n' :: r)

theorem denotes_decimal {n : Nat} (hn : inRange n = true) :
    Denotes (Text.decimal n) (.integer n) where
  head := by
    obtain ⟨c, t, ht, hc, -⟩ := Text.decimal_cons n
    refine ⟨c, t, ht, ?_⟩
    simp [isSpace, isDigit_ne hc ' ' (by decide), isDigit_ne hc '\t' (by decide)]
  reads fuel depth r := by
    rw [value.eq_8, numberOrMoment_decimal hn] <;>
    exact fun s => decimal_append_ne (by decide) n _ _

theorem writeString_head (s : String) :
    ∃ c u, writeString s = c :: u ∧ (c = '"' ∨ c = '\'') := by
  rw [writeString]
  cases styleOf s.toList with
  | basic => exact ⟨_, _, rfl, .inl rfl⟩
  | literal => exact ⟨_, _, rfl, .inr rfl⟩
  | basicLines => exact ⟨_, _, rfl, .inl rfl⟩
  | literalLines => exact ⟨_, _, rfl, .inr rfl⟩

theorem denotes_writeString (s : String) : Denotes (writeString s) (.string s) where
  head := by
    obtain ⟨c, u, hu, rfl | rfl⟩ := writeString_head s <;> exact ⟨_, u, hu, by decide⟩
  reads fuel depth r := by
    have hread := string?_writeString s r
    obtain ⟨c, u, hu, rfl | rfl⟩ := writeString_head s
    · rw [hu, List.cons_append] at hread ⊢
      rw [value, hread]
      simp
    · rw [hu, List.cons_append] at hread ⊢
      rw [value, hread]
      simp

/-! ## Keys of a line -/

theorem skipSpace_eq_self (h : isSpace c = false) (r : List Char) :
    skipSpace (c :: r) = c :: r := by
  rw [skipSpace, List.dropWhile_cons_of_neg (by simp [h])]

theorem dottedKey_one {k : List Char} (h : simpleKey? (skipSpace cs) = some (k, r))
    (hr : ∀ s, skipSpace r ≠ '.' :: s) (fuel : Nat) :
    dottedKey (fuel + 1) cs = some ([String.ofList k], skipSpace r) := by
  simp only [dottedKey, h, Option.bind_eq_bind, Option.bind_some]
  rfl

theorem dottedKey_more {k s : List Char} {ks : List String} {fuel : Nat}
    (h : simpleKey? (skipSpace cs) = some (k, '.' :: s))
    (hs : dottedKey fuel s = some (ks, rest)) :
    dottedKey (fuel + 1) cs = some (String.ofList k :: ks, rest) := by
  have hdot : skipSpace ('.' :: s) = '.' :: s := skipSpace_eq_self (by decide) s
  simp only [dottedKey, h, Option.bind_eq_bind, Option.bind_some, hdot, hs]
  rfl

theorem key?_writeKey (k : String) (r : List Char) :
    key? (writeKey k ++ ' ' :: '=' :: r) = some ([k], '=' :: r) := by
  obtain ⟨c, t, ht, hc, -⟩ := writeKey_head k
  have hread := simpleKey?_writeKey k ('=' :: r)
  have hspace : skipSpace (writeKey k ++ ' ' :: '=' :: r) = writeKey k ++ ' ' :: '=' :: r := by
    rw [ht, List.cons_append, skipSpace_eq_self hc]
  rw [← hspace] at hread
  have hone := dottedKey_one hread (fun s h => by cases h) 78
  rw [String.ofList_toList] at hone
  exact hone

/-! ## Statements -/

theorem endLine_break (r : List Char) : endLine ('\n' :: r) = some r := rfl

/-- A line that sets a key is read as that entry. -/
theorem statement_writeEntry (k : String) (h : Denotes t v) (rest : List Char) :
    statement (writeEntry k t ++ rest) = some (.entry [k] v, rest) := by
  have htext : writeEntry k t ++ rest = writeKey k ++ ' ' :: '=' :: ' ' :: (t ++ '\n' :: rest) := by
    simp [writeEntry]
  have hkey := key?_writeKey k (' ' :: (t ++ '\n' :: rest))
  have hvalue : skipSpace (' ' :: (t ++ '\n' :: rest)) = t ++ '\n' :: rest := by
    obtain ⟨c, u, hu, hc⟩ := h.head
    rw [hu, List.cons_append]
    exact skipSpace_eq_self hc _
  obtain ⟨c, u, hu, -, hbracket, -⟩ := writeKey_head k
  rw [htext]
  rw [hu, List.cons_append] at hkey ⊢
  rw [statement.eq_3]
  · simp only [hkey, Option.bind_eq_bind, Option.bind_some, hvalue, h.reads, endLine_break]
    rfl
  · rintro r heq
    exact hbracket (List.cons.inj heq).1
  · rintro r heq
    exact hbracket (List.cons.inj heq).1

/-- A header is read as that header. -/
theorem statement_header {title : List Char} {path : List String}
    (hbracket : ∀ s, title ≠ '[' :: s)
    (hpath : ∀ r, key? (title ++ ']' :: r) = some (path, ']' :: r)) (rest : List Char) :
    statement ('[' :: (title ++ ']' :: '\n' :: rest)) = some (.header path, rest) := by
  rw [statement.eq_2]
  · simp only [hpath, Option.bind_eq_bind, Option.bind_some, endLine_break]
    rfl
  · rintro r heq
    cases title with
    | nil => cases heq
    | cons c s => exact hbracket s (by rw [(List.cons.inj heq).1])

/-- A text that is read as a row of statements, whatever comes after it. -/
def Says (cs : List Char) (ss : List Statement) : Prop :=
  ∃ n ≤ cs.length, ∀ fuel rest,
    statements (fuel + n) (cs ++ rest) = (statements fuel rest).map (ss ++ ·)

theorem says_nil : Says [] [] := ⟨0, Nat.le_refl 0, fun fuel rest => by simp⟩

theorem Says.append {ss ss' : List Statement} (h : Says cs ss) (h' : Says t ss') :
    Says (cs ++ t) (ss ++ ss') := by
  obtain ⟨n, hn, hread⟩ := h
  obtain ⟨m, hm, hread'⟩ := h'
  refine ⟨m + n, by rw [List.length_append]; omega, fun fuel rest => ?_⟩
  rw [List.append_assoc, ← Nat.add_assoc, hread, hread', Option.map_map]
  congr 1
  funext x
  exact (List.append_assoc ss ss' x).symm

theorem says_break : Says ['\n'] [] := ⟨1, Nat.le_refl 1, fun fuel rest => by
  rw [List.singleton_append, statements, skipSpace_eq_self (by decide)]
  simp⟩

/-- A line that is read as a statement says it. -/
theorem says_line {s : Statement} (hspace : isSpace c = false) (hmark : c ≠ '#')
    (hbreak : c ≠ '\n') (hreturn : c ≠ '\r')
    (h : ∀ rest, statement (c :: cs ++ rest) = some (s, rest)) : Says (c :: cs) [s] := by
  refine ⟨1, by simp, fun fuel rest => ?_⟩
  have hline := h rest
  rw [List.cons_append] at hline ⊢
  rw [statements, skipSpace_eq_self hspace]
  split
  · rename_i heq
    cases heq
  · rename_i heq
    exact absurd (List.cons.inj heq).1 hmark
  · rename_i heq
    exact absurd (List.cons.inj heq).1 hbreak
  · rename_i heq
    exact absurd (List.cons.inj heq).1 hreturn
  · simp only [hline, Option.bind_eq_bind, Option.bind_some]
    cases statements fuel rest <;> rfl

theorem says_writeEntry (k : String) (h : Denotes t v) : Says (writeEntry k t) [.entry [k] v] := by
  obtain ⟨c, u, hu, hspace, -, hmark, hbreak, hreturn⟩ := writeKey_head k
  have hline := statement_writeEntry k h
  have htext : writeEntry k t = c :: (u ++ [' ', '=', ' '] ++ t ++ ['\n']) := by
    rw [writeEntry, hu]
    rfl
  rw [htext] at hline ⊢
  exact says_line hspace hmark hbreak hreturn hline

end AgentSupervisor.Toml
