import AgentSupervisor.Toml.Writer

/-!
# Strings and keys of TOML, written and read

A string is written in one of four styles. Each style has its own reader, and each reader gets
back the characters that the writer was given.

* `string?_writeString` : a string at the end of its line;
* `simpleKey?_writeKey` : a key before a blank.
-/

namespace AgentSupervisor.Toml

variable {c q : Char} {cs r t rest : List Char}

/-! ## Characters -/

theorem isText_of_not_isControl (hb : c ≠ '\n') (hc : isControl c = false) : isText c = true := by
  simp only [isControl, isText, Bool.and_eq_false_iff, Bool.or_eq_false_iff, bne_eq_false_iff_eq,
    decide_eq_false_iff_not, beq_eq_false_iff_ne, Bool.or_eq_true, Bool.and_eq_true, beq_iff_eq,
    decide_eq_true_eq] at hc ⊢
  rcases hc with (⟨h1, h2⟩ | h) | h
  · exact .inr ⟨by omega, h2⟩
  · exact .inl h
  · exact absurd h hb

theorem ne_return_of_isText (h : isText c = true) : c ≠ '\r' := by
  rintro rfl
  exact absurd h (by decide)

/-- A character of two hexadecimal digits. -/
theorem hexChar?_upperHex : ∀ n < 128,
    hexChar? ['0', '0', upperHex (n / 16), upperHex (n % 16)] = some (Char.ofNat n) := by
  decide +kernel

theorem toNat_lt_of_isControl (h : isControl c = true) : c.toNat < 128 := by
  simp only [isControl, Bool.and_eq_true, Bool.or_eq_true, decide_eq_true_eq, beq_iff_eq] at h
  omega

/-- What stands for a character after a backslash. It does not begin with a blank or a line end,
    so the backslash joins no lines. -/
structure Escapes (c : Char) (t : List Char) : Prop where
  joins : ∀ r, joined? (t ++ r) = none
  reads : ∀ r, escape? (t ++ r) = some (c, r)

/-- What stands for a character between double quotes: an escape, or the character. -/
inductive Spelling (c : Char) : List Char → Prop
  | escape {t : List Char} (h : Escapes c t) : Spelling c ('\\' :: t)
  | plain (hquote : c ≠ '"') (hbackslash : c ≠ '\\') (hbreak : c ≠ '\n') (hreturn : c ≠ '\r')
      (htext : isText c = true) : Spelling c [c]

theorem escapeChar_spelling (c : Char) : Spelling c (escapeChar c) := by
  rw [escapeChar]
  -- the escapes of one letter; after them those of two digits, and the character itself
  repeat
    split
    · subst_vars
      exact .escape ⟨fun _ => rfl, fun _ => rfl⟩
  split
  · rename_i hcontrol
    have hchar := hexChar?_upperHex c.toNat (toNat_lt_of_isControl hcontrol)
    rw [Char.ofNat_toNat] at hchar
    refine .escape ⟨fun _ => rfl, fun r => ?_⟩
    simp only [List.cons_append, List.nil_append, escape?, hchar, Option.map_some]
  · rename_i _ _ hbreak _ hreturn hquote hbackslash hcontrol
    exact .plain hquote hbackslash hbreak hreturn
      (isText_of_not_isControl hbreak (Bool.not_eq_true _ ▸ hcontrol))

/-! ## Strings on one line -/

theorem basic_quote (r : List Char) : basic ('"' :: r) = some ([], r) := by
  rw [basic]

theorem basic_spelling (h : Spelling c t) (r : List Char) :
    basic (t ++ r) = (basic r).map fun p => (c :: p.1, p.2) := by
  cases h with
  | escape h =>
    rw [List.cons_append, basic]
    split
    · rename_i hnone
      rw [h.reads] at hnone
      cases hnone
    · rename_i p hp
      rw [h.reads] at hp
      obtain rfl := Option.some.inj hp
      rfl
  | plain hquote hbackslash _ _ htext =>
    rw [List.singleton_append, basic.eq_4 _ _ hquote hbackslash, if_pos htext]

theorem basic_escapes (cs r : List Char) :
    basic (cs.flatMap escapeChar ++ '"' :: r) = some (cs, r) := by
  induction cs with
  | nil => exact basic_quote r
  | cons c cs ih =>
    rw [List.flatMap_cons, List.append_assoc, basic_spelling (escapeChar_spelling c), ih]
    rfl

theorem literal_append (h : ∀ c ∈ cs, c ≠ '\'' ∧ isText c = true) (r : List Char) :
    literal (cs ++ '\'' :: r) = some (cs, r) := by
  induction cs with
  | nil => rfl
  | cons c cs ih =>
    obtain ⟨hquote, htext⟩ := h c List.mem_cons_self
    rw [List.cons_append, literal.eq_3 _ _ hquote, if_pos htext,
      ih fun d hd => h d (List.mem_cons_of_mem c hd)]
    rfl

/-! ## Strings over several lines -/

theorem closing_of_not {a b d : Char} (h : ¬ (a = q ∧ b = q ∧ d = q)) (r : List Char) :
    closing q (a :: b :: d :: r) = none := by
  rcases r with - | ⟨e, - | ⟨f, r⟩⟩ <;> simp only [closing, if_neg h]

theorem closing_three (hrest : rest.head? ≠ some q) :
    closing q (q :: q :: q :: rest) = some ([], rest) := by
  rcases rest with - | ⟨d, - | ⟨e, rest⟩⟩
  · simp [closing]
  · have hd : d ≠ q := fun h => hrest (h ▸ rfl)
    simp [closing, hd]
  · have hd : d ≠ q := fun h => hrest (h ▸ rfl)
    simp [closing, hd]

theorem closing_four (hrest : rest.head? ≠ some q) :
    closing q (q :: q :: q :: q :: rest) = some ([q], rest) := by
  rcases rest with - | ⟨d, rest⟩
  · simp [closing]
  · have hd : d ≠ q := fun h => hrest (h ▸ rfl)
    simp [closing, hd]

theorem closing_five (q : Char) (rest : List Char) :
    closing q (q :: q :: q :: q :: q :: rest) = some ([q, q], rest) := by
  simp [closing]

/-- **The end of a string over several lines**: when at most two quotes stand in front, the string
    ends here only if nothing else is left of it. -/
theorem closing_append (hrun : (t.takeWhile (· == q)).length ≤ 2) (hrest : rest.head? ≠ some q) :
    closing q (t ++ q :: q :: q :: rest) =
      if t.all (· == q) then some (t, rest) else none := by
  rcases t with - | ⟨a, - | ⟨b, - | ⟨d, t⟩⟩⟩
  · exact closing_three hrest
  · by_cases ha : a = q
    · subst ha
      simpa using closing_four hrest
    · simpa [ha] using closing_of_not (by simp [ha]) (q :: rest)
  · by_cases h : a = q ∧ b = q
    · obtain ⟨rfl, rfl⟩ := h
      simpa using closing_five _ rest
    · have hnone := closing_of_not (d := q) (fun h' => h ⟨h'.1, h'.2.1⟩) (q :: q :: rest)
      simpa [h] using hnone
  · have hall : ¬ (a = q ∧ b = q ∧ d = q) := by
      rintro ⟨rfl, rfl, rfl⟩
      simp at hrun
    rw [if_neg (by simpa [and_assoc] using fun ha hb hd => absurd ⟨ha, hb, hd⟩ hall)]
    exact closing_of_not hall _

/-! ### Without escapes -/

theorem longestRun_mono (q : Char) {m n : Nat} (h : m ≤ n) (cs : List Char) :
    longestRun q m cs ≤ longestRun q n cs := by
  induction cs generalizing m n with
  | nil => exact h
  | cons c cs ih =>
    rw [longestRun, longestRun]
    split
    · exact ih (by omega)
    · omega

theorem takeWhile_le_longestRun (q : Char) (n : Nat) (cs : List Char) :
    n + (cs.takeWhile (· == q)).length ≤ longestRun q n cs := by
  induction cs generalizing n with
  | nil => exact Nat.le_refl _
  | cons c cs ih =>
    rw [longestRun]
    by_cases h : c = q
    · have hle := ih (n + 1)
      simp only [h, beq_self_eq_true, List.takeWhile_cons_of_pos, List.length_cons, if_pos]
      omega
    · simp only [h, List.takeWhile_cons, beq_iff_eq, if_false, List.length_nil]
      omega

theorem longestRun_tail (q c : Char) (cs : List Char) :
    longestRun q 0 cs ≤ longestRun q 0 (c :: cs) := by
  rw [longestRun]
  split
  · exact longestRun_mono q (Nat.zero_le 1) cs
  · exact Nat.le_max_right ..

theorem literalLines_quote (r : List Char) :
    literalLines ('\'' :: r) = (closing '\'' ('\'' :: r)).or
      ((literalLines r).map fun p => ('\'' :: p.1, p.2)) := by
  rw [literalLines]
  cases closing '\'' ('\'' :: r) <;> rfl

/-- A character that is no quote stands for itself. -/
theorem literalLines_other (hquote : c ≠ '\'') (htext : c = '\n' ∨ isText c = true)
    (r : List Char) : literalLines (c :: r) = (literalLines r).map fun p => (c :: p.1, p.2) := by
  rcases htext with rfl | htext
  · rw [literalLines]
  · by_cases hbreak : c = '\n'
    · rw [hbreak, literalLines]
    · have hreturn : c ≠ '\r' := by
        rintro rfl
        exact absurd htext (by decide)
      rw [literalLines.eq_5 _ _ hbreak (fun _ h => absurd h hreturn) hquote, if_pos htext]

theorem literalLines_append (htext : ∀ c ∈ cs, c = '\n' ∨ isText c = true)
    (hrun : longestRun '\'' 0 cs ≤ 2) (hrest : rest.head? ≠ some '\'') :
    literalLines (cs ++ '\'' :: '\'' :: '\'' :: rest) = some (cs, rest) := by
  induction cs with
  | nil =>
    rw [List.nil_append, literalLines_quote, closing_three hrest]
    rfl
  | cons c cs ih =>
    have ih := ih (fun d hd => htext d (List.mem_cons_of_mem c hd))
      (Nat.le_trans (longestRun_tail '\'' c cs) hrun)
    rw [List.cons_append]
    by_cases hquote : c = '\''
    · have hshort := Nat.le_trans (takeWhile_le_longestRun '\'' 0 (c :: cs)) hrun
      have hclosing := closing_append (t := c :: cs) (by omega) hrest
      rw [List.cons_append] at hclosing
      subst hquote
      rw [literalLines_quote, hclosing, ih]
      split <;> rfl
    · rw [literalLines_other hquote (htext c List.mem_cons_self), ih]
      rfl

/-! ### With escapes -/

theorem basicLines_quote (r : List Char) :
    basicLines ('"' :: r) = (closing '"' ('"' :: r)).or
      ((basicLines r).map fun p => ('"' :: p.1, p.2)) := by
  rw [basicLines]
  cases closing '"' ('"' :: r) <;> rfl

theorem basicLines_break (r : List Char) :
    basicLines ('\n' :: r) = (basicLines r).map fun p => ('\n' :: p.1, p.2) := by
  rw [basicLines]

theorem basicLines_spelling (h : Spelling c t) (r : List Char) :
    basicLines (t ++ r) = (basicLines r).map fun p => (c :: p.1, p.2) := by
  cases h with
  | escape h =>
    rw [List.cons_append, basicLines]
    split
    · rename_i hjoined
      rw [h.joins] at hjoined
      cases hjoined
    · split
      · rename_i hnone
        rw [h.reads] at hnone
        cases hnone
      · rename_i p hp
        rw [h.reads] at hp
        obtain rfl := Option.some.inj hp
        rfl
  | plain hquote hbackslash hbreak hreturn htext =>
    rw [List.singleton_append, basicLines.eq_6 _ _ hbackslash hbreak
      (fun _ h => absurd h hreturn) hquote, if_pos htext]

/-- Nothing that stands for a character begins with a quote or a line end. -/
theorem Spelling.head (h : Spelling c t) :
    ∃ d u, t = d :: u ∧ d ≠ '"' ∧ d ≠ '\n' ∧ d ≠ '\r' := by
  cases h with
  | escape => exact ⟨_, _, rfl, by decide⟩
  | plain hquote _ hbreak hreturn => exact ⟨_, _, rfl, hquote, hbreak, hreturn⟩

theorem takeWhile_escapeLines (n : Nat) (hn : n ≤ 2) (cs : List Char) :
    n + ((escapeLines n cs).takeWhile (· == '"')).length ≤ 2 := by
  induction cs generalizing n with
  | nil => exact hn
  | cons c cs ih =>
    rw [escapeLines]
    split
    · split
      · exact hn
      · have hle := ih (n + 1) (by omega)
        simp only [List.takeWhile_cons, beq_self_eq_true, if_true, List.length_cons]
        omega
    · split
      · exact hn
      · obtain ⟨d, u, ht, hd, -⟩ := (escapeChar_spelling c).head
        rw [ht, List.cons_append, List.takeWhile_cons, beq_false_of_ne hd]
        exact hn

/-- When nothing but quotes is left, they are quotes of the string. -/
theorem escapeLines_of_quotes (n : Nat) (cs : List Char)
    (h : (escapeLines n cs).all (· == '"') = true) : escapeLines n cs = cs := by
  induction cs generalizing n with
  | nil => rfl
  | cons c cs ih =>
    rw [escapeLines] at h ⊢
    split
    · rename_i hquote
      rw [if_pos hquote] at h
      split
      · rename_i hn
        simp [hn] at h
      · rename_i hn
        rw [if_neg hn, List.all_cons] at h
        rw [ih _ (Bool.and_eq_true_iff.mp h).2, hquote]
    · rename_i hquote
      rw [if_neg hquote] at h
      split
      · rename_i hbreak
        simp [hbreak] at h
      · rename_i hbreak
        obtain ⟨d, u, ht, hd, -⟩ := (escapeChar_spelling c).head
        rw [if_neg hbreak, ht, List.cons_append, List.all_cons, beq_false_of_ne hd] at h
        cases h

theorem basicLines_append (n : Nat) (hn : n ≤ 2) (cs : List Char)
    (hrest : rest.head? ≠ some '"') :
    basicLines (escapeLines n cs ++ '"' :: '"' :: '"' :: rest) = some (cs, rest) := by
  induction cs generalizing n with
  | nil =>
    rw [escapeLines, List.nil_append, basicLines_quote, closing_three hrest]
    rfl
  | cons c cs ih =>
    have hshort := takeWhile_escapeLines n hn (c :: cs)
    have hquotes := escapeLines_of_quotes n (c :: cs)
    have hclosing := closing_append (q := '"') (t := escapeLines n (c :: cs)) (by omega) hrest
    -- a third quote in a row is escaped; before it the string may end, with `hclosing`
    by_cases hquote : c = '"'
    · subst hquote
      by_cases hfull : n = 2
      · subst hfull
        have hread := basicLines_spelling (escapeChar_spelling '"')
          (escapeLines 0 cs ++ '"' :: '"' :: '"' :: rest)
        rw [ih 0 (by omega)] at hread
        exact hread
      · have hplain : escapeLines n ('"' :: cs) = '"' :: escapeLines (n + 1) cs := by
          rw [escapeLines, if_pos rfl, if_neg hfull]
        rw [hplain] at hquotes hclosing ⊢
        rw [List.cons_append] at hclosing ⊢
        rw [basicLines_quote, hclosing, ih (n + 1) (by omega)]
        split
        · rename_i hall
          rw [hquotes hall]
          rfl
        · rfl
    · by_cases hbreak : c = '\n'
      · have hkept : escapeLines n (c :: cs) = '\n' :: escapeLines 0 cs := by
          rw [escapeLines, if_neg hquote, if_pos hbreak]
        rw [hkept, List.cons_append, basicLines_break, ih 0 (by omega), hbreak]
        rfl
      · have hspelled : escapeLines n (c :: cs) = escapeChar c ++ escapeLines 0 cs := by
          rw [escapeLines, if_neg hquote, if_neg hbreak]
        rw [hspelled, List.append_assoc, basicLines_spelling (escapeChar_spelling c),
          ih 0 (by omega)]
        rfl

/-! ### The first line end -/

theorem dropLineEnd_eq_self (h : ∀ d ∈ t.head?, d ≠ '\n' ∧ d ≠ '\r') : dropLineEnd t = t := by
  cases t with
  | nil => rfl
  | cons d u =>
    obtain ⟨hbreak, hreturn⟩ := h d rfl
    rw [dropLineEnd.eq_3]
    · rintro r ⟨⟩
      exact hbreak rfl
    · rintro r ⟨⟩
      exact hreturn rfl

/-- The line end that is written first is the one that is dropped. -/
theorem dropLineEnd_firstBreak
    (h : '\n' ∉ cs → ∀ d ∈ t.head?, d ≠ '\n' ∧ d ≠ '\r') :
    dropLineEnd (firstBreak cs ++ t) = t := by
  rw [firstBreak]
  by_cases hbreak : '\n' ∈ cs
  · rw [if_pos (List.contains_iff_mem.mpr hbreak)]
    rfl
  · rw [if_neg (mt List.contains_iff_mem.mp hbreak)]
    exact dropLineEnd_eq_self (h hbreak)

theorem head_escapeLines (h : '\n' ∉ cs) (rest : List Char) :
    ∀ d ∈ (escapeLines 0 cs ++ '"' :: rest).head?, d ≠ '\n' ∧ d ≠ '\r' := by
  cases cs with
  | nil =>
    rintro d ⟨⟩
    decide
  | cons c cs =>
    have hbreak : c ≠ '\n' := fun heq => h (heq ▸ List.mem_cons_self)
    rw [escapeLines, if_neg hbreak]
    split
    · rintro d ⟨⟩
      decide
    · obtain ⟨d, u, ht, -, hd⟩ := (escapeChar_spelling c).head
      rw [ht]
      rintro d ⟨⟩
      exact hd

/-! ## Strings of any style -/

/-- What a style asks of the string. The styles with double quotes can write any. -/
def Suits (cs : List Char) : Style → Prop
  | .basic | .basicLines => True
  | .literal => ∀ c ∈ cs, c ≠ '\'' ∧ isText c = true
  | .literalLines => (∀ c ∈ cs, c = '\n' ∨ isText c = true) ∧ longestRun '\'' 0 cs ≤ 2

theorem suits_literal
    (h : (!cs.any fun c => c == '\n' || c == '\'' || isControl c) = true) : Suits cs .literal := by
  intro c hc
  simp only [Bool.not_eq_true', List.any_eq_false, Bool.or_eq_true, beq_iff_eq, not_or,
    Bool.not_eq_true] at h
  obtain ⟨⟨hbreak, hquote⟩, hcontrol⟩ := h c hc
  exact ⟨hquote, isText_of_not_isControl hbreak hcontrol⟩

theorem suits_literalLines
    (h : (!cs.any isControl && decide (longestRun '\'' 0 cs < 3)) = true) :
    Suits cs .literalLines := by
  simp only [Bool.and_eq_true, Bool.not_eq_true', List.any_eq_false, Bool.not_eq_true,
    decide_eq_true_eq] at h
  refine ⟨fun c hc => ?_, by omega⟩
  by_cases hbreak : c = '\n'
  · exact .inl hbreak
  · exact .inr (isText_of_not_isControl hbreak (h.1 c hc))

theorem styleOf_suits (cs : List Char) : Suits cs (styleOf cs) := by
  rw [styleOf]
  split
  · trivial
  split
  · rename_i h
    refine suits_literal ?_
    simpa only [Bool.or_comm, Bool.or_left_comm] using h
  split
  · trivial
  split
  · rename_i h
    exact suits_literalLines h
  split <;> trivial

theorem string?_basic (h : ∀ r, t ≠ '"' :: '"' :: r) : string? ('"' :: t) = basic t := by
  rw [string?.eq_2]
  exact fun r heq => h r heq

theorem string?_literal (h : ∀ r, t ≠ '\'' :: '\'' :: r) : string? ('\'' :: t) = literal t := by
  rw [string?.eq_4]
  exact fun r heq => h r heq

/-- **A string in a style that suits it is read back.** No quote may follow it. -/
theorem string?_writeIn {style : Style} (h : Suits cs style) (hquote : rest.head? ≠ some '"')
    (hmark : rest.head? ≠ some '\'') : string? (writeIn cs style ++ rest) = some (cs, rest) := by
  cases style with
  | basic =>
    have htext : writeIn cs .basic ++ rest = '"' :: (cs.flatMap escapeChar ++ '"' :: rest) := by
      simp [writeIn]
    rw [htext, string?_basic, basic_escapes]
    intro r heq
    cases cs with
    | nil =>
      obtain rfl := (List.cons.inj heq).2
      exact hquote rfl
    | cons c cs =>
      obtain ⟨d, u, ht, hd, -⟩ := (escapeChar_spelling c).head
      rw [List.flatMap_cons, ht] at heq
      exact hd (List.cons.inj heq).1
  | literal =>
    have htext : writeIn cs .literal ++ rest = '\'' :: (cs ++ '\'' :: rest) := by
      simp [writeIn]
    rw [htext, string?_literal, literal_append h]
    intro r heq
    cases cs with
    | nil =>
      obtain rfl := (List.cons.inj heq).2
      exact hmark rfl
    | cons c cs => exact (h c List.mem_cons_self).1 (List.cons.inj heq).1
  | basicLines =>
    have htext : writeIn cs .basicLines ++ rest = '"' :: '"' :: '"' ::
        (firstBreak cs ++ (escapeLines 0 cs ++ '"' :: '"' :: '"' :: rest)) := by
      simp [writeIn]
    rw [htext, string?, dropLineEnd_firstBreak fun hbreak => head_escapeLines hbreak _,
      basicLines_append 0 (by omega) cs hquote]
  | literalLines =>
    have htext : writeIn cs .literalLines ++ rest = '\'' :: '\'' :: '\'' ::
        (firstBreak cs ++ (cs ++ '\'' :: '\'' :: '\'' :: rest)) := by
      simp [writeIn]
    have hhead : '\n' ∉ cs →
        ∀ d ∈ (cs ++ '\'' :: '\'' :: '\'' :: rest).head?, d ≠ '\n' ∧ d ≠ '\r' := by
      intro hbreak
      cases cs with
      | nil =>
        rintro d ⟨⟩
        decide
      | cons c cs =>
        have hne : c ≠ '\n' := fun heq => hbreak (heq ▸ List.mem_cons_self)
        rintro d ⟨⟩
        exact ⟨hne, ne_return_of_isText ((h.1 c List.mem_cons_self).resolve_left hne)⟩
    rw [htext, string?, dropLineEnd_firstBreak hhead, literalLines_append h.1 h.2 hmark]

/-- **A string at the end of its line is read back**, whatever characters it has. -/
theorem string?_writeString (s : String) (r : List Char) :
    string? (writeString s ++ '\n' :: r) = some (s.toList, '\n' :: r) :=
  string?_writeIn (styleOf_suits s.toList) (by simp) (by simp)

/-! ## Keys -/

/-- A key without quotes ends at the first character that cannot be part of it. -/
theorem simpleKey?_bare (hne : cs ≠ []) (hbare : ∀ c ∈ cs, isBare c = true)
    (hrest : ∀ d ∈ rest.head?, isBare d = false) :
    simpleKey? (cs ++ rest) = some (cs, rest) := by
  have htake : (cs ++ rest).takeWhile isBare = cs := by
    rw [List.takeWhile_append_of_pos hbare]
    cases rest with
    | nil => simp
    | cons d rest => simp [hrest d rfl]
  have hdrop : (cs ++ rest).dropWhile isBare = rest := by
    rw [List.dropWhile_append_of_pos hbare]
    cases rest with
    | nil => rfl
    | cons d rest => simp [hrest d rfl]
  obtain ⟨c, cs, rfl⟩ := List.exists_cons_of_ne_nil hne
  have hc := hbare c List.mem_cons_self
  rw [List.cons_append] at htake hdrop ⊢
  rw [simpleKey?.eq_3]
  · simp [htake, hdrop]
  · rintro r ⟨⟩
    exact absurd hc (by decide)
  · rintro r ⟨⟩
    exact absurd hc (by decide)

theorem simpleKey?_basic (cs rest : List Char) :
    simpleKey? (writeIn cs .basic ++ rest) = some (cs, rest) := by
  have htext : writeIn cs .basic ++ rest = '"' :: (cs.flatMap escapeChar ++ '"' :: rest) := by
    simp [writeIn]
  rw [htext, simpleKey?, basic_escapes]

theorem simpleKey?_literal (h : Suits cs .literal) (rest : List Char) :
    simpleKey? (writeIn cs .literal ++ rest) = some (cs, rest) := by
  have htext : writeIn cs .literal ++ rest = '\'' :: (cs ++ '\'' :: rest) := by
    simp [writeIn]
  rw [htext, simpleKey?, literal_append h]

/-- The four ways in which a key is written. -/
theorem writeKey_cases (k : String) :
    (writeKey k = k.toList ∧ k.toList ≠ [] ∧ ∀ c ∈ k.toList, isBare c = true) ∨
      writeKey k = writeIn k.toList .basic ∨
      (writeKey k = writeIn k.toList .literal ∧ Suits k.toList .literal) := by
  rw [writeKey]
  split
  · rename_i h
    exact .inl ⟨rfl, by simpa using h⟩
  split
  · exact .inr (.inl rfl)
  split
  · rename_i h
    exact .inr (.inr ⟨rfl, suits_literal h⟩)
  · exact .inr (.inl rfl)

/-- **A key is read back** before a blank. -/
theorem simpleKey?_writeKey (k : String) (r : List Char) :
    simpleKey? (writeKey k ++ ' ' :: r) = some (k.toList, ' ' :: r) := by
  rcases writeKey_cases k with ⟨hk, hne, hbare⟩ | hk | ⟨hk, hsuits⟩
  · rw [hk]
    refine simpleKey?_bare hne hbare ?_
    rintro d ⟨⟩
    decide
  · rw [hk, simpleKey?_basic]
  · rw [hk, simpleKey?_literal hsuits]

/-- A key begins neither with a blank nor with a bracket, nor with a mark that opens a comment. -/
theorem writeKey_head (k : String) :
    ∃ c t, writeKey k = c :: t ∧ isSpace c = false ∧ c ≠ '[' ∧ c ≠ '#' ∧ c ≠ '\n' ∧ c ≠ '\r' := by
  rcases writeKey_cases k with ⟨hk, hne, hbare⟩ | hk | ⟨hk, -⟩
  · obtain ⟨c, t, ht⟩ := List.exists_cons_of_ne_nil hne
    have hc := hbare c (ht ▸ List.mem_cons_self)
    rw [hk, ht]
    refine ⟨c, t, rfl, Bool.eq_false_iff.mpr fun h => ?_, ?_⟩
    · simp only [isSpace, Bool.or_eq_true, beq_iff_eq] at h
      rcases h with rfl | rfl <;> exact absurd hc (by decide)
    · refine ⟨?_, ?_, ?_, ?_⟩ <;>
      · rintro rfl
        exact absurd hc (by decide)
  · rw [hk]
    exact ⟨_, _, rfl, by decide⟩
  · rw [hk]
    exact ⟨_, _, rfl, by decide⟩

end AgentSupervisor.Toml
