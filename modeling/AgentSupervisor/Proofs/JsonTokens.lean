import AgentSupervisor.Json.Reader

/-!
# Tokens of JSON

The tokens with more than one spelling, strings and numbers, by their grammar. The reader takes a
token from the front of a text and hands back what follows it, and it takes nothing else.

* `Quoted`, `Quoted.taken`, `quoted_of_stringBody` : what stands inside quotes;
* `Numeral`, `Numeral.taken`, `numeral_of_number`  : numbers, as long as what follows does not carry
  them on.
-/

namespace AgentSupervisor.Json

open AgentSupervisor.Text (isDigit)

/-! ## Blanks -/

/-- The text does not begin with a character of this kind. -/
def Stops (p : Char → Bool) (r : List Char) : Prop := ∀ c t, r = c :: t → p c = false

theorem Stops.nil {p : Char → Bool} : Stops p [] := fun _ _ h => by cases h

theorem Stops.cons {p : Char → Bool} {c : Char} {r : List Char} (h : p c = false) :
    Stops p (c :: r) := fun _ _ e => by cases e; exact h

theorem Stops.mono {p q : Char → Bool} {r : List Char} (h : Stops p r)
    (hpq : ∀ c, p c = false → q c = false) : Stops q r := fun c t e => hpq c (h c t e)

theorem takeWhile_append_stops {p : Char → Bool} {ds r : List Char} (hd : ∀ c ∈ ds, p c = true)
    (hr : Stops p r) : (ds ++ r).takeWhile p = ds ∧ (ds ++ r).dropWhile p = r := by
  induction ds with
  | nil =>
    cases r with
    | nil => exact ⟨rfl, rfl⟩
    | cons c t => simp [hr c t rfl]
  | cons c ds ih =>
    have hc := hd c (by simp)
    have := ih fun x hx => hd x (by simp [hx])
    simp [hc, this.1, this.2]

theorem stops_dropWhile (p : Char → Bool) (cs : List Char) : Stops p (cs.dropWhile p) := by
  intro c t h
  have := List.head?_dropWhile_not p cs
  rw [h] at this
  simpa using this

/-- A row of blanks. -/
def Blanks (w : List Char) : Prop := ∀ b ∈ w, isBlank b = true

theorem Blanks.nil : Blanks [] := fun _ h => by cases h

/-- The blanks in front of a token, which do not matter. -/
theorem skipBlanks_cons {cs r : List Char} {c : Char} (h : skipBlanks cs = c :: r) :
    ∃ w, cs = w ++ c :: r ∧ Blanks w ∧ isBlank c = false := by
  refine ⟨cs.takeWhile isBlank, ?_, fun b hb => by
    exact List.all_eq_true.mp List.all_takeWhile b hb, ?_⟩
  · rw [← h, skipBlanks, List.takeWhile_append_dropWhile]
  · exact stops_dropWhile isBlank cs c r h

theorem skipBlanks_append {w r : List Char} (hw : Blanks w) (hr : Stops isBlank r) :
    skipBlanks (w ++ r) = r := (takeWhile_append_stops hw hr).2

theorem skipBlanks_of_stops {r : List Char} (hr : Stops isBlank r) : skipBlanks r = r :=
  skipBlanks_append .nil hr

/-! ## Strings -/

/-- Inside a string this is how a character is written. -/
def Spells (v : List Char) (c : Char) : Prop :=
  ∀ x, stringBody (v ++ x) = (stringBody x).map fun p => (c :: p.1, p.2)

theorem spells_pair {a b c d e f g h : Char} {n m : Nat} (hn : hex4 a b c d = some n)
    (hhigh : isHighSurrogate n = true) (hm : hex4 e f g h = some m)
    (hlow : isLowSurrogate m = true) :
    Spells ['\\', 'u', a, b, c, d, '\\', 'u', e, f, g, h] (pairChar n m) := by
  intro x
  simp only [List.cons_append, List.nil_append]
  rw [stringBody]
  simp [hn, hhigh, hm, hlow]

theorem spells_unit {a b c d : Char} {n : Nat} (hn : hex4 a b c d = some n)
    (hhigh : isHighSurrogate n = false) (hlow : isLowSurrogate n = false) :
    Spells ['\\', 'u', a, b, c, d] (Char.ofNat n) := by
  intro x
  simp only [List.cons_append, List.nil_append]
  rw [stringBody]
  simp [hn, hhigh, hlow]

theorem spells_short {c d : Char} (h : shortEscape c = some d) : Spells ['\\', c] d := by
  have hu : c ≠ 'u' := by rintro rfl; simp [shortEscape] at h
  intro x
  simp only [List.cons_append, List.nil_append]
  rw [stringBody.eq_4 c x (fun _ _ _ _ _ hc _ => hu hc), h]

theorem spells_self {c : Char} (hq : c ≠ '"') (hc : ¬ (c = '\\' ∨ c.toNat < 0x20)) :
    Spells [c] c := by
  have hb : c ≠ '\\' := fun e => hc (.inl e)
  intro x
  simp only [List.cons_append, List.nil_append]
  rw [stringBody.eq_5 c x hq (fun _ _ _ _ _ e _ => hb e) (fun _ _ e _ => hb e), if_neg hc]

/-- What may stand inside quotes, and the characters that it spells. -/
inductive Quoted : List Char → List Char → Prop where
  | nil : Quoted [] []
  | plain {c : Char} {u s : List Char} (hq : c ≠ '"') (hc : ¬ (c = '\\' ∨ c.toNat < 0x20))
      (h : Quoted u s) : Quoted (c :: u) (c :: s)
  | short {c d : Char} {u s : List Char} (hd : shortEscape c = some d) (h : Quoted u s) :
      Quoted ('\\' :: c :: u) (d :: s)
  | unit {a b c d : Char} {n : Nat} {u s : List Char} (hn : hex4 a b c d = some n)
      (hhigh : isHighSurrogate n = false) (hlow : isLowSurrogate n = false) (h : Quoted u s) :
      Quoted ('\\' :: 'u' :: a :: b :: c :: d :: u) (Char.ofNat n :: s)
  | pair {a b c d e f g i : Char} {n m : Nat} {u s : List Char} (hn : hex4 a b c d = some n)
      (hhigh : isHighSurrogate n = true) (hm : hex4 e f g i = some m)
      (hlow : isLowSurrogate m = true) (h : Quoted u s) :
      Quoted ('\\' :: 'u' :: a :: b :: c :: d :: '\\' :: 'u' :: e :: f :: g :: i :: u)
        (pairChar n m :: s)

theorem Spells.front {v t s r : List Char} {c : Char} (h : Spells v c)
    (ht : stringBody t = some (s, r)) : stringBody (v ++ t) = some (c :: s, r) := by
  rw [h, ht]; rfl

/-- What stands inside quotes is taken up to the closing quote. -/
theorem Quoted.taken {u s : List Char} (h : Quoted u s) (r : List Char) :
    stringBody (u ++ '"' :: r) = some (s, r) := by
  induction h with
  | nil => rfl
  | plain hq hc _ ih => exact (spells_self hq hc).front ih
  | short hd _ ih => exact (spells_short hd).front ih
  | unit hn hhigh hlow _ ih => exact (spells_unit hn hhigh hlow).front ih
  | pair hn hhigh hm hlow _ ih => exact (spells_pair hn hhigh hm hlow).front ih

theorem quoted_of_stringBody {cs s r : List Char} (h : stringBody cs = some (s, r)) :
    ∃ u, cs = u ++ '"' :: r ∧ Quoted u s := by
  -- one more character in front of a string that is taken
  have front : ∀ {t s r : List Char} {c : Char} (v : List Char),
      (stringBody t).map (fun p => (c :: p.1, p.2)) = some (s, r) →
      (∀ {s r : List Char}, stringBody t = some (s, r) → ∃ u, t = u ++ '"' :: r ∧ Quoted u s) →
      (∀ {u s : List Char}, Quoted u s → Quoted (v ++ u) (c :: s)) →
      ∃ u, v ++ t = u ++ '"' :: r ∧ Quoted u s := by
    intro t s r c v h ih hv
    obtain ⟨⟨s', r'⟩, ht, e⟩ := Option.map_eq_some_iff.mp h
    cases e
    obtain ⟨u, rfl, hu⟩ := ih ht
    exact ⟨v ++ u, by rw [List.append_assoc], hv hu⟩
  fun_induction stringBody cs generalizing s r with
  | case2 t => cases h; exact ⟨[], rfl, .nil⟩
  | case5 a b c d n hn hhigh e f g i r' m hm hlow ih =>
    exact front ['\\', 'u', a, b, c, d, '\\', 'u', e, f, g, i] h ih (.pair hn hhigh hm hlow)
  | case9 a b c d r' n hn hhigh hlow ih =>
    exact front ['\\', 'u', a, b, c, d] h ih
      (.unit hn (by simpa using hhigh) (by simpa using hlow))
  | case11 c r' _ d hd ih => exact front ['\\', c] h ih (.short hd)
  | case13 c r' hq _ _ hc ih => exact front [c] h ih (.plain hq hc)
  | _ => cases h

/-! ## Numbers -/

/-- A character with which a number may be carried on. -/
def isNumberChar (c : Char) : Bool := isDigit c || c == '.' || c == 'e' || c == 'E'

theorem isNumberChar_eq_false {c : Char} (h : isNumberChar c = false) :
    isDigit c = false ∧ c ≠ '.' ∧ c ≠ 'e' ∧ c ≠ 'E' := by
  simpa [isNumberChar, and_assoc] using h

theorem isBlank_of_digit {c : Char} (h : isDigit c = true) : isBlank c = false := by
  cases hb : isBlank c with
  | false => rfl
  | true =>
    simp only [isBlank, Bool.or_eq_true, beq_iff_eq] at hb
    rcases hb with ((rfl | rfl) | rfl) | rfl <;> exact absurd h (by decide)

/-- The text ends in a digit. -/
def EndsInDigit (u : List Char) : Prop := ∃ v c, u = v ++ [c] ∧ isDigit c = true

theorem EndsInDigit.append_left {u : List Char} (v : List Char) (h : EndsInDigit u) :
    EndsInDigit (v ++ u) := by
  obtain ⟨w, c, rfl, hc⟩ := h
  exact ⟨v ++ w, c, by rw [List.append_assoc], hc⟩

theorem EndsInDigit.append {u v : List Char} (hu : EndsInDigit u) (hv : v = [] ∨ EndsInDigit v) :
    EndsInDigit (u ++ v) := by
  rcases hv with rfl | hv
  · rwa [List.append_nil]
  · exact hv.append_left u

/-- Digits, and at least one of them. -/
structure Digits (ds : List Char) : Prop where
  ne_nil : ds ≠ []
  all : ∀ c ∈ ds, isDigit c = true

theorem Digits.taken {ds r : List Char} (h : Digits ds) (hr : Stops isDigit r) :
    (ds ++ r).takeWhile isDigit = ds ∧ (ds ++ r).dropWhile isDigit = r :=
  takeWhile_append_stops h.all hr

theorem digits_takeWhile {cs : List Char} (h : cs.takeWhile isDigit ≠ []) :
    Digits (cs.takeWhile isDigit) := ⟨h, List.all_eq_true.mp List.all_takeWhile⟩

theorem Digits.cons_eq {ds : List Char} (h : Digits ds) :
    ∃ c t, ds = c :: t ∧ isDigit c = true := by
  obtain ⟨c, t, rfl⟩ := List.exists_cons_of_ne_nil h.ne_nil
  exact ⟨c, t, rfl, h.all c (by simp)⟩

theorem Digits.endsInDigit {ds : List Char} (h : Digits ds) : EndsInDigit ds :=
  ⟨ds.dropLast, ds.getLast h.ne_nil, (List.dropLast_concat_getLast h.ne_nil).symm,
    h.all _ (List.getLast_mem h.ne_nil)⟩

/-- The text of a fraction, and its digits. -/
inductive Fraction : List Char → List Char → Prop where
  | absent : Fraction [] []
  | present {ds : List Char} (h : Digits ds) : Fraction ('.' :: ds) ds

theorem fraction_spelt {cs ds r : List Char} (h : fraction cs = some (ds, r)) :
    ∃ f, cs = f ++ r ∧ Fraction f ds := by
  unfold fraction at h
  split at h
  · rename_i t
    simp only at h
    split at h
    · cases h
    · rename_i hne
      cases h
      exact ⟨'.' :: t.takeWhile isDigit, by simp, .present (digits_takeWhile (by simpa using hne))⟩
  · cases h
    exact ⟨[], rfl, .absent⟩

/-- A fraction is taken, unless a digit or a point follows. -/
theorem Fraction.taken {f ds r : List Char} (h : Fraction f ds)
    (hr : Stops (fun c => isDigit c || c == '.') r) :
    fraction (f ++ r) = some (ds, r) ∧ Stops isDigit (f ++ r) := by
  have hdigit : Stops isDigit r := hr.mono fun c hc => by simp at hc; exact hc.1
  cases h with
  | absent =>
    refine ⟨?_, hdigit⟩
    rw [List.nil_append]
    unfold fraction
    split
    · have := hr '.' _ rfl
      simp at this
    · rfl
  | present hd =>
    obtain ⟨h1, h2⟩ := hd.taken hdigit
    exact ⟨by simp [fraction, h1, h2, hd.ne_nil], .cons (by decide)⟩

/-- A sign, or none. -/
def IsSign (s : List Char) : Prop := s = [] ∨ s = ['+'] ∨ s = ['-']

theorem sign_spelt (t : List Char) : t = (sign t).1 ++ (sign t).2 ∧ IsSign (sign t).1 := by
  unfold sign
  split
  · exact ⟨rfl, .inr (.inl rfl)⟩
  · exact ⟨rfl, .inr (.inr rfl)⟩
  · exact ⟨rfl, .inl rfl⟩

/-- A sign is taken in front of digits. -/
theorem IsSign.taken {s ds : List Char} (hs : IsSign s) (hd : Digits ds) (r : List Char) :
    sign (s ++ (ds ++ r)) = (s, ds ++ r) := by
  obtain ⟨c, t, rfl, hc⟩ := hd.cons_eq
  rcases hs with rfl | rfl | rfl
  · rw [List.nil_append, List.cons_append]
    unfold sign
    split
    · rename_i h; cases h; exact absurd hc (by decide)
    · rename_i h; cases h; exact absurd hc (by decide)
    · rfl
  · rfl
  · rfl

/-- The text of an exponent, with its value. -/
inductive Exponent : List Char → Option (List Char × Int) → Prop where
  | absent : Exponent [] none
  | present {c : Char} {s ds : List Char} (hc : c = 'e' ∨ c = 'E') (hs : IsSign s)
      (hd : Digits ds) : Exponent (c :: (s ++ ds))
        (some (c :: (s ++ ds),
          if s = ['-'] then -(Text.natOfDigits ds : Int) else Text.natOfDigits ds))

theorem exponent_spelt {cs r : List Char} {x : Option (List Char × Int)}
    (h : exponent cs = some (x, r)) : ∃ e, cs = e ++ r ∧ Exponent e x := by
  unfold exponent at h
  split at h
  · rename_i c t
    split at h
    · rename_i hc
      simp only at h
      split at h
      · cases h
      · rename_i hne
        cases h
        obtain ⟨ht, hs⟩ := sign_spelt t
        refine ⟨c :: ((sign t).1 ++ (sign t).2.takeWhile isDigit), ?_,
          .present hc hs (digits_takeWhile (by simpa using hne))⟩
        rw [List.cons_append, List.append_assoc, List.takeWhile_append_dropWhile, ← ht]
    · cases h
      exact ⟨[], rfl, .absent⟩
  · cases h
    exact ⟨[], rfl, .absent⟩

/-- An exponent is taken, unless a digit or a second exponent follows. -/
theorem Exponent.taken {e r : List Char} {x : Option (List Char × Int)} (h : Exponent e x)
    (hr : Stops isNumberChar r) :
    exponent (e ++ r) = some (x, r) ∧ Stops (fun c => isDigit c || c == '.') (e ++ r) := by
  cases h with
  | absent =>
    refine ⟨?_, hr.mono fun c hc => by simp [isNumberChar_eq_false hc]⟩
    cases r with
    | nil => rfl
    | cons c t => simp [exponent, isNumberChar_eq_false (hr c t rfl)]
  | present hc hs hd =>
    obtain ⟨h1, h2⟩ := hd.taken (hr.mono fun c hc => (isNumberChar_eq_false hc).1)
    refine ⟨?_, .cons ?_⟩
    · simp [exponent, hc, hs.taken hd, h1, h2, hd.ne_nil]
    · rcases hc with rfl | rfl <;> decide

/-- The value of a number is a number. -/
def IsNumber : Json → Prop
  | .integer _ => True
  | .decimal _ => True
  | _ => False

theorem isNumber_ofNumeral {negative : Bool} {whole frac : List Char}
    {exp : Option (List Char × Int)} {j : Json} (h : ofNumeral negative whole frac exp = some j) :
    IsNumber j := by
  unfold ofNumeral at h
  simp only at h
  split at h
  · cases h; trivial
  · split at h
    · cases h; trivial
    · split at h
      · cases h
      · cases h; trivial

/-- The text of a number behind its sign, and its value: digits without a leading zero, a
    fraction and an exponent. -/
inductive Magnitude (negative : Bool) : List Char → Json → Prop where
  | mk {whole f frac e : List Char} {exp : Option (List Char × Int)} {j : Json}
      (hw : Digits whole) (hzero : whole.head? = some '0' → whole.length ≤ 1)
      (hf : Fraction f frac) (he : Exponent e exp)
      (hj : ofNumeral negative whole frac exp = some j) :
      Magnitude negative (whole ++ (f ++ e)) j

theorem magnitude_spelt {negative : Bool} {cs r : List Char} {j : Json}
    (h : magnitude negative cs = some (j, r)) : ∃ u, cs = u ++ r ∧ Magnitude negative u j := by
  unfold magnitude at h
  simp only at h
  split at h
  · cases h
  rename_i hw
  obtain ⟨⟨frac, r1⟩, hf, h⟩ := Option.bind_eq_some_iff.mp h
  obtain ⟨⟨exp, r2⟩, he, h⟩ := Option.bind_eq_some_iff.mp h
  obtain ⟨j', hj, h⟩ := Option.bind_eq_some_iff.mp h
  cases h
  simp only [Bool.or_eq_true, not_or, Bool.and_eq_true, beq_iff_eq, decide_eq_true_eq, not_and,
    Nat.not_lt, List.isEmpty_iff] at hw
  obtain ⟨f, hcf, hf⟩ := fraction_spelt hf
  obtain ⟨e, hce, he⟩ := exponent_spelt he
  refine ⟨cs.takeWhile isDigit ++ (f ++ e), ?_, .mk (digits_takeWhile hw.1) hw.2 hf he hj⟩
  rw [List.append_assoc, List.append_assoc, ← hce, ← hcf, List.takeWhile_append_dropWhile]

theorem Magnitude.taken {negative : Bool} {u r : List Char} {j : Json}
    (h : Magnitude negative u j) (hr : Stops isNumberChar r) :
    magnitude negative (u ++ r) = some (j, r) := by
  cases h with
  | @mk whole f frac e exp _ hw hzero hf he hj =>
    obtain ⟨he', stope⟩ := he.taken hr
    obtain ⟨hf', stopf⟩ := hf.taken stope
    obtain ⟨h1, h2⟩ := hw.taken stopf
    have hw' : ¬ (whole.isEmpty || (whole.head? == some '0' && decide (1 < whole.length))) = true := by
      simpa [hw.ne_nil] using hzero
    unfold magnitude
    simp only [List.append_assoc, h1, h2, if_neg hw', hf', he', hj, Option.bind_eq_bind,
      Option.bind_some, Option.pure_def]

/-- The text of a number, and its value. -/
inductive Numeral : List Char → Json → Prop where
  | plain {u : List Char} {j : Json} (h : Magnitude false u j) : Numeral u j
  | minus {u : List Char} {j : Json} (h : Magnitude true u j) : Numeral ('-' :: u) j

theorem numeral_of_number {cs r : List Char} {j : Json} (h : number cs = some (j, r)) :
    ∃ u, cs = u ++ r ∧ Numeral u j := by
  unfold number at h
  split at h
  · obtain ⟨u, rfl, hu⟩ := magnitude_spelt h
    exact ⟨'-' :: u, rfl, .minus hu⟩
  · obtain ⟨u, rfl, hu⟩ := magnitude_spelt h
    exact ⟨u, rfl, .plain hu⟩

theorem Magnitude.begins {negative : Bool} {u : List Char} {j : Json}
    (h : Magnitude negative u j) : ∃ c t, u = c :: t ∧ isDigit c = true := by
  cases h with
  | mk hw =>
    obtain ⟨c, t, rfl, hc⟩ := hw.cons_eq
    exact ⟨c, _, rfl, hc⟩

/-- A number is taken, unless what follows carries it on. -/
theorem Numeral.taken {u r : List Char} {j : Json} (h : Numeral u j)
    (hr : Stops isNumberChar r) : number (u ++ r) = some (j, r) := by
  cases h with
  | plain h =>
    rw [← h.taken hr]
    obtain ⟨c, t, rfl, hc⟩ := h.begins
    rw [List.cons_append, number]
    intro r' e
    cases e
    exact absurd hc (by decide)
  | minus h => exact h.taken hr

/-- A character with which a number may begin. -/
def opensNumber (c : Char) : Bool := c == '-' || isDigit c

theorem Numeral.begins {u : List Char} {j : Json} (h : Numeral u j) :
    ∃ c t, u = c :: t ∧ opensNumber c = true := by
  cases h with
  | plain h =>
    obtain ⟨c, t, rfl, hc⟩ := h.begins
    exact ⟨c, t, rfl, by simp [opensNumber, hc]⟩
  | minus => exact ⟨'-', _, rfl, rfl⟩

theorem Fraction.endsInDigit {f frac : List Char} (h : Fraction f frac) :
    f = [] ∨ EndsInDigit f := by
  cases h with
  | absent => exact .inl rfl
  | present hd => exact .inr (hd.endsInDigit.append_left ['.'])

theorem Exponent.endsInDigit {e : List Char} {x : Option (List Char × Int)} (h : Exponent e x) :
    e = [] ∨ EndsInDigit e := by
  cases h with
  | absent => exact .inl rfl
  | @present c s ds _ _ hd => exact .inr (hd.endsInDigit.append_left (c :: s))

theorem Numeral.endsInDigit {u : List Char} {j : Json} (h : Numeral u j) : EndsInDigit u := by
  have magnitude : ∀ {negative u}, Magnitude negative u j → EndsInDigit u := by
    rintro _ _ ⟨hw, -, hf, he, -⟩
    rw [← List.append_assoc]
    exact (hw.endsInDigit.append hf.endsInDigit).append he.endsInDigit
  cases h with
  | plain h => exact magnitude h
  | minus h => exact (magnitude h).append_left ['-']

theorem Numeral.isNumber {u : List Char} {j : Json} (h : Numeral u j) : IsNumber j := by
  rcases h with ⟨⟨_, _, _, _, hj⟩⟩ | ⟨⟨_, _, _, _, hj⟩⟩ <;> exact isNumber_ofNumeral hj

theorem number_of_not_opens {c : Char} {t : List Char} (h : opensNumber c = false) :
    number (c :: t) = none := by
  cases hn : number (c :: t) with
  | none => rfl
  | some p =>
    obtain ⟨u, hu, hnum⟩ := numeral_of_number (j := p.1) (r := p.2) hn
    obtain ⟨d, s, rfl, hd⟩ := hnum.begins
    cases hu
    rw [h] at hd; cases hd

end AgentSupervisor.Json
