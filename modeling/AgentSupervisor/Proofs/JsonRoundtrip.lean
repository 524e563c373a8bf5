import AgentSupervisor.Proofs.JsonValues

/-!
# Written JSON is read back

* `spelt_render`  : a written value is one of the spellings of that value;
* `parse?_render` : a written value is the one value of its text;
* `isFree_render` : a written value stands on one line.

Numbers have to be integers of 64 bits, and no more than `maxDepth` arrays and objects may lie
within each other.
-/

namespace AgentSupervisor.Json

open AgentSupervisor.Text (isDigit bound64)

/-! ## Strings -/

theorem hexValue_hexDigit : ∀ d, d < 16 → Text.hexValue (hexDigit d) = some d := by decide

theorem Quoted.escapeChar {u s : List Char} (c : Char) (h : Quoted u s) :
    Quoted (escapeChar c ++ u) (c :: s) := by
  unfold Json.escapeChar
  split
  · subst_vars; exact .short rfl h
  split
  · subst_vars; exact .short rfl h
  split
  · subst_vars; exact .short rfl h
  split
  · subst_vars; exact .short rfl h
  split
  · subst_vars; exact .short rfl h
  split
  · subst_vars; exact .short rfl h
  split
  · subst_vars; exact .short rfl h
  split
  · have h1 := hexValue_hexDigit (c.toNat / 16) (by omega)
    have h2 := hexValue_hexDigit (c.toNat % 16) (by omega)
    have h0 : Text.hexValue '0' = some 0 := by decide
    have hx : hex4 '0' '0' (hexDigit (c.toNat / 16)) (hexDigit (c.toNat % 16)) = some c.toNat := by
      simp only [hex4, h0, h1, h2, Option.bind_eq_bind, Option.bind_some, Option.pure_def,
        Option.some.injEq]
      omega
    have := h.unit hx (by simp [isHighSurrogate]; omega) (by simp [isLowSurrogate]; omega)
    rwa [Char.ofNat_toNat] at this
  · rename_i hq hb _ _ _ _ _ hc
    exact h.plain hq (by rintro (e | e); exacts [hb e, hc e])

theorem quoted_escape (cs : List Char) : Quoted (escape cs) cs := by
  induction cs with
  | nil => exact .nil
  | cons c cs ih => exact ih.escapeChar c

/-! ## Numbers -/

theorem magnitude_decimal {negative : Bool} {n : Nat} {j : Json}
    (h : ofNumeral negative (Text.decimal n) [] none = some j) :
    Magnitude negative (Text.decimal n) j := by
  obtain ⟨c, t, ht, -, hzero⟩ := Text.decimal_cons n
  have hd : Digits (Text.decimal n) := ⟨by simp [ht], Text.decimal_all_digit n⟩
  have := Magnitude.mk hd (fun h0 => ?_) .absent .absent h
  · simpa using this
  · rw [ht] at h0 ⊢
    have hc : c = '0' := by simpa using h0
    simp [hzero hc]

/-- The integers that are written and read in 64 bits. -/
def IsWord (n : Int) : Prop := -0x8000000000000000 ≤ n ∧ n < bound64

theorem numeral_decimalInt {n : Int} (hn : IsWord n) : Numeral (Text.decimalInt n) (.integer n) := by
  cases n with
  | ofNat n =>
    have hb : n < bound64 := Int.ofNat_lt.mp hn.2
    exact .plain (magnitude_decimal (by simp [ofNumeral, Text.natOfDigits_decimal, hb]))
  | negSucc n =>
    have hb : n + 1 ≤ 0x8000000000000000 := by have := hn.1; omega
    refine .minus (magnitude_decimal ?_)
    simp [ofNumeral, Text.natOfDigits_decimal, hb]
    omega

/-! ## Values -/

mutual

/-- Numbers are integers of 64 bits, and at most `depth` arrays and objects lie within each
    other. -/
def Fits : (depth : Nat) → Json → Prop
  | _, .integer n => IsWord n
  | _, .decimal _ => False
  | d, .array xs => d ≠ 0 ∧ FitItems (d - 1) xs
  | d, .object ms => d ≠ 0 ∧ FitMembers (d - 1) ms
  | _, _ => True

def FitItems : (depth : Nat) → List Json → Prop
  | _, [] => True
  | d, x :: xs => Fits d x ∧ FitItems d xs

def FitMembers : (depth : Nat) → List (String × Json) → Prop
  | _, [] => True
  | d, (_, v) :: ms => Fits d v ∧ FitMembers d ms

end

/-- The items of an array with the closing bracket. -/
def itemsText : List Json → List Char
  | [] => []
  | x :: xs => render x ++ renderItems xs

/-- The members of an object with the closing brace. -/
def membersText : List (String × Json) → List Char
  | [] => []
  | (k, v) :: ms => quote k ++ ':' :: (render v ++ renderMembers ms)

theorem Spelt.padded {d : Nat} {j : Json} {u : List Char} (h : Spelt d j u) : Padded d j u := by
  simpa using Padded.mk .nil h .nil

theorem Spelt.member {d : Nat} {v : Json} {u : List Char} (k : String) (h : Spelt d v u) :
    SpeltMember d (k, v) (quote k ++ ':' :: u) := by
  have := SpeltMember.mk .nil (quoted_escape k.toList) .nil h.padded
  rw [String.ofList_toList] at this
  simpa [quote] using this

mutual

/-- **A written value is spelt.** -/
theorem spelt_render : ∀ (j : Json) (d : Nat), Fits d j → Spelt d j (render j)
  | .null, _, _ => .null
  | .bool true, _, _ => .yes
  | .bool false, _, _ => .no
  | .integer _, _, h => .number (numeral_decimalInt h)
  | .decimal _, _, h => absurd h id
  | .string s, d, _ => by
    have := Spelt.string (d := d) (quoted_escape s.toList)
    rwa [String.ofList_toList] at this
  | .array _, 0, h => absurd rfl h.1
  | .array [], d + 1, _ => .emptyArray .nil
  | .array (x :: xs), d + 1, h => .array (spelt_itemsText (x :: xs) d h.2 (by simp))
  | .object _, 0, h => absurd rfl h.1
  | .object [], d + 1, _ => .emptyObject .nil
  | .object ((k, v) :: ms), d + 1, h => .object (spelt_membersText ((k, v) :: ms) d h.2 (by simp))

theorem spelt_itemsText : ∀ (xs : List Json) (d : Nat), FitItems d xs → xs ≠ [] →
    SpeltItems d xs (itemsText xs)
  | [], _, _, hne => absurd rfl hne
  | [x], d, h, _ => .last (spelt_render x d h.1).padded
  | x :: y :: ys, d, h, _ =>
    .more (spelt_render x d h.1).padded (spelt_itemsText (y :: ys) d h.2 (by simp))

theorem spelt_membersText : ∀ (ms : List (String × Json)) (d : Nat), FitMembers d ms → ms ≠ [] →
    SpeltMembers d ms (membersText ms)
  | [], _, _, hne => absurd rfl hne
  | [(k, v)], d, h, _ => by
    have := SpeltMembers.last ((spelt_render v d h.1).member k)
    rwa [List.append_assoc, List.cons_append] at this
  | (k, v) :: (k', v') :: ms, d, h, _ => by
    have := SpeltMembers.more ((spelt_render v d h.1).member k)
      (spelt_membersText ((k', v') :: ms) d h.2 (by simp))
    rwa [List.append_assoc, List.cons_append] at this

end

/-- A written value stands among its texts. -/
theorem textOf_render {j : Json} (h : Fits maxDepth j) : TextOf j (render j) :=
  (spelt_render j maxDepth h).padded

/-- **A written value is the one value of its text.** -/
theorem parse?_render {j : Json} (h : Fits maxDepth j) : parse? (render j) = some j :=
  parse?_eq_some_iff.mpr (textOf_render h)

theorem endsTight_render {d : Nat} {j : Json} (h : Fits d j) : EndsTight (render j) :=
  (spelt_render j d h).endsTight

/-! ## Written text stands on one line -/

/-- No character of the text is a control character. -/
def IsFree (cs : List Char) : Prop := ∀ c ∈ cs, 0x20 ≤ c.toNat

theorem isFree_append {cs ds : List Char} : IsFree (cs ++ ds) ↔ IsFree cs ∧ IsFree ds := by
  simp [IsFree, or_imp, forall_and]

theorem isFree_cons {c : Char} {cs : List Char} :
    IsFree (c :: cs) ↔ 0x20 ≤ c.toNat ∧ IsFree cs := by
  simp [IsFree]

theorem isFree_nil : IsFree [] := fun _ h => by cases h

theorem toNat_hexDigit : ∀ d, d < 16 → 0x20 ≤ (hexDigit d).toNat := by decide

theorem isFree_pair {c : Char} (h : 0x20 ≤ c.toNat) : IsFree ['\\', c] :=
  isFree_cons.mpr ⟨by decide, isFree_cons.mpr ⟨h, isFree_nil⟩⟩

theorem isFree_escapeChar (c : Char) : IsFree (escapeChar c) := by
  unfold escapeChar
  split
  · exact isFree_pair (by decide)
  split
  · exact isFree_pair (by decide)
  split
  · exact isFree_pair (by decide)
  split
  · exact isFree_pair (by decide)
  split
  · exact isFree_pair (by decide)
  split
  · exact isFree_pair (by decide)
  split
  · exact isFree_pair (by decide)
  split
  · have h1 := toNat_hexDigit (c.toNat / 16) (by omega)
    have h2 := toNat_hexDigit (c.toNat % 16) (by omega)
    simp only [isFree_cons]
    exact ⟨by decide, by decide, by decide, by decide, h1, h2, isFree_nil⟩
  · exact isFree_cons.mpr ⟨by omega, isFree_nil⟩

theorem isFree_quote (s : String) : IsFree (quote s) := by
  refine isFree_cons.mpr ⟨by decide, isFree_append.mpr ⟨fun c hc => ?_, ?_⟩⟩
  · obtain ⟨d, -, hd⟩ := List.mem_flatMap.mp hc
    exact isFree_escapeChar d c hd
  · exact isFree_cons.mpr ⟨by decide, isFree_nil⟩

theorem isFree_decimal (n : Nat) : IsFree (Text.decimal n) := by
  intro c hc
  have := Text.decimal_all_digit n c hc
  simp only [isDigit, Bool.and_eq_true, decide_eq_true_eq] at this
  have h0 : '0'.toNat ≤ c.toNat := this.1
  have : '0'.toNat = 48 := rfl
  omega

mutual

/-- A written value holds no control character, and so no line feed. -/
theorem isFree_render : ∀ (j : Json) (d : Nat), Fits d j → IsFree (render j)
  | .null, _, _ => by simp [render, isFree_cons, isFree_nil]
  | .bool true, _, _ => by simp [render, isFree_cons, isFree_nil]
  | .bool false, _, _ => by simp [render, isFree_cons, isFree_nil]
  | .integer (.ofNat n), _, _ => isFree_decimal n
  | .integer (.negSucc n), _, _ => isFree_cons.mpr ⟨by decide, isFree_decimal (n + 1)⟩
  | .decimal _, _, h => absurd h id
  | .string s, _, _ => isFree_quote s
  | .array [], _, _ => by simp [render, isFree_cons, isFree_nil]
  | .array (x :: xs), d, h =>
    isFree_cons.mpr ⟨by decide, isFree_append.mpr
      ⟨isFree_render x (d - 1) h.2.1, isFree_renderItems xs (d - 1) h.2.2⟩⟩
  | .object [], _, _ => by simp [render, isFree_cons, isFree_nil]
  | .object ((k, v) :: ms), d, h =>
    isFree_cons.mpr ⟨by decide, isFree_append.mpr ⟨isFree_quote k, isFree_cons.mpr ⟨by decide,
      isFree_append.mpr ⟨isFree_render v (d - 1) h.2.1, isFree_renderMembers ms (d - 1) h.2.2⟩⟩⟩⟩

theorem isFree_renderItems : ∀ (xs : List Json) (d : Nat), FitItems d xs → IsFree (renderItems xs)
  | [], _, _ => isFree_cons.mpr ⟨by decide, isFree_nil⟩
  | x :: xs, d, h => isFree_cons.mpr ⟨by decide, isFree_append.mpr
      ⟨isFree_render x d h.1, isFree_renderItems xs d h.2⟩⟩

theorem isFree_renderMembers :
    ∀ (ms : List (String × Json)) (d : Nat), FitMembers d ms → IsFree (renderMembers ms)
  | [], _, _ => isFree_cons.mpr ⟨by decide, isFree_nil⟩
  | (k, v) :: ms, d, h => isFree_cons.mpr ⟨by decide, isFree_append.mpr ⟨isFree_quote k,
      isFree_cons.mpr ⟨by decide, isFree_append.mpr
        ⟨isFree_render v d h.1, isFree_renderMembers ms d h.2⟩⟩⟩⟩

end

end AgentSupervisor.Json
