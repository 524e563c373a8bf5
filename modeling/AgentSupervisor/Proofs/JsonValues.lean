import Mathlib.Data.List.TakeWhile
import AgentSupervisor.Proofs.JsonTokens

/-!
# The texts of a JSON value

The grammar of JSON values, with the depth that they may have and any blanks between their tokens.

* `Spelt`, `TextOf`    : a value without blanks around it, and a whole text;
* `readsAt`            : the reader takes whatever is spelt;
* `spellsAt`           : whatever the reader takes is spelt;
* `parse?_eq_some_iff` : a text is read as a value exactly when it is one of its texts.
-/

namespace AgentSupervisor.Json

/-! ## Pieces of a text -/

theorem skipBlanks_eq_nil_iff {r : List Char} : skipBlanks r = [] ↔ Blanks r :=
  List.dropWhile_eq_nil_iff

/-- The text ends in a character that is no blank. -/
def EndsTight (u : List Char) : Prop := ∃ v c, u = v ++ [c] ∧ isBlank c = false

theorem EndsTight.of_digit {u : List Char} (h : EndsInDigit u) : EndsTight u := by
  obtain ⟨v, c, rfl, hc⟩ := h
  exact ⟨v, c, rfl, isBlank_of_digit hc⟩

/-- Only a number can be carried on by what follows it. -/
def MayFollow (j : Json) (r : List Char) : Prop := IsNumber j → Stops isNumberChar r

theorem isNumberChar_of_blank {b : Char} (hb : isBlank b = true) : isNumberChar b = false := by
  simp only [isBlank, Bool.or_eq_true, beq_iff_eq] at hb
  rcases hb with ((rfl | rfl) | rfl) | rfl <;> decide

/-- What stands between the parts of an array or an object does not carry on a number. -/
theorem mayFollow_of_skipBlanks {j : Json} {w r : List Char} {c : Char} (hw : Blanks w)
    (hc : isNumberChar c = false) : MayFollow j (w ++ c :: r) := by
  intro _ d t e
  cases w with
  | nil => cases e; exact hc
  | cons b w => cases e; exact isNumberChar_of_blank (hw d (by simp))

theorem mayFollow_of_blanks {j : Json} {w : List Char} (hw : Blanks w) : MayFollow j w := by
  rintro - d t rfl
  exact isNumberChar_of_blank (hw d (by simp))

/-! ## The grammar -/

mutual

/-- The texts of a value, from its first character to its last. At most `depth` arrays and objects
    lie within each other. -/
inductive Spelt : (depth : Nat) → Json → List Char → Prop where
  | null {d : Nat} : Spelt d .null ['n', 'u', 'l', 'l']
  | yes {d : Nat} : Spelt d (.bool true) ['t', 'r', 'u', 'e']
  | no {d : Nat} : Spelt d (.bool false) ['f', 'a', 'l', 's', 'e']
  | number {d : Nat} {j : Json} {u : List Char} (h : Numeral u j) : Spelt d j u
  | string {d : Nat} {u s : List Char} (h : Quoted u s) :
      Spelt d (.string (String.ofList s)) ('"' :: (u ++ ['"']))
  | emptyArray {d : Nat} {w : List Char} (hw : Blanks w) :
      Spelt (d + 1) (.array []) ('[' :: (w ++ [']']))
  | array {d : Nat} {xs : List Json} {u : List Char} (h : SpeltItems d xs u) :
      Spelt (d + 1) (.array xs) ('[' :: u)
  | emptyObject {d : Nat} {w : List Char} (hw : Blanks w) :
      Spelt (d + 1) (.object []) ('\x7b' :: (w ++ ['\x7d']))
  | object {d : Nat} {ms : List (String × Json)} {u : List Char} (h : SpeltMembers d ms u) :
      Spelt (d + 1) (.object ms) ('\x7b' :: u)

/-- A value with blanks around it. -/
inductive Padded : (depth : Nat) → Json → List Char → Prop where
  | mk {d : Nat} {j : Json} {w u w' : List Char} (hw : Blanks w) (h : Spelt d j u)
      (hw' : Blanks w') : Padded d j (w ++ (u ++ w'))

/-- The items of an array with the closing bracket. -/
inductive SpeltItems : (depth : Nat) → List Json → List Char → Prop where
  | last {d : Nat} {x : Json} {u : List Char} (hx : Padded d x u) : SpeltItems d [x] (u ++ [']'])
  | more {d : Nat} {x : Json} {xs : List Json} {u v : List Char} (hx : Padded d x u)
      (hxs : SpeltItems d xs v) : SpeltItems d (x :: xs) (u ++ ',' :: v)

/-- A key and its value. -/
inductive SpeltMember : (depth : Nat) → String × Json → List Char → Prop where
  | mk {d : Nat} {k s w w' u : List Char} {v : Json} (hw : Blanks w) (hk : Quoted k s)
      (hw' : Blanks w') (hv : Padded d v u) :
      SpeltMember d (String.ofList s, v) (w ++ '"' :: (k ++ '"' :: (w' ++ ':' :: u)))

/-- The members of an object with the closing brace. -/
inductive SpeltMembers : (depth : Nat) → List (String × Json) → List Char → Prop where
  | last {d : Nat} {m : String × Json} {u : List Char} (hm : SpeltMember d m u) :
      SpeltMembers d [m] (u ++ ['\x7d'])
  | more {d : Nat} {m : String × Json} {ms : List (String × Json)} {u v : List Char}
      (hm : SpeltMember d m u) (hms : SpeltMembers d ms v) :
      SpeltMembers d (m :: ms) (u ++ ',' :: v)

end

/-- The texts of a value, with any blanks between its tokens and around it. -/
def TextOf (j : Json) (cs : List Char) : Prop := Padded maxDepth j cs

theorem isBlank_of_opensNumber {c : Char} (h : opensNumber c = true) : isBlank c = false := by
  rcases Bool.or_eq_true_iff.mp h with h | h
  · rw [beq_iff_eq.mp h]; decide
  · exact isBlank_of_digit h

/-- A value begins with a character of its own. -/
theorem Spelt.begins {d : Nat} {j : Json} {u : List Char} (h : Spelt d j u) :
    ∃ c t, u = c :: t ∧ isBlank c = false ∧ c ≠ ']' := by
  cases h with
  | number h =>
    obtain ⟨c, t, rfl, hc⟩ := h.begins
    exact ⟨c, t, rfl, isBlank_of_opensNumber hc, by rintro rfl; exact absurd hc (by decide)⟩
  | _ => exact ⟨_, _, rfl, by decide, by decide⟩

theorem Spelt.stops {d : Nat} {j : Json} {u : List Char} (h : Spelt d j u) (r : List Char) :
    Stops isBlank (u ++ r) := by
  obtain ⟨c, t, rfl, hc, -⟩ := h.begins
  exact .cons hc

theorem SpeltItems.begins {d : Nat} {xs : List Json} {u : List Char} (h : SpeltItems d xs u)
    (r : List Char) : ∃ c t, skipBlanks (u ++ r) = c :: t ∧ c ≠ ']' := by
  have padded : ∀ {x u} (r : List Char), Padded d x u →
      ∃ c t, skipBlanks (u ++ r) = c :: t ∧ c ≠ ']' := by
    rintro x _ r ⟨hw, hx, -⟩
    rw [List.append_assoc, List.append_assoc, skipBlanks_append hw (hx.stops _)]
    obtain ⟨c, t, rfl, -, hc⟩ := hx.begins
    exact ⟨c, _, rfl, hc⟩
  cases h with
  | last hx => rw [List.append_assoc]; exact padded _ hx
  | more hx => rw [List.append_assoc]; exact padded _ hx

theorem SpeltMembers.begins {d : Nat} {ms : List (String × Json)} {u : List Char}
    (h : SpeltMembers d ms u) (r : List Char) : ∃ t, skipBlanks (u ++ r) = '"' :: t := by
  have member : ∀ {m u} (r : List Char), SpeltMember d m u → ∃ t, skipBlanks (u ++ r) = '"' :: t := by
    rintro m _ r ⟨hw, -, -, -⟩
    rw [List.append_assoc, List.cons_append, skipBlanks_append hw (.cons (by decide))]
    exact ⟨_, rfl⟩
  cases h with
  | last hm => rw [List.append_assoc]; exact member _ hm
  | more hm => rw [List.append_assoc]; exact member _ hm

theorem SpeltItems.ends {d : Nat} {xs : List Json} {u : List Char} (h : SpeltItems d xs u) :
    ∃ v, u = v ++ [']'] := by
  induction xs generalizing u with
  | nil => cases h
  | cons x xs ih =>
    cases h with
    | last hx => exact ⟨_, rfl⟩
    | @more _ _ _ u v hx hxs =>
      obtain ⟨v, rfl⟩ := ih hxs
      exact ⟨u ++ ',' :: v, by simp⟩

theorem SpeltMembers.ends {d : Nat} {ms : List (String × Json)} {u : List Char}
    (h : SpeltMembers d ms u) : ∃ v, u = v ++ ['\x7d'] := by
  induction ms generalizing u with
  | nil => cases h
  | cons m ms ih =>
    cases h with
    | last hm => exact ⟨_, rfl⟩
    | @more _ _ _ u v hm hms =>
      obtain ⟨v, rfl⟩ := ih hms
      exact ⟨u ++ ',' :: v, by simp⟩

/-- A value ends with a character of its own. -/
theorem Spelt.endsTight {d : Nat} {j : Json} {u : List Char} (h : Spelt d j u) : EndsTight u := by
  cases h with
  | null => exact ⟨['n', 'u', 'l'], 'l', rfl, by decide⟩
  | yes => exact ⟨['t', 'r', 'u'], 'e', rfl, by decide⟩
  | no => exact ⟨['f', 'a', 'l', 's'], 'e', rfl, by decide⟩
  | number h => exact .of_digit h.endsInDigit
  | @string d u s h => exact ⟨'"' :: u, '"', rfl, by decide⟩
  | @emptyArray d w hw => exact ⟨'[' :: w, ']', rfl, by decide⟩
  | @emptyObject d w hw => exact ⟨'\x7b' :: w, '\x7d', rfl, by decide⟩
  | array h =>
    obtain ⟨v, rfl⟩ := h.ends
    exact ⟨'[' :: v, ']', rfl, by decide⟩
  | object h =>
    obtain ⟨v, rfl⟩ := h.ends
    exact ⟨'\x7b' :: v, '\x7d', rfl, by decide⟩

/-! ## Values by their first character -/

section FirstCharacter

variable (f d : Nat) (r : List Char)

theorem value_null : value (f + 1) d ('n' :: 'u' :: 'l' :: 'l' :: r) = some (.null, r) := rfl

theorem value_true : value (f + 1) d ('t' :: 'r' :: 'u' :: 'e' :: r) = some (.bool true, r) := rfl

theorem value_false :
    value (f + 1) d ('f' :: 'a' :: 'l' :: 's' :: 'e' :: r) = some (.bool false, r) := rfl

theorem value_string : value (f + 1) d ('"' :: r) =
    (stringBody r).map fun p => (.string (String.ofList p.1), p.2) := rfl

theorem value_bracket : value (f + 1) d ('[' :: r) =
    if d = 0 then none
    else match skipBlanks r with
      | ']' :: r' => some (.array [], r')
      | _ => (items f (d - 1) r).map fun p => (.array p.1, p.2) := rfl

theorem value_brace : value (f + 1) d ('\x7b' :: r) =
    if d = 0 then none
    else match skipBlanks r with
      | '\x7d' :: r' => some (.object [], r')
      | _ => (members f (d - 1) r).map fun p => (.object p.1, p.2) := rfl

variable {f d r}

theorem value_array_nil {r' : List Char} (hd : d ≠ 0) (h : skipBlanks r = ']' :: r') :
    value (f + 1) d ('[' :: r) = some (.array [], r') := by
  rw [value_bracket, if_neg hd, h]
  rfl

theorem value_array {c : Char} {t : List Char} (hd : d ≠ 0) (h : skipBlanks r = c :: t)
    (hc : c ≠ ']') :
    value (f + 1) d ('[' :: r) = (items f (d - 1) r).map fun p => (.array p.1, p.2) := by
  rw [value_bracket, if_neg hd, h]
  split
  · rename_i e
    cases e
    exact absurd rfl hc
  · rfl

theorem value_object_nil {r' : List Char} (hd : d ≠ 0) (h : skipBlanks r = '\x7d' :: r') :
    value (f + 1) d ('\x7b' :: r) = some (.object [], r') := by
  rw [value_brace, if_neg hd, h]
  rfl

theorem value_object {c : Char} {t : List Char} (hd : d ≠ 0) (h : skipBlanks r = c :: t)
    (hc : c ≠ '\x7d') :
    value (f + 1) d ('\x7b' :: r) = (members f (d - 1) r).map fun p => (.object p.1, p.2) := by
  rw [value_brace, if_neg hd, h]
  split
  · rename_i e
    cases e
    exact absurd rfl hc
  · rfl

theorem value_number {c : Char} (hc : opensNumber c = true) :
    value (f + 1) d (c :: r) = number (c :: r) := by
  rw [value, skipBlanks_of_stops (.cons (isBlank_of_opensNumber hc))]
  split
  case h_7 => rfl
  all_goals
    rename_i e
    cases e
    exact absurd hc (by decide)

theorem value_append_blanks {w t : List Char} (hw : Blanks w) (ht : Stops isBlank t) :
    value (f + 1) d (w ++ t) = value (f + 1) d t := by
  rw [value, value, skipBlanks_append hw ht, skipBlanks_of_stops ht]

end FirstCharacter

/-! ## Members -/

section Members

variable {f d : Nat} {cs t r1 r2 r3 r4 k : List Char} {v : Json}

/-- A member that another one follows. -/
theorem members_more (hcs : skipBlanks cs = '"' :: t) (hk : stringBody t = some (k, r1))
    (hr1 : skipBlanks r1 = ':' :: r2) (hv : value f d r2 = some (v, r3))
    (hr3 : skipBlanks r3 = ',' :: r4) :
    members (f + 1) d cs = (members f d r4).map fun p => ((String.ofList k, v) :: p.1, p.2) := by
  rw [members, hcs]
  simp only [hk, hr1, hv, hr3]

theorem members_last (hcs : skipBlanks cs = '"' :: t) (hk : stringBody t = some (k, r1))
    (hr1 : skipBlanks r1 = ':' :: r2) (hv : value f d r2 = some (v, r3))
    (hr3 : skipBlanks r3 = '\x7d' :: r4) :
    members (f + 1) d cs = some ([(String.ofList k, v)], r4) := by
  rw [members, hcs]
  simp only [hk, hr1, hv, hr3]

end Members

/-! ## What is spelt is read -/

/-- With so much fuel every text is read that is short enough. -/
structure ReadsAt (f : Nat) : Prop where
  value : ∀ {d j u r}, Spelt d j u → MayFollow j r → 2 * u.length + 1 ≤ f →
    value f d (u ++ r) = some (j, r)
  items : ∀ {d xs u r}, SpeltItems d xs u → 2 * u.length + 2 ≤ f →
    items f d (u ++ r) = some (xs, r)
  members : ∀ {d ms u r}, SpeltMembers d ms u → 2 * u.length + 2 ≤ f →
    members f d (u ++ r) = some (ms, r)

namespace ReadsAt

variable {f : Nat}

/-- The blanks in front of a value are read with it. -/
theorem value_blanks (ih : ReadsAt f) {d : Nat} {j : Json} {w u r : List Char} (hw : Blanks w)
    (h : Spelt d j u) (hr : MayFollow j r) (hf : 2 * u.length + 1 ≤ f) :
    Json.value f d (w ++ (u ++ r)) = some (j, r) := by
  obtain ⟨g, rfl⟩ : ∃ g, f = g + 1 := ⟨f - 1, by omega⟩
  rw [value_append_blanks hw (h.stops r)]
  exact ih.value h hr hf

/-- A value between others is read up to the character that ends it. -/
theorem padded (ih : ReadsAt f) {d : Nat} {j : Json} {u r : List Char} {c : Char}
    (h : Padded d j u) (hc : isBlank c = false) (hn : isNumberChar c = false)
    (hf : 2 * u.length + 1 ≤ f) :
    ∃ r', Json.value f d (u ++ c :: r) = some (j, r') ∧ skipBlanks r' = c :: r := by
  obtain ⟨hw, h, hw'⟩ := h
  simp only [List.length_append] at hf
  refine ⟨_, ?_, skipBlanks_append hw' (.cons hc)⟩
  rw [List.append_assoc, List.append_assoc]
  exact ih.value_blanks hw h (mayFollow_of_skipBlanks hw' hn) (by omega)

theorem value_succ (ih : ReadsAt f) {d : Nat} {j : Json} {u r : List Char} (h : Spelt d j u)
    (hr : MayFollow j r) (hf : 2 * u.length + 1 ≤ f + 1) :
    Json.value (f + 1) d (u ++ r) = some (j, r) := by
  cases h with
  | null => exact value_null f d r
  | yes => exact value_true f d r
  | no => exact value_false f d r
  | number h =>
    have := h.taken (hr h.isNumber)
    obtain ⟨c, t, rfl, hc⟩ := h.begins
    rw [List.cons_append, value_number hc]
    exact this
  | string h =>
    rw [List.cons_append, List.append_assoc, List.singleton_append, value_string, h.taken]
    rfl
  | emptyArray hw =>
    rw [List.cons_append, List.append_assoc]
    exact value_array_nil (Nat.add_one_ne_zero _) (skipBlanks_append hw (.cons (by decide)))
  | array h =>
    obtain ⟨c, t, hskip, hc⟩ := h.begins r
    rw [List.length_cons] at hf
    rw [List.cons_append, value_array (Nat.add_one_ne_zero _) hskip hc, Nat.add_sub_cancel,
      ih.items h (by omega)]
    rfl
  | emptyObject hw =>
    rw [List.cons_append, List.append_assoc]
    exact value_object_nil (Nat.add_one_ne_zero _) (skipBlanks_append hw (.cons (by decide)))
  | object h =>
    obtain ⟨t, hskip⟩ := h.begins r
    rw [List.length_cons] at hf
    rw [List.cons_append, value_object (Nat.add_one_ne_zero _) hskip (by decide), Nat.add_sub_cancel,
      ih.members h (by omega)]
    rfl

theorem items_succ (ih : ReadsAt f) {d : Nat} {xs : List Json} {u r : List Char}
    (h : SpeltItems d xs u) (hf : 2 * u.length + 2 ≤ f + 1) :
    Json.items (f + 1) d (u ++ r) = some (xs, r) := by
  cases h with
  | last hx =>
    simp only [List.length_append, List.length_cons] at hf
    obtain ⟨r', hv, hskip⟩ := ih.padded (c := ']') (r := r) hx (by decide) (by decide) (by omega)
    rw [List.append_assoc, List.singleton_append, Json.items, hv]
    simp only [hskip]
  | @more _ _ _ u v hx hxs =>
    simp only [List.length_append, List.length_cons] at hf
    obtain ⟨r', hv, hskip⟩ :=
      ih.padded (c := ',') (r := v ++ r) hx (by decide) (by decide) (by omega)
    rw [List.append_assoc, List.cons_append, Json.items, hv]
    simp only [hskip, ih.items hxs (by omega)]
    rfl

/-- A member is read up to the character that ends it. -/
theorem member (ih : ReadsAt f) {d : Nat} {m : String × Json} {u r : List Char} {c : Char}
    (h : SpeltMember d m u) (hc : isBlank c = false) (hn : isNumberChar c = false)
    (hf : 2 * u.length + 1 ≤ f) :
    ∃ t k r1 r2 r3, skipBlanks (u ++ c :: r) = '"' :: t ∧ stringBody t = some (k, r1) ∧
      skipBlanks r1 = ':' :: r2 ∧ Json.value f d r2 = some (m.2, r3) ∧
      skipBlanks r3 = c :: r ∧ m.1 = String.ofList k := by
  obtain ⟨hw, hk, hw', hv⟩ := h
  simp only [List.length_append, List.length_cons] at hf
  obtain ⟨r3, hv, hskip⟩ := ih.padded (r := r) hv hc hn (by omega)
  refine ⟨_, _, _, _, r3, ?_, hk.taken _, skipBlanks_append hw' (.cons (by decide)), hv, hskip, rfl⟩
  rw [List.append_assoc, List.cons_append, skipBlanks_append hw (.cons (by decide))]
  simp

theorem members_succ (ih : ReadsAt f) {d : Nat} {ms : List (String × Json)} {u r : List Char}
    (h : SpeltMembers d ms u) (hf : 2 * u.length + 2 ≤ f + 1) :
    Json.members (f + 1) d (u ++ r) = some (ms, r) := by
  cases h with
  | @last d m u hm =>
    simp only [List.length_append, List.length_cons] at hf
    obtain ⟨t, k, r1, r2, r3, hcs, hk, hr1, hv, hr3, hm⟩ :=
      ih.member (c := '\x7d') (r := r) hm (by decide) (by decide) (by omega)
    rw [List.append_assoc, List.singleton_append, members_last hcs hk hr1 hv hr3, ← hm]
  | @more d m ms u v hm hms =>
    simp only [List.length_append, List.length_cons] at hf
    obtain ⟨t, k, r1, r2, r3, hcs, hk, hr1, hv, hr3, hm⟩ :=
      ih.member (c := ',') (r := v ++ r) hm (by decide) (by decide) (by omega)
    rw [List.append_assoc, List.cons_append, members_more hcs hk hr1 hv hr3,
      ih.members hms (by omega), ← hm]
    rfl

end ReadsAt

/-- **What is spelt is read**, with fuel for twice its length. -/
theorem readsAt (f : Nat) : ReadsAt f := by
  induction f with
  | zero => exact ⟨fun _ _ h => by omega, fun _ h => by omega, fun _ h => by omega⟩
  | succ f ih => exact ⟨ih.value_succ, ih.items_succ, ih.members_succ⟩

/-! ## What is read is spelt -/

/-- What is read with so much fuel is spelt by what is taken of the text. -/
structure SpellsAt (f : Nat) : Prop where
  value : ∀ {d cs j r}, value f d cs = some (j, r) →
    ∃ w u, cs = w ++ (u ++ r) ∧ Blanks w ∧ Spelt d j u
  items : ∀ {d cs xs r}, items f d cs = some (xs, r) → ∃ u, cs = u ++ r ∧ SpeltItems d xs u
  members : ∀ {d cs ms r}, members f d cs = some (ms, r) → ∃ u, cs = u ++ r ∧ SpeltMembers d ms u

namespace SpellsAt

variable {f : Nat}

theorem padded (ih : SpellsAt f) {d : Nat} {cs r r' : List Char} {j : Json} {c : Char}
    (h : Json.value f d cs = some (j, r)) (hr : skipBlanks r = c :: r') :
    ∃ u, cs = u ++ c :: r' ∧ Padded d j u := by
  obtain ⟨w, u, rfl, hw, hu⟩ := ih.value h
  obtain ⟨w', rfl, hw', -⟩ := skipBlanks_cons hr
  exact ⟨w ++ (u ++ w'), by simp, .mk hw hu hw'⟩

/-- A value that is read from its first character on. -/
theorem token (ih : SpellsAt f) {d : Nat} {cs r : List Char} {j : Json}
    (hcs : Stops isBlank cs) (h : Json.value (f + 1) d cs = some (j, r)) :
    ∃ u, cs = u ++ r ∧ Spelt d j u := by
  rw [Json.value, skipBlanks_of_stops hcs] at h
  split at h
  · cases h; exact ⟨_, rfl, .null⟩
  · cases h; exact ⟨_, rfl, .yes⟩
  · cases h; exact ⟨_, rfl, .no⟩
  · obtain ⟨⟨s, r'⟩, hs, e⟩ := Option.map_eq_some_iff.mp h
    cases e
    obtain ⟨u, rfl, hu⟩ := quoted_of_stringBody hs
    exact ⟨'"' :: (u ++ ['"']), by simp, .string hu⟩
  · split at h
    · cases h
    rename_i hd
    obtain ⟨d, rfl⟩ := Nat.exists_eq_add_one_of_ne_zero hd
    split at h
    · rename_i ht
      cases h
      obtain ⟨w, rfl, hw, -⟩ := skipBlanks_cons ht
      exact ⟨'[' :: (w ++ [']']), by simp, .emptyArray hw⟩
    · obtain ⟨⟨xs, r'⟩, hxs, e⟩ := Option.map_eq_some_iff.mp h
      cases e
      obtain ⟨u, rfl, hu⟩ := ih.items hxs
      exact ⟨'[' :: u, rfl, .array hu⟩
  · split at h
    · cases h
    rename_i hd
    obtain ⟨d, rfl⟩ := Nat.exists_eq_add_one_of_ne_zero hd
    split at h
    · rename_i ht
      cases h
      obtain ⟨w, rfl, hw, -⟩ := skipBlanks_cons ht
      exact ⟨'\x7b' :: (w ++ ['\x7d']), by simp, .emptyObject hw⟩
    · obtain ⟨⟨ms, r'⟩, hms, e⟩ := Option.map_eq_some_iff.mp h
      cases e
      obtain ⟨u, rfl, hu⟩ := ih.members hms
      exact ⟨'\x7b' :: u, rfl, .object hu⟩
  · obtain ⟨u, rfl, hu⟩ := numeral_of_number h
    exact ⟨u, rfl, .number hu⟩

theorem value_succ (ih : SpellsAt f) {d : Nat} {cs r : List Char} {j : Json}
    (h : Json.value (f + 1) d cs = some (j, r)) :
    ∃ w u, cs = w ++ (u ++ r) ∧ Blanks w ∧ Spelt d j u := by
  have hs := stops_dropWhile isBlank cs
  have hw : Blanks (cs.takeWhile isBlank) := List.all_eq_true.mp List.all_takeWhile
  have hcs : cs.takeWhile isBlank ++ cs.dropWhile isBlank = cs := List.takeWhile_append_dropWhile
  rw [← hcs, value_append_blanks hw hs] at h
  obtain ⟨u, hu, hj⟩ := ih.token hs h
  exact ⟨cs.takeWhile isBlank, u, by rw [← hu, hcs], hw, hj⟩

theorem items_succ (ih : SpellsAt f) {d : Nat} {cs r : List Char} {xs : List Json}
    (h : Json.items (f + 1) d cs = some (xs, r)) : ∃ u, cs = u ++ r ∧ SpeltItems d xs u := by
  rw [Json.items] at h
  split at h
  · cases h
  rename_i x r1 hx
  split at h
  · rename_i r2 hr1
    obtain ⟨⟨ys, r'⟩, hys, e⟩ := Option.map_eq_some_iff.mp h
    cases e
    obtain ⟨u, rfl, hu⟩ := ih.padded hx hr1
    obtain ⟨v, rfl, hv⟩ := ih.items hys
    exact ⟨u ++ ',' :: v, by simp, .more hu hv⟩
  · rename_i r2 hr1
    cases h
    obtain ⟨u, rfl, hu⟩ := ih.padded hx hr1
    exact ⟨u ++ [']'], by simp, .last hu⟩
  · cases h

theorem members_succ (ih : SpellsAt f) {d : Nat} {cs r : List Char} {ms : List (String × Json)}
    (h : Json.members (f + 1) d cs = some (ms, r)) : ∃ u, cs = u ++ r ∧ SpeltMembers d ms u := by
  rw [Json.members] at h
  split at h
  · rename_i t hcs
    split at h
    · cases h
    rename_i k r1 hk
    split at h
    · rename_i r2 hr1
      split at h
      · cases h
      rename_i v r3 hv
      obtain ⟨w, rfl, hw, -⟩ := skipBlanks_cons hcs
      obtain ⟨s, rfl, hs⟩ := quoted_of_stringBody hk
      obtain ⟨w', rfl, hw', -⟩ := skipBlanks_cons hr1
      split at h
      · rename_i r4 hr3
        obtain ⟨⟨ms', r'⟩, hms, e⟩ := Option.map_eq_some_iff.mp h
        cases e
        obtain ⟨u, rfl, hu⟩ := ih.padded hv hr3
        obtain ⟨m, rfl, hm⟩ := ih.members hms
        exact ⟨w ++ '"' :: (s ++ '"' :: (w' ++ ':' :: u)) ++ ',' :: m, by simp,
          .more (.mk hw hs hw' hu) hm⟩
      · rename_i r4 hr3
        cases h
        obtain ⟨u, rfl, hu⟩ := ih.padded hv hr3
        exact ⟨w ++ '"' :: (s ++ '"' :: (w' ++ ':' :: u)) ++ ['\x7d'], by simp,
          .last (.mk hw hs hw' hu)⟩
      · cases h
    · cases h
  · cases h

end SpellsAt

/-- **What is read is spelt** by the piece of the text that is taken. -/
theorem spellsAt (f : Nat) : SpellsAt f := by
  induction f with
  | zero =>
    constructor
    · intro d cs j r h; cases h
    · intro d cs xs r h; cases h
    · intro d cs ms r h; cases h
  | succ f ih => exact ⟨ih.value_succ, ih.items_succ, ih.members_succ⟩

/-! ## The one value of a text -/

/-- **A text is read as a value exactly when it is one of its texts.** -/
theorem parse?_eq_some_iff {cs : List Char} {j : Json} : parse? cs = some j ↔ TextOf j cs := by
  constructor
  · intro h
    rw [parse?] at h
    split at h
    · rename_i j' r hv
      split at h
      · rename_i hr
        cases h
        obtain ⟨w, u, rfl, hw, hu⟩ := (spellsAt _).value hv
        exact .mk hw hu (skipBlanks_eq_nil_iff.mp (List.isEmpty_iff.mp hr))
      · cases h
    · cases h
  · rintro ⟨hw, hu, hw'⟩
    rw [parse?, (readsAt _).value_blanks hw hu (mayFollow_of_blanks hw')
      (by simp only [List.length_append]; omega)]
    simp only
    rw [if_pos (List.isEmpty_iff.mpr (skipBlanks_eq_nil_iff.mpr hw'))]

/-- A blank after the text does not matter. -/
theorem parse?_append_blank {cs : List Char} {b : Char} (hb : isBlank b = true) :
    parse? (cs ++ [b]) = parse? cs := by
  refine Option.ext fun j => ?_
  rw [parse?_eq_some_iff, parse?_eq_some_iff]
  constructor
  · generalize ht : cs ++ [b] = t
    rintro @⟨_, _, w, u, w', hw, hu, hw'⟩
    rcases List.eq_nil_or_concat w' with rfl | ⟨w', d, rfl⟩
    · -- the value ends before the blank
      obtain ⟨v, c, rfl, hc⟩ := hu.endsTight
      rw [List.append_nil, ← List.append_assoc] at ht
      have := (List.append_inj' ht rfl).2
      cases this
      rw [hb] at hc; cases hc
    · rw [List.concat_eq_append] at ht hw'
      rw [← List.append_assoc, ← List.append_assoc] at ht
      obtain ⟨rfl, -⟩ := List.append_inj' ht rfl
      rw [List.append_assoc]
      exact .mk hw hu fun x hx => hw' x (by simp [hx])
  · rintro @⟨_, _, w, u, w', hw, hu, hw'⟩
    rw [List.append_assoc, List.append_assoc]
    refine .mk hw hu fun x hx => ?_
    rcases List.mem_append.mp hx with hx | hx
    · exact hw' x hx
    · rw [List.mem_singleton.mp hx]; exact hb

/-- **A text that is cut short spells nothing, unless what is left of it is a number.** -/
theorem isNumber_of_cut {cs s : List Char} {j j' : Json} (h : parse? (cs ++ s) = some j)
    (hs : ∃ c ∈ s, isBlank c = false) (h' : parse? cs = some j') : IsNumber j' := by
  obtain ⟨hw, hu, -⟩ := parse?_eq_some_iff.mp h'
  by_contra hj
  rw [List.append_assoc, List.append_assoc, parse?, (readsAt _).value_blanks hw hu
    (fun hn => absurd hn hj) (by simp only [List.length_append]; omega)] at h
  simp only at h
  split at h
  · rename_i hr
    obtain ⟨c, hc, hb⟩ := hs
    have := skipBlanks_eq_nil_iff.mp (List.isEmpty_iff.mp hr) c (by simp [hc])
    rw [hb] at this; cases this
  · cases h

end AgentSupervisor.Json
