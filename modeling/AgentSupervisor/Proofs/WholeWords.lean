import AgentSupervisor.Agent
import AgentSupervisor.Pattern.Reader
import AgentSupervisor.Proofs.Matching

/-!
# Patterns for whole words

The pattern for a program is the quoted name of the program between two marks: a beginning, slash
or blank in front of it, and a blank or an end behind it.

* `piece_quoteChar`       : a quoted character is read as that character;
* `ofString?_wordPattern` : the text of the pattern for a quoted name can be read;
* `accepts_wholeWord`     : that pattern accepts the texts in which the name stands as a word.
-/

namespace AgentSupervisor.Pattern

variable {p q : Pattern} {s t : Cursor} {b : Bool} {c : Char} {name cs r r' : List Char}

/-! ## Reading a quoted name -/

/-- The beginning of the text, a slash or a blank. -/
def wordStart : Pattern :=
  .alt (.seq .atStart .empty) (.seq (.oneOf false [.range '/' '/', .blank]) .empty)

/-- A blank or the end of the text, and nothing more. -/
def wordEnd : Pattern :=
  .seq (.alt (.seq (.oneOf false [.blank]) .empty) (.seq .atEnd .empty)) .empty

/-- Some characters and then a pattern. -/
def spelled (name : List Char) (p : Pattern) : Pattern :=
  name.foldr (fun c p => .seq (.char c) p) p

/-- The pattern for a name that stands as a word. -/
def wholeWord (name : List Char) : Pattern := .seq wordStart (spelled name wordEnd)

/-- No repetition mark comes first. -/
def Single (cs : List Char) : Prop := ∀ c ∈ cs.head?, c ≠ '*' ∧ c ≠ '+' ∧ c ≠ '?'

theorem repeated_single (h : Single cs) : repeated p cs = (p, cs) := by
  unfold repeated
  split
  all_goals first | rfl | simp [Single] at h

/-- A character with a meaning is quoted, and a quoted character is itself. -/
theorem escaped_special (h : c ∈ specialChars) : escaped c = some (.char c) := by
  have hall : (specialChars.all fun c => escaped c == some (.char c)) = true := by decide
  exact beq_iff_eq.mp (List.all_eq_true.mp hall c h)

theorem quoteChar_of_mem (h : c ∈ specialChars) : quoteChar c = ['\\', c] :=
  if_pos (List.contains_iff_mem.mpr h)

theorem quoteChar_of_not_mem (h : c ∉ specialChars) : quoteChar c = [c] :=
  if_neg fun hc => h (List.contains_iff_mem.mp hc)

/-- **A quoted character is read as that character.** -/
theorem piece_quoteChar (c : Char) (fuel : Nat) (r : List Char) :
    piece (fuel + 1) (quoteChar c ++ r) = some (.char c, r) := by
  by_cases hc : c ∈ specialChars
  · rw [quoteChar_of_mem hc]
    simp [piece, escaped_special hc]
  · rw [quoteChar_of_not_mem hc]
    simp only [specialChars, List.mem_cons, List.not_mem_nil, or_false, not_or] at hc
    unfold piece
    simp_all

theorem single_quoteText (h : Single r) : Single (quoteText name ++ r) := by
  cases name with
  | nil => exact h
  | cons c name =>
    intro d hd
    by_cases hc : c ∈ specialChars
    · simp only [quoteText, List.flatMap_cons, quoteChar_of_mem hc] at hd
      obtain rfl : '\\' = d := by simpa using hd
      decide
    · simp only [quoteText, List.flatMap_cons, quoteChar_of_not_mem hc] at hd
      obtain rfl : c = d := by simpa using hd
      refine ⟨?_, ?_, ?_⟩
      all_goals
        rintro rfl
        exact hc (by decide)

theorem quoteChar_head (c : Char) : ∃ d ds, quoteChar c = d :: ds ∧ d ≠ '|' ∧ d ≠ ')' := by
  by_cases hc : c ∈ specialChars
  · exact ⟨'\\', [c], quoteChar_of_mem hc, by decide, by decide⟩
  · refine ⟨c, [], quoteChar_of_not_mem hc, ?_, ?_⟩
    all_goals
      rintro rfl
      exact hc (by decide)

/-- A piece is read, and then what follows it. -/
theorem sequence_cons {fuel : Nat} (hbar : c ≠ '|') (hclose : c ≠ ')')
    (hpiece : piece fuel (c :: cs) = some (p, r)) (hr : Single r)
    (h : sequence fuel r = some (q, r')) :
    sequence (fuel + 1) (c :: cs) = some (.seq p q, r') := by
  rw [sequence, if_neg (by simp [hbar, hclose]), hpiece]
  simp only [repeated_single hr, h]
  rfl

/-- A quoted name is read character by character, and then what follows it. -/
theorem sequence_quoteText {fuel : Nat} (hr : Single r)
    (h : sequence (fuel + 1) r = some (q, r')) :
    sequence (fuel + name.length + 1) (quoteText name ++ r) = some (spelled name q, r') := by
  induction name with
  | nil => exact h
  | cons c name ih =>
    have htail : quoteText (c :: name) ++ r = quoteChar c ++ (quoteText name ++ r) := by
      simp [quoteText]
    obtain ⟨d, ds, hd, hbar, hclose⟩ := quoteChar_head c
    have hpiece := piece_quoteChar c (fuel + name.length) (quoteText name ++ r)
    rw [htail]
    rw [hd, List.cons_append] at hpiece ⊢
    exact sequence_cons hbar hclose hpiece (single_quoteText hr) ih

theorem length_le_quoteText (name : List Char) : name.length ≤ (quoteText name).length := by
  induction name with
  | nil => exact Nat.le_refl _
  | cons c name ih =>
    have htail : quoteText (c :: name) = quoteChar c ++ quoteText name := by simp [quoteText]
    obtain ⟨d, ds, hd, -⟩ := quoteChar_head c
    rw [htail, hd, List.length_append, List.length_cons, List.length_cons]
    omega

theorem piece_wordStart (fuel : Nat) (r : List Char) :
    piece (fuel + 6) ("(^|[/\\s])".toList ++ r) = some (wordStart, r) := by
  have hclass : classBody ('/' :: '\\' :: 's' :: ']' :: ')' :: r) =
      some (.oneOf false [.range '/' '/', .blank], ')' :: r) := rfl
  show piece (fuel + 6) ('(' :: '^' :: '|' :: '[' :: '/' :: '\\' :: 's' :: ']' :: ')' :: r) = _
  simp [piece, alternatives, sequence, repeated, wordStart, hclass]

theorem sequence_wordEnd (fuel : Nat) :
    sequence (fuel + 8) "(\\s|$)".toList = some (wordEnd, []) := rfl

theorem alternatives_of_sequence {fuel : Nat} (h : sequence fuel cs = some (p, [])) :
    alternatives (fuel + 1) cs = some (p, []) := by
  rw [alternatives, h]

theorem read?_of_alternatives (h : alternatives (3 * cs.length + 3) cs = some (p, [])) :
    read? cs = some p := by
  rw [read?, h]

/-- **The text of the pattern for a quoted name** can be read. -/
theorem ofString?_wordPattern (name : List Char) :
    ofString? (Agent.wordPattern (String.ofList (quoteText name))) = some (wholeWord name) := by
  have hsingle : Single "(\\s|$)".toList := by
    rintro c ⟨⟩
    decide
  have hlist : (Agent.wordPattern (String.ofList (quoteText name))).toList =
      "(^|[/\\s])".toList ++ (quoteText name ++ "(\\s|$)".toList) := by
    simp only [Agent.wordPattern, String.toList_append, String.toList_ofList, List.append_assoc]
  -- the fuel is enough for one unit a character and some more for the two groups
  obtain ⟨k, hk⟩ : ∃ k, 3 * ("(^|[/\\s])".toList ++ (quoteText name ++ "(\\s|$)".toList)).length + 3
      = k + 7 + name.length + 1 + 1 + 1 := by
    have hstart : "(^|[/\\s])".toList.length = 9 := rfl
    have hlen := length_le_quoteText name
    rw [List.length_append, List.length_append, hstart]
    exact ⟨3 * (9 + ((quoteText name).length + "(\\s|$)".toList.length)) + 3
      - (7 + name.length + 1 + 1 + 1), by omega⟩
  have hrest : sequence (k + 7 + name.length + 1) (quoteText name ++ "(\\s|$)".toList) =
      some (spelled name wordEnd, []) :=
    sequence_quoteText hsingle (sequence_wordEnd k)
  have hstart : piece (k + 7 + name.length + 1)
      ("(^|[/\\s])".toList ++ (quoteText name ++ "(\\s|$)".toList)) =
        some (wordStart, quoteText name ++ "(\\s|$)".toList) := by
    rw [show k + 7 + name.length + 1 = k + name.length + 2 + 6 by omega]
    exact piece_wordStart _ _
  rw [ofString?, hlist]
  refine read?_of_alternatives ?_
  rw [hk]
  exact alternatives_of_sequence
    (sequence_cons (by decide) (by decide) hstart (single_quoteText hsingle) hrest)

/-! ## What the pattern accepts -/

theorem begins_seq : Begins (.seq p q) s ↔ ∃ t, Matches p s t ∧ Begins q t := by
  constructor
  · rintro ⟨u, h⟩
    cases h with
    | seq hp hq => exact ⟨_, hp, u, hq⟩
  · rintro ⟨t, hp, u, hq⟩
    exact ⟨u, .seq hp hq⟩

/-- A spelled name begins where its characters stand, with the pattern behind them. -/
theorem begins_spelled : Begins (spelled name p) ⟨b, cs⟩ ↔
    ∃ y, cs = name ++ y ∧ Begins p ⟨b && name.isEmpty, y⟩ := by
  induction name generalizing b cs with
  | nil =>
    rw [List.isEmpty_nil, Bool.and_true]
    exact ⟨fun h => ⟨cs, rfl, h⟩, fun ⟨y, hy, h⟩ => hy ▸ h⟩
  | cons c name ih =>
    show Begins (.seq (.char c) (spelled name p)) ⟨b, cs⟩ ↔ _
    rw [begins_seq, List.isEmpty_cons, Bool.and_false]
    constructor
    · rintro ⟨t, hchar, h⟩
      cases hchar with
      | char c b r =>
        obtain ⟨y, rfl, hy⟩ := ih.mp h
        exact ⟨y, rfl, by simpa using hy⟩
    · rintro ⟨y, rfl, hy⟩
      exact ⟨⟨false, name ++ y⟩, .char c b _, ih.mpr ⟨y, rfl, by simpa using hy⟩⟩

/-- Behind a word stands a blank or nothing. -/
theorem begins_wordEnd : Begins wordEnd ⟨b, cs⟩ ↔ ∀ c ∈ cs.head?, Text.isBlank c = true := by
  cases cs with
  | nil =>
    refine iff_of_true ?_ (by simp)
    exact ⟨_, .seq (.right (.seq (.atEnd b) (.empty _))) (.empty _)⟩
  | cons c cs =>
    simp only [List.head?_cons, Option.mem_some_iff, forall_eq']
    constructor
    · rintro ⟨t, h⟩
      cases h with
      | seq h _ =>
        cases h with
        | left h =>
          cases h with
          | seq h _ =>
            cases h with
            | oneOf _ _ _ _ _ h => simpa [classHas, ClassItem.has] using h
        | right h =>
          cases h with
          | seq h _ => cases h
    · intro h
      have hhas : classHas false [.blank] c = true := by simpa [classHas, ClassItem.has] using h
      exact ⟨_, .seq (.left (.seq (.oneOf false _ c b cs hhas) (.empty _))) (.empty _)⟩

/-- In front of a word stands the beginning, a slash or a blank. -/
theorem matches_wordStart : Matches wordStart s t ↔
    (s.first = true ∧ t = s) ∨
      ∃ c r, s.rest = c :: r ∧ (c = '/' ∨ Text.isBlank c = true) ∧ t = ⟨false, r⟩ := by
  have hhas {c : Char} : classHas false [.range '/' '/', .blank] c = true ↔
      c = '/' ∨ Text.isBlank c = true := by
    have hslash : ('/' ≤ c ∧ c ≤ '/') ↔ c = '/' :=
      ⟨fun h => Char.le_antisymm h.2 h.1, fun h => h ▸ ⟨Char.le_refl _, Char.le_refl _⟩⟩
    simp [classHas, ClassItem.has, hslash]
  constructor
  · intro h
    cases h with
    | left h =>
      cases h with
      | seq h hempty =>
        cases h
        cases hempty
        exact .inl ⟨rfl, rfl⟩
    | right h =>
      cases h with
      | seq h hempty =>
        cases h with
        | oneOf _ _ c b r h =>
          cases hempty
          exact .inr ⟨c, r, rfl, hhas.mp h, rfl⟩
  · obtain ⟨first, rest⟩ := s
    rintro (⟨rfl, rfl⟩ | ⟨c, r, rfl, hc, rfl⟩)
    · exact .left (.seq (.atStart rest) (.empty _))
    · exact .right (.seq (.oneOf _ _ c first r (hhas.mpr hc)) (.empty _))

/-- A name stands in a text as a word: in front of it nothing, a slash or a blank, and behind it
    nothing or a blank. -/
def HasWord (name cs : List Char) : Prop :=
  ∃ x y, cs = x ++ name ++ y ∧ (∀ c ∈ x.getLast?, c = '/' ∨ Text.isBlank c = true) ∧
    ∀ c ∈ y.head?, Text.isBlank c = true

/-- **The pattern of a word** accepts the texts in which the name stands as a word. -/
theorem accepts_wholeWord (name : List Char) (s : String) :
    (wholeWord name).accepts s = true ↔ HasWord name s.toList := by
  rw [accepts_iff]
  constructor
  · rintro ⟨before, rest, hs, hb⟩
    obtain ⟨t, hstart, hspelled⟩ := begins_seq.mp hb
    rcases matches_wordStart.mp hstart with ⟨hfirst, rfl⟩ | ⟨c, r, hrest, hc, rfl⟩
    · obtain rfl : before = [] := List.isEmpty_iff.mp hfirst
      obtain ⟨y, rfl, hy⟩ := begins_spelled.mp hspelled
      exact ⟨[], y, hs, by simp, begins_wordEnd.mp hy⟩
    · obtain rfl : rest = c :: r := hrest
      obtain ⟨y, rfl, hy⟩ := begins_spelled.mp hspelled
      refine ⟨before ++ [c], y, ?_, ?_, begins_wordEnd.mp hy⟩
      · rw [hs, List.append_assoc, List.append_assoc]
        rfl
      · simpa using hc
  · rintro ⟨x, y, hs, hx, hy⟩
    rcases List.eq_nil_or_concat x with rfl | ⟨before, c, rfl⟩
    · refine ⟨[], name ++ y, hs, begins_seq.mpr ⟨⟨true, name ++ y⟩, ?_, ?_⟩⟩
      · exact matches_wordStart.mpr (.inl ⟨rfl, rfl⟩)
      · exact begins_spelled.mpr ⟨y, rfl, begins_wordEnd.mpr hy⟩
    · refine ⟨before, c :: (name ++ y), ?_, begins_seq.mpr ⟨⟨false, name ++ y⟩, ?_, ?_⟩⟩
      · rw [hs, List.concat_eq_append, List.append_assoc, List.append_assoc]
        rfl
      · exact matches_wordStart.mpr (.inr ⟨c, name ++ y, rfl, hx c (by simp), rfl⟩)
      · exact begins_spelled.mpr ⟨y, rfl, begins_wordEnd.mpr hy⟩

end AgentSupervisor.Pattern
