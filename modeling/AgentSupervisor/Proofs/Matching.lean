import AgentSupervisor.Pattern.Basic

/-!
# What the matcher accepts

The matcher reads a text once, with the patterns that may be left to match. It accepts the texts
of which some part matches, and no others.

* `Matches.begins`   : a match takes nothing, or its first character and then what is left;
* `matches_of_after` : what is left after a character, behind that character, is a match;
* `search_iff`       : what a search finds;
* `accepts_iff`      : which texts are accepted.
-/

namespace AgentSupervisor.Pattern

variable {p q : Pattern} {s t : Cursor} {b : Bool} {c : Char} {cs : List Char}

/-! ## One character -/

/-- **A match takes nothing**, or its first character and then what is left after that. -/
theorem Matches.begins (h : Matches p s t) :
    (t = s ∧ p.nullable s.first s.rest.isEmpty = true) ∨
      ∃ c r, s.rest = c :: r ∧ ∃ q ∈ p.after s.first c, Matches q ⟨false, r⟩ t := by
  induction h with
  | empty s => exact .inl ⟨rfl, rfl⟩
  | char c b r => exact .inr ⟨c, r, rfl, .empty, by simp [after], .empty _⟩
  | oneOf n is c b r h => exact .inr ⟨c, r, rfl, .empty, by simp [after, h], .empty _⟩
  | atStart r => exact .inl ⟨rfl, rfl⟩
  | atEnd b => exact .inl ⟨rfl, rfl⟩
  | @seq p q s t u hp hq ihp ihq =>
    rcases ihp with ⟨rfl, hnull⟩ | ⟨c, r, hr, p', hp', hm⟩
    · rcases ihq with ⟨rfl, hnull'⟩ | ⟨c, r, hr, q', hq', hm⟩
      · exact .inl ⟨rfl, by rw [nullable, hnull, hnull']; rfl⟩
      · rw [hr, List.isEmpty_cons] at hnull
        refine .inr ⟨c, r, hr, q', ?_, hm⟩
        rw [after, if_pos hnull]
        exact List.mem_append_right _ hq'
    · refine .inr ⟨c, r, hr, .seq p' q, ?_, .seq hm hq⟩
      rw [after]
      exact List.mem_append_left _ (List.mem_map_of_mem hp')
  | left _ ih =>
    rcases ih with ⟨rfl, hnull⟩ | ⟨c, r, hr, q', hq', hm⟩
    · exact .inl ⟨rfl, by rw [nullable, hnull]; rfl⟩
    · exact .inr ⟨c, r, hr, q', List.mem_append_left _ hq', hm⟩
  | right _ ih =>
    rcases ih with ⟨rfl, hnull⟩ | ⟨c, r, hr, q', hq', hm⟩
    · exact .inl ⟨rfl, by rw [nullable, hnull, Bool.or_true]⟩
    · exact .inr ⟨c, r, hr, q', List.mem_append_right _ hq', hm⟩
  | none p s => exact .inl ⟨rfl, rfl⟩
  | @more p s t u _ hstar ihp ihstar =>
    -- rounds that take nothing do not matter
    rcases ihp with ⟨rfl, -⟩ | ⟨c, r, hr, p', hp', hm⟩
    · exact ihstar
    · exact .inr ⟨c, r, hr, .seq p' (.star p), List.mem_map_of_mem hp', .seq hm hstar⟩

theorem matches_of_nullable (h : p.nullable s.first s.rest.isEmpty = true) : Matches p s s := by
  obtain ⟨first, rest⟩ := s
  induction p with
  | empty => exact .empty _
  | char | oneOf => cases h
  | atStart =>
    obtain rfl : first = true := h
    exact .atStart rest
  | atEnd =>
    obtain rfl : rest = [] := List.isEmpty_iff.mp h
    exact .atEnd first
  | seq p q ihp ihq =>
    obtain ⟨hp, hq⟩ := Bool.and_eq_true_iff.mp h
    exact .seq (ihp hp) (ihq hq)
  | alt p q ihp ihq =>
    rcases Bool.or_eq_true_iff.mp h with hp | hq
    · exact .left (ihp hp)
    · exact .right (ihq hq)
  | star p => exact .none p _

/-- **What is left after a character**, behind that character, is a match. -/
theorem matches_of_after (hq : q ∈ p.after b c) (h : Matches q ⟨false, cs⟩ t) :
    Matches p ⟨b, c :: cs⟩ t := by
  induction p generalizing q t with
  | empty | atStart | atEnd => cases hq
  | char d =>
    rw [after] at hq
    split at hq
    · rename_i hd
      obtain rfl := List.mem_singleton.mp hq
      cases h
      rw [hd]
      exact .char c b cs
    · cases hq
  | oneOf n is =>
    rw [after] at hq
    split at hq
    · rename_i hc
      obtain rfl := List.mem_singleton.mp hq
      cases h
      exact .oneOf n is c b cs hc
    · cases hq
  | seq p₁ p₂ ih₁ ih₂ =>
    rw [after] at hq
    rcases List.mem_append.mp hq with hq | hq
    · obtain ⟨q₁, hq₁, rfl⟩ := List.mem_map.mp hq
      cases h with
      | seq h₁ h₂ => exact .seq (ih₁ hq₁ h₁) h₂
    · split at hq
      · rename_i hnull
        exact .seq (matches_of_nullable (s := ⟨b, c :: cs⟩) hnull) (ih₂ hq h)
      · cases hq
  | alt p₁ p₂ ih₁ ih₂ =>
    rcases List.mem_append.mp hq with hq | hq
    · exact .left (ih₁ hq h)
    · exact .right (ih₂ hq h)
  | star p ih =>
    obtain ⟨q₁, hq₁, rfl⟩ := List.mem_map.mp hq
    cases h with
    | seq h₁ h₂ => exact .more (ih hq₁ h₁) h₂

/-! ## A whole text -/

/-- A match of the pattern begins at a cursor. -/
def Begins (p : Pattern) (s : Cursor) : Prop := ∃ t, Matches p s t

theorem begins_nil : Begins p ⟨b, []⟩ ↔ p.nullable b true = true := by
  constructor
  · rintro ⟨t, h⟩
    rcases h.begins with ⟨-, hnull⟩ | ⟨c, r, hr, -⟩
    · exact hnull
    · cases hr
  · exact fun h => ⟨_, matches_of_nullable h⟩

theorem begins_cons : Begins p ⟨b, c :: cs⟩ ↔
    p.nullable b false = true ∨ ∃ q ∈ p.after b c, Begins q ⟨false, cs⟩ := by
  constructor
  · rintro ⟨t, h⟩
    rcases h.begins with ⟨-, hnull⟩ | ⟨c', r, hr, q, hq, hm⟩
    · exact .inl hnull
    · cases hr
      exact .inr ⟨q, hq, t, hm⟩
  · rintro (hnull | ⟨q, hq, t, hm⟩)
    · exact ⟨_, matches_of_nullable (s := ⟨b, c :: cs⟩) hnull⟩
    · exact ⟨t, matches_of_after hq hm⟩

/-- **What a search finds**: a match of one of the live patterns at the first cursor, or one of the
    pattern itself there or later. -/
theorem search_iff (p : Pattern) (b : Bool) (live : List Pattern) (cs : List Char) :
    p.search b live cs = true ↔
      (∃ q ∈ live, Begins q ⟨b, cs⟩) ∨
        ∃ before rest, cs = before ++ rest ∧ Begins p ⟨b && before.isEmpty, rest⟩ := by
  induction cs generalizing b live with
  | nil =>
    rw [search, List.any_cons, Bool.or_eq_true, List.any_eq_true]
    constructor
    · rintro (h | ⟨q, hq, h⟩)
      · exact .inr ⟨[], [], rfl, by rw [List.isEmpty_nil, Bool.and_true]; exact begins_nil.mpr h⟩
      · exact .inl ⟨q, hq, begins_nil.mpr h⟩
    · rintro (⟨q, hq, h⟩ | ⟨before, rest, hcs, h⟩)
      · exact .inr ⟨q, hq, begins_nil.mp h⟩
      · obtain ⟨rfl, rfl⟩ := List.append_eq_nil_iff.mp hcs.symm
        rw [List.isEmpty_nil, Bool.and_true] at h
        exact .inl (begins_nil.mp h)
  | cons c cs ih =>
    have hall {q : Pattern} : q ∈ (p :: live).eraseDups ↔ q = p ∨ q ∈ live := by
      rw [List.mem_eraseDups, List.mem_cons]
    rw [search, Bool.or_eq_true, ih, List.any_eq_true]
    constructor
    · rintro (⟨q, hq, h⟩ | ⟨q', hq', h⟩ | ⟨before, rest, rfl, h⟩)
      · rcases hall.mp hq with rfl | hq
        · refine .inr ⟨[], c :: cs, rfl, ?_⟩
          rw [List.isEmpty_nil, Bool.and_true]
          exact begins_cons.mpr (.inl h)
        · exact .inl ⟨q, hq, begins_cons.mpr (.inl h)⟩
      · obtain ⟨q, hq, hafter⟩ := List.mem_flatMap.mp hq'
        rcases hall.mp hq with rfl | hq
        · refine .inr ⟨[], c :: cs, rfl, ?_⟩
          rw [List.isEmpty_nil, Bool.and_true]
          exact begins_cons.mpr (.inr ⟨q', hafter, h⟩)
        · exact .inl ⟨q, hq, begins_cons.mpr (.inr ⟨q', hafter, h⟩)⟩
      · refine .inr ⟨c :: before, rest, rfl, ?_⟩
        rwa [List.isEmpty_cons, Bool.and_false]
    · -- a match that begins here is one of the live patterns with the next character
      have hhere {q : Pattern} (hq : q ∈ (p :: live).eraseDups) (h : Begins q ⟨b, c :: cs⟩) :
          (∃ q ∈ (p :: live).eraseDups, q.nullable b false = true) ∨
            ∃ q' ∈ (p :: live).eraseDups.flatMap (after b c), Begins q' ⟨false, cs⟩ := by
        rcases begins_cons.mp h with hnull | ⟨q', hq', hb⟩
        · exact .inl ⟨q, hq, hnull⟩
        · exact .inr ⟨q', List.mem_flatMap.mpr ⟨q, hq, hq'⟩, hb⟩
      rintro (⟨q, hq, h⟩ | ⟨before, rest, hcs, h⟩)
      · exact (hhere (hall.mpr (.inr hq)) h).imp_right .inl
      · cases before with
        | nil =>
          rw [List.nil_append] at hcs
          rw [← hcs, List.isEmpty_nil, Bool.and_true] at h
          exact (hhere (hall.mpr (.inl rfl)) h).imp_right .inl
        | cons d before =>
          obtain ⟨rfl, rfl⟩ := List.cons.inj hcs
          rw [List.isEmpty_cons, Bool.and_false] at h
          exact .inr (.inr ⟨before, rest, rfl, h⟩)

/-- **A text is accepted** when a match begins somewhere in it. -/
theorem accepts_iff (p : Pattern) (s : String) :
    p.accepts s = true ↔
      ∃ before rest, s.toList = before ++ rest ∧ Begins p ⟨before.isEmpty, rest⟩ := by
  rw [accepts, search_iff]
  constructor
  · rintro (⟨q, hq, -⟩ | h)
    · cases hq
    · exact h
  · exact .inr

end AgentSupervisor.Pattern
