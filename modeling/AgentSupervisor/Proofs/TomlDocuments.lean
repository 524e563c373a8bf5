import AgentSupervisor.Proofs.TomlLines
import Mathlib.Data.List.Forall2

/-!
# Documents of TOML, written and read

Tables that are written one after another are read back as the statements of each, and a table
whose keys are distinct is built from its statements.

* `says_writeSections` : what written tables say;
* `Says.parse?`        : a document is built from what its text says;
* `fills_table`        : what the lines of one table do.
-/

namespace AgentSupervisor.Toml

variable {cs : List Char} {ss : List Statement}

/-! ## Texts of tables -/

/-- The statements of a table. -/
def tableLines (path : List String) (es : Entries) : List Statement :=
  .header path :: es.map fun e => .entry [e.1] e.2

/-- The title of a table, which is read as its path. -/
structure Titles (title : List Char) (path : List String) : Prop where
  bracket : ∀ s, title ≠ '[' :: s
  reads : ∀ r, key? (title ++ ']' :: r) = some (path, ']' :: r)

theorem skipSpace_bare {cs : List Char} (hne : cs ≠ []) (hbare : ∀ c ∈ cs, isBare c = true)
    (r : List Char) : skipSpace (cs ++ r) = cs ++ r := by
  obtain ⟨c, cs, rfl⟩ := List.exists_cons_of_ne_nil hne
  refine skipSpace_eq_self (Bool.eq_false_iff.mpr fun h => ?_) _
  have hc := hbare c List.mem_cons_self
  simp only [isSpace, Bool.or_eq_true, beq_iff_eq] at h
  rcases h with rfl | rfl <;> exact absurd hc (by decide)

theorem bare_ne_bracket {cs : List Char} (hne : cs ≠ []) (hbare : ∀ c ∈ cs, isBare c = true)
    (r s : List Char) : cs ++ r ≠ '[' :: s := by
  obtain ⟨c, cs, rfl⟩ := List.exists_cons_of_ne_nil hne
  rintro ⟨⟩
  exact absurd (hbare '[' List.mem_cons_self) (by decide)

theorem key?_bare {cs : List Char} (hne : cs ≠ []) (hbare : ∀ c ∈ cs, isBare c = true)
    (fuel : Nat) (r : List Char) :
    dottedKey (fuel + 1) (cs ++ ']' :: r) = some ([String.ofList cs], ']' :: r) := by
  have hread : simpleKey? (skipSpace (cs ++ ']' :: r)) = some (cs, ']' :: r) := by
    rw [skipSpace_bare hne hbare]
    refine simpleKey?_bare hne hbare ?_
    rintro d ⟨⟩
    decide
  exact dottedKey_one hread (fun s h => by cases h) fuel

/-- A title without dots and quotes. -/
theorem titles_one {s : String} (hne : s.toList ≠ []) (hbare : s.toList.all isBare = true) :
    Titles s.toList [s] where
  bracket r := by simpa using bare_ne_bracket hne (List.all_eq_true.mp hbare) [] r
  reads r := by
    have h := key?_bare hne (List.all_eq_true.mp hbare) 78 r
    rw [String.ofList_toList] at h
    exact h

/-- A title of two parts. -/
theorem titles_two {s t : String} (hne : s.toList ≠ []) (hbare : s.toList.all isBare = true)
    (hne' : t.toList ≠ []) (hbare' : t.toList.all isBare = true) :
    Titles (s.toList ++ '.' :: t.toList) [s, t] where
  bracket r := bare_ne_bracket hne (List.all_eq_true.mp hbare) _ r
  reads r := by
    have hbare := List.all_eq_true.mp hbare
    have hbare' := List.all_eq_true.mp hbare'
    have hread : simpleKey? (skipSpace (s.toList ++ '.' :: (t.toList ++ ']' :: r))) =
        some (s.toList, '.' :: (t.toList ++ ']' :: r)) := by
      rw [skipSpace_bare hne hbare]
      refine simpleKey?_bare hne hbare ?_
      rintro d ⟨⟩
      decide
    have h := dottedKey_more hread (key?_bare hne' hbare' 77 r)
    rw [String.ofList_toList, String.ofList_toList] at h
    rw [List.append_assoc]
    exact h

theorem says_entries {lines : List (String × List Char)} {es : Entries}
    (h : List.Forall₂ (fun l e => l.1 = e.1 ∧ Denotes l.2 e.2) lines es) :
    Says (lines.flatMap fun l => writeEntry l.1 l.2) (es.map fun e => .entry [e.1] e.2) := by
  induction h with
  | nil => exact says_nil
  | @cons l e _ _ hline _ ih =>
    have hentry := says_writeEntry l.1 hline.2
    rw [hline.1] at hentry
    rw [List.flatMap_cons, hline.1]
    exact hentry.append ih

theorem says_header {title : List Char} {path : List String} (h : Titles title path) :
    Says ('[' :: (title ++ [']', '\n'])) [.header path] := by
  refine says_line (by decide) (by decide) (by decide) (by decide) fun rest => ?_
  have hline := statement_header h.bracket h.reads rest
  simpa using hline

theorem says_section {s : Section} {path : List String} {es : Entries}
    (htitle : Titles s.title.toList path)
    (hlines : List.Forall₂ (fun l e => l.1 = e.1 ∧ Denotes l.2 e.2) s.lines es) :
    Says s.write (tableLines path es) := by
  have h := (says_header htitle).append (says_entries hlines)
  exact h

theorem says_writeSections {sections : List Section} {sss : List (List Statement)}
    (h : List.Forall₂ (fun s ss => Says s.write ss) sections sss) :
    Says (writeSections sections) sss.flatten := by
  induction h with
  | nil => exact says_nil
  | cons hs hrest ih =>
    cases hrest with
    | nil => simpa [writeSections] using hs
    | cons => exact hs.append (says_break.append ih)

/-- **A document is built from what its text says.** -/
theorem Says.parse? (h : Says cs ss) (hmark : ∀ r, cs ≠ '\ufeff' :: r) :
    parse? cs = Building.run ss := by
  obtain ⟨n, hn, hread⟩ := h
  have htext : dropMark cs = cs := dropMark.eq_2 cs fun r heq => hmark r heq
  have hstatements : statements (cs.length + 1) cs = some ss := by
    obtain ⟨m, hm⟩ : ∃ m, cs.length + 1 = m + 1 + n := ⟨cs.length - n, by omega⟩
    have hall := hread (m + 1) []
    rw [List.append_nil] at hall
    rw [hm, hall]
    simp [statements, skipSpace]
  rw [Toml.parse?, htext, hstatements, Option.bind_some]

/-! ## Tables in the making -/

/-- Entries whose values are finished. -/
def settled (es : Entries) : Draft := es.map fun e => (e.1, .value e.2)

theorem finish_settled (es : Entries) : Draft.finish (settled es) = es := by
  induction es with
  | nil => rfl
  | cons e es ih => exact congrArg (e :: ·) ih

theorem Draft.find?_eq_none {k : String} {d : Draft} (h : k ∉ d.map Prod.fst) :
    Draft.find? k d = none := by
  induction d with
  | nil => rfl
  | cons e d ih =>
    rw [List.map_cons, List.mem_cons, not_or] at h
    rw [Draft.find?, if_neg (Ne.symm h.1), ih h.2]

theorem Draft.put_new {k : String} {d : Draft} (node : Node) (h : k ∉ d.map Prod.fst) :
    Draft.put k node d = d ++ [(k, node)] := by
  induction d with
  | nil => rfl
  | cons e d ih =>
    rw [List.map_cons, List.mem_cons, not_or] at h
    rw [Draft.put, if_neg (Ne.symm h.1), ih h.2]
    rfl

theorem keys_settled (es : Entries) : (settled es).map Prod.fst = es.map Prod.fst := by
  simp [settled, Function.comp_def]

/-- What a row of statements makes of a document. -/
def Fills (b : Building) (ss : List Statement) (b' : Building) : Prop :=
  ss.foldlM Building.step b = some b'

variable {b b' b'' : Building}

theorem fills_nil (b : Building) : Fills b [] b := rfl

theorem Fills.append {ss' : List Statement} (h : Fills b ss b') (h' : Fills b' ss' b'') :
    Fills b (ss ++ ss') b'' := by
  rw [Fills, List.foldlM_append, h]
  exact h'

theorem Fills.cons {s : Statement} (h : b.step s = some b') (h' : Fills b' ss b'') :
    Fills b (s :: ss) b'' := by
  rw [Fills, List.foldlM_cons, h]
  exact h'

theorem Fills.run {d : Draft} (h : Fills {} ss b) (hclose : b.close = some d) :
    Building.run ss = some (Draft.finish d) := by
  rw [Building.run, h, Option.bind_eq_bind, Option.bind_some, hclose]
  rfl

/-- Entries of new keys are added at the end of the table that is open. -/
theorem fills_entries (done : Entries) {es : Entries} (b : Building)
    (hdistinct : ((done ++ es).map Prod.fst).Nodup) (hcurrent : b.current = settled done) :
    Fills b (es.map fun e => .entry [e.1] e.2) { b with current := settled (done ++ es) } := by
  induction es generalizing done b with
  | nil =>
    rw [List.append_nil, ← hcurrent]
    exact fills_nil b
  | cons e es ih =>
    have hnew : e.1 ∉ (settled done).map Prod.fst := by
      rw [keys_settled]
      rw [List.map_append, List.nodup_append] at hdistinct
      exact fun hmem => hdistinct.2.2 e.1 hmem e.1 (by simp) rfl
    have hstep : b.step (.entry [e.1] e.2) =
        some { b with current := settled (done ++ [e]) } := by
      simp only [Building.step, hcurrent, Draft.enter, Draft.find?_eq_none hnew,
        Draft.put_new _ hnew]
      simp [settled]
    have hrest := ih (done ++ [e]) { b with current := settled (done ++ [e]) }
      (by simpa using hdistinct) rfl
    rw [List.append_assoc, List.singleton_append] at hrest
    exact .cons hstep hrest

/-- **The lines of a table** whose keys are distinct fill the table that its header opens. -/
theorem fills_table {path : List String} {es : Entries} {d : Draft} (hclose : b.close = some d)
    (hlook : d.look path = some none) (hdistinct : (es.map Prod.fst).Nodup) :
    Fills b (tableLines path es) { closed := d, path, current := settled es } := by
  have hopen : b.step (.header path) = some { closed := d, path } := by
    rw [Building.step, hclose, Option.bind_eq_bind, Option.bind_some, hlook]
    rfl
  exact .cons hopen (fills_entries [] { closed := d, path } hdistinct rfl)

end AgentSupervisor.Toml
