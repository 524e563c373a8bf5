import AgentSupervisor.Text.Blank

/-!
# Inbox names

The name of a session becomes the name of its inbox, which is also the stem of file names. An
inbox name holds ASCII letters, digits, dots, underscores and hyphens, is never empty and
never begins with a dot, so it is one path component and no hidden file.
-/

namespace AgentSupervisor

/-- The name of an inbox. -/
structure InboxId where
  text : String
  deriving Repr, DecidableEq

namespace InboxId

/-- A character that an inbox name may hold. -/
def isPlain (c : Char) : Bool :=
  ('A' ≤ c && c ≤ 'Z') || ('a' ≤ c && c ≤ 'z') || ('0' ≤ c && c ≤ '9') ||
    c == '.' || c == '_' || c == '-'

/-- A character of a session name as it stands in an inbox name. -/
def plainChar (c : Char) : Char := if isPlain c then c else '-'

/-- Dots at the front become underscores. -/
def hideDots (cs : List Char) : List Char :=
  (cs.takeWhile (· == '.')).map (fun _ => '_') ++ cs.dropWhile (· == '.')

/-- The inbox of a session name: blanks around it are dropped, other characters become hyphens,
    dots at the front become underscores and an empty name becomes one underscore. -/
def ofNameChars (cs : List Char) : List Char :=
  let plain := hideDots ((Text.trimChars cs).map plainChar)
  if plain.isEmpty then ['_'] else plain

/-- The inbox of a session name. -/
def ofName (name : String) : InboxId := ⟨String.ofList (ofNameChars name.toList)⟩

/-- The names that inboxes of sessions have. -/
structure Canonical (cs : List Char) : Prop where
  nonempty : cs ≠ []
  plain : ∀ c ∈ cs, isPlain c = true
  undotted : cs.head? ≠ some '.'

/-! ## Every name is made canonical -/

theorem isPlain_plainChar (c : Char) : isPlain (plainChar c) = true := by
  unfold plainChar
  split
  · assumption
  · decide

theorem hideDots_plain {cs : List Char} (h : ∀ c ∈ cs, isPlain c = true) :
    ∀ c ∈ hideDots cs, isPlain c = true := by
  intro c hc
  simp only [hideDots, List.mem_append, List.mem_map] at hc
  rcases hc with ⟨_, _, rfl⟩ | hc
  · decide
  · exact h c ((List.dropWhile_suffix _).subset hc)

theorem head?_hideDots (cs : List Char) : (hideDots cs).head? ≠ some '.' := by
  cases cs with
  | nil => simp [hideDots]
  | cons c r =>
    by_cases h : c = '.'
    · simp [hideDots, h]
    · simp [hideDots, h]

theorem canonical_ofNameChars (cs : List Char) : Canonical (ofNameChars cs) := by
  unfold ofNameChars
  simp only
  split
  · refine ⟨by simp, fun c hc => ?_, by decide⟩
    rw [List.mem_singleton.mp hc]; decide
  · rename_i h
    refine ⟨by simpa using h, ?_, head?_hideDots _⟩
    exact hideDots_plain (by
      intro c hc
      obtain ⟨d, _, rfl⟩ := List.mem_map.mp hc
      exact isPlain_plainChar d)

end InboxId

end AgentSupervisor
