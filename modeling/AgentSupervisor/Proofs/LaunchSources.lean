import AgentSupervisor.Proofs.InboxNames
import AgentSupervisor.Proofs.Recognition

/-!
# Where the command of a session comes from

The command comes from the override, from the settings or from the agent, in this order, and a
source that is blank counts as one that is not there. Only an override that is blank is chosen
nevertheless, before it turns out to be blank: then the command in the settings is not looked at.

* `nonblank?_eq`       : a text counts unless it is blank, and then without the blanks around it;
* `base_eq_firstGiven` : the source that the command comes from;
* `extraPatterns_nil`  : when a plan adds no pattern to those of the agent;
* `make_sources`       : all of it, for every agent and all sources.
-/

namespace AgentSupervisor

namespace Text

theorem trimChars_eq_nil {cs : List Char} : trimChars cs = [] ↔ ∀ c ∈ cs, isBlank c = true := by
  rw [← trimFront_eq_nil, trimChars]
  cases h : trimFront cs with
  | nil => exact ⟨fun _ => rfl, fun _ => rfl⟩
  | cons c r =>
    rw [trimBack_cons (trimFront_head h)]
    exact ⟨fun h => absurd h (List.cons_ne_nil _ _), fun h => absurd h (List.cons_ne_nil _ _)⟩

/-- Nothing is left of a text exactly when it is blank. -/
theorem trim_isEmpty (s : String) : (trim s).isEmpty = isBlankString s := by
  rw [Bool.eq_iff_iff, String.isEmpty_iff, ← String.toList_eq_nil_iff, trim, String.toList_ofList,
    trimChars_eq_nil, isBlankString, List.all_eq_true]

end Text

namespace LaunchPlan

variable {agent : Agent} {override configured : Option String} {config : AgentConfig}
  {arguments : Option String} {s : String}

/-! ## Sources -/

/-- A text that is not given, or is blank. -/
def Absent (text : Option String) : Prop := ∀ s ∈ text, Text.isBlankString s = true

/-- The first text of a row that is given and not blank, without the blanks around it. -/
def firstGiven? (row : List (Option String)) : Option String :=
  ((row.filterMap id).find? fun s => !Text.isBlankString s).map Text.trim

/-- The sources of a command. -/
def sources (agent : Agent) (override : Option String) (config : AgentConfig) :
    List (Option String) :=
  [override, config.command? agent.name, some agent.defaultCommand]

/-- A blank override stands in front of a command that is set. -/
def Hides (override configured : Option String) : Prop :=
  override ≠ none ∧ Absent override ∧ ¬ Absent configured

theorem nonblank?_eq (s : String) :
    nonblank? s = if Text.isBlankString s then none else some (Text.trim s) := by
  rw [← Text.trim_isEmpty, nonblank?]

theorem absent_none : Absent none := fun _ h => by cases h

theorem absent_some : Absent (some s) ↔ Text.isBlankString s = true :=
  ⟨fun h => h s rfl, fun h _ ht => Option.some.inj ht ▸ h⟩

theorem nonblank?_eq_none : nonblank? s = none ↔ Text.isBlankString s = true := by
  rw [nonblank?_eq]
  cases Text.isBlankString s <;> simp

/-- What counts of a text is nothing exactly when it is absent. -/
theorem bind_nonblank?_eq_none {text : Option String} :
    text.bind nonblank? = none ↔ Absent text := by
  cases text with
  | none => exact ⟨fun _ => absent_none, fun _ => rfl⟩
  | some s => rw [absent_some, Option.bind_some, nonblank?_eq_none]

/-- The first text of a row counts, or else the others are asked. -/
theorem firstGiven?_cons (text : Option String) (row : List (Option String)) :
    firstGiven? (text :: row) = (text.bind nonblank?).or (firstGiven? row) := by
  cases text with
  | none => rfl
  | some s =>
    rw [Option.bind_some, nonblank?_eq]
    cases hs : Text.isBlankString s <;> simp [firstGiven?, hs]

/-- The agent's own command counts as it is. -/
theorem firstGiven?_default (agent : Agent) :
    firstGiven? [some agent.defaultCommand] = some agent.defaultCommand := by
  cases agent <;> decide +kernel

/-! ## The command -/

/-- **The source that the command comes from** is the first one that is given and not blank,
    unless a blank override hides the settings. -/
theorem base_eq_firstGiven (h : ¬ Hides override (config.command? agent.name)) :
    firstGiven? (sources agent override config) = some (base agent override config) := by
  rw [sources, firstGiven?_cons, firstGiven?_cons, firstGiven?_default, base, custom?]
  generalize config.command? agent.name = configured at h ⊢
  cases override with
  | none =>
    have hnext : (none <|> configured) = configured := rfl
    rw [Option.bind_none, Option.none_or, hnext]
    cases configured.bind nonblank? <;> rfl
  | some o =>
    cases ho : nonblank? o with
    | some t => simp [ho]
    | none =>
      have hblank : Absent (some o) := absent_some.mpr (nonblank?_eq_none.mp ho)
      have hnone : Absent configured := by
        by_contra hc
        exact h ⟨Option.some_ne_none o, hblank, hc⟩
      simp [ho, bind_nonblank?_eq_none.mpr hnone]

/-- A blank override in front of a command that is set leaves the agent's own command. -/
theorem custom?_hidden (h : Hides override (config.command? agent.name)) :
    custom? agent override config = none := by
  obtain ⟨hgiven, hblank, -⟩ := h
  obtain ⟨o, rfl⟩ := Option.ne_none_iff_exists'.mp hgiven
  exact bind_nonblank?_eq_none.mpr hblank

/-- Nothing was chosen in place of the agent's own command. -/
theorem custom?_eq_none : custom? agent override config = none ↔
    Hides override (config.command? agent.name) ∨
      Absent override ∧ Absent (config.command? agent.name) := by
  constructor
  · intro hnone
    by_cases hc : Absent (config.command? agent.name)
    · refine .inr ⟨?_, hc⟩
      cases override with
      | none => exact absent_none
      | some o => exact bind_nonblank?_eq_none.mp hnone
    · cases override with
      | none => exact absurd (bind_nonblank?_eq_none.mp hnone) hc
      | some o => exact .inl ⟨Option.some_ne_none o, bind_nonblank?_eq_none.mp hnone, hc⟩
  · rintro (h | ⟨ho, hc⟩)
    · exact custom?_hidden h
    · cases override with
      | none => exact bind_nonblank?_eq_none.mpr hc
      | some o => exact bind_nonblank?_eq_none.mpr ho

/-- A command has a pattern for its program when its first word has a last name. -/
theorem programPattern?_eq_none {b : String} :
    programPattern? b = none ↔ Path.fileName? (Text.firstWord b.toList) = none := by
  cases hname : Path.fileName? (Text.firstWord b.toList) with
  | some name => simp [programPattern?_eq hname]
  | none =>
    refine ⟨fun _ => rfl, fun _ => ?_⟩
    unfold programPattern?
    split
    · rfl
    · rw [hname]
      rfl

/-- **When a plan adds no pattern** to those of the agent. -/
theorem extraPatterns_nil : (make agent override config arguments).extraPatterns = [] ↔
    custom? agent override config = none ∨
      Path.fileName? (Text.firstWord (base agent override config).toList) = none := by
  show ((custom? agent override config).bind programPattern?).toList = [] ↔ _
  rw [Option.toList_eq_nil_iff, base]
  cases hc : custom? agent override config with
  | none => exact ⟨fun _ => .inl rfl, fun _ => rfl⟩
  | some b => simp [programPattern?_eq_none]

/-- Arguments are added behind one space, without the blanks around them. -/
theorem command_arguments (agent : Agent) (override : Option String) (config : AgentConfig)
    (arguments : Option String) :
    (Absent arguments →
      (make agent override config arguments).command = base agent override config) ∧
    ∀ a ∈ arguments, Text.isBlankString a = false →
      (make agent override config arguments).command =
        base agent override config ++ " " ++ Text.trim a := by
  have hcommand : (make agent override config arguments).command =
      withArguments (base agent override config) arguments := rfl
  rw [hcommand, withArguments]
  constructor
  · intro h
    rw [bind_nonblank?_eq_none.mpr h]
  · rintro a ha hblank
    obtain rfl := Option.mem_def.mp ha
    rw [Option.bind_some, nonblank?_eq, if_neg (by simp [hblank])]

/-- A command is never blank. -/
theorem command_not_blank (agent : Agent) (override : Option String) (config : AgentConfig)
    (arguments : Option String) :
    Text.isBlankString (make agent override config arguments).command = false := by
  obtain ⟨hne, hhead, -⟩ := make_head agent override config arguments
  obtain ⟨c, r, hc⟩ := List.exists_cons_of_ne_nil hne
  rw [Text.isBlankString, hc, List.all_cons, hhead c (by rw [hc]; rfl), Bool.false_and]

/-- **Where the command of a session comes from**, for every agent and all sources. It is the first
    source that is given and not blank, without the blanks around it, and behind it one space and
    the arguments, if they are given and not blank. A pattern is added unless the agent's own
    command is taken because both others are absent, or the first word has no last name. The one
    exception is an override that is given and blank where a command is set: the agent's own
    command is taken then, and no pattern is added. The command is never blank. -/
theorem make_sources (agent : Agent) (override : Option String) (config : AgentConfig)
    (arguments : Option String) :
    let plan := make agent override config arguments
    let configured := config.command? agent.name
    ∃ base : String,
      (¬ Hides override configured → firstGiven? (sources agent override config) = some base) ∧
      (Hides override configured → base = agent.defaultCommand) ∧
      (Absent arguments → plan.command = base) ∧
      (∀ a ∈ arguments, Text.isBlankString a = false →
        plan.command = base ++ " " ++ Text.trim a) ∧
      (plan.extraPatterns = [] ↔ Hides override configured ∨
        Absent override ∧ Absent configured ∨
        Path.fileName? (Text.firstWord base.toList) = none) ∧
      Text.isBlankString plan.command = false := by
  intro plan configured
  obtain ⟨hplain, harguments⟩ := command_arguments agent override config arguments
  refine ⟨base agent override config, base_eq_firstGiven, fun h => ?_, hplain, harguments, ?_,
    command_not_blank agent override config arguments⟩
  · rw [base, custom?_hidden h, Option.getD_none]
  · rw [extraPatterns_nil, custom?_eq_none, or_assoc]

/-- Settings in which an agent has a command. -/
def fullAuto : AgentConfig := { commands := [("codex", "codex --full-auto")] }

/-- A blank override hides the command that is set: the first source that is given and not blank is
    not the one that is taken. -/
theorem blank_override_hides :
    firstGiven? (sources .codex (some " ") fullAuto) = some "codex --full-auto" ∧
      (make .codex (some " ") fullAuto none).command = "codex" ∧
      (make .codex none fullAuto none).command = "codex --full-auto" := by
  decide +kernel

end LaunchPlan

end AgentSupervisor
