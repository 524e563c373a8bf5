import AgentSupervisor.Config.Load
import AgentSupervisor.Config.Printed
import AgentSupervisor.Proofs.SettingValues
import AgentSupervisor.Proofs.SoundTables
import AgentSupervisor.Proofs.TomlDocuments

/-!
# Settings in print, read back

What is loaded can be printed, and what is printed is loaded again as the same settings.

* `Printable`          : settings that print well: numbers of TOML, and commands in their order;
* `printable_of_sound` : settings that were read from documents do;
* `ofString_print`     : and are then read back;
* `print_reads_back`   : so all that can be loaded survives being printed.
-/

namespace AgentSupervisor

open Toml (Entries IsNumber IsText Sound find? inRange tableLines settled)

variable {es : Entries}

/-! ## What can be read from sound values -/

namespace Toml

variable {v : Toml} {names : List (List String)} {os : List (Option Toml)}

theorem sound_setting? {ns : List String} {o : Option Toml} (hes : Sound (.table es))
    (h : setting? ns es = some o) : ∀ w, o = some w → Sound w := by
  rintro w rfl
  rw [setting?] at h
  split at h
  · cases h
  · rename_i v hv
    cases h
    have hmem : w ∈ ns.filterMap fun n => find? n es := hv ▸ List.mem_singleton.mpr rfl
    obtain ⟨n, -, hn⟩ := List.mem_filterMap.mp hmem
    exact hes.find? hn
  · cases h

theorem sound_settings (hes : Sound (.table es))
    (h : (names.mapM fun ns => setting? ns es) = some os) :
    ∀ o ∈ os, ∀ w, o = some w → Sound w := by
  induction names generalizing os with
  | nil =>
    cases h
    nofun
  | cons ns names ih =>
    rw [List.mapM_cons] at h
    obtain ⟨o, ho, h⟩ := Option.bind_eq_some_iff.mp h
    obtain ⟨os', hos, h⟩ := Option.bind_eq_some_iff.mp h
    cases h
    exact List.forall_mem_cons.mpr ⟨sound_setting? hes ho, ih hos⟩

/-- The values of a group are sound where the group is, in a table or in an array. -/
theorem sound_group? (hv : Sound v) (h : group? names v = some os) :
    ∀ o ∈ os, ∀ w, o = some w → Sound w := by
  cases v with
  | table es => exact sound_settings hv h
  | array vs =>
    rw [group?, Option.ite_none_right_eq_some] at h
    obtain ⟨-, h⟩ := h
    cases hv with
    | array hvs =>
      cases h
      rintro o ho w rfl
      rcases List.mem_append.mp ho with ho | ho
      · obtain ⟨w', hw', heq⟩ := List.mem_map.mp ho
        exact Option.some.inj heq ▸ hvs w' hw'
      · cases (List.mem_replicate.mp ho).2
  | _ => cases h

/-- A number is one of TOML when it was read, and when it is a default that is one. -/
theorem inRange_of_isNumber {default n : Nat} {o : Option Toml} (hdefault : inRange default = true)
    (ho : ∀ w, o = some w → Sound w) (h : IsNumber default o n) : inRange n = true := by
  cases o with
  | none =>
    obtain rfl : n = default := h
    exact hdefault
  | some w =>
    obtain rfl : w = .integer n := h
    cases ho _ rfl with
    | integer hn => exact hn

end Toml

theorem TerminalConfig.inRange_ofToml? {v : Toml} {t : TerminalConfig} (hv : Sound v)
    (h : TerminalConfig.ofToml? v = some t) :
    inRange t.spawnDelay.toNat = true ∧ inRange t.maxRetryAttempts.toNat = true := by
  obtain ⟨os, hos, h⟩ := Option.bind_eq_some_iff.mp h
  have hsound := Toml.sound_group? hv hos
  split at h
  · rename_i preferred delay attempts
    obtain ⟨p, -, h⟩ := Option.bind_eq_some_iff.mp h
    obtain ⟨d, hd, h⟩ := Option.bind_eq_some_iff.mp h
    obtain ⟨a, ha, h⟩ := Option.bind_eq_some_iff.mp h
    cases h
    exact ⟨Toml.inRange_of_isNumber (by decide) (hsound delay (by simp))
        ((Toml.orDefault_uint64 1000 d delay).mp hd),
      Toml.inRange_of_isNumber (by decide) (hsound attempts (by simp))
        ((Toml.orDefault_uint32 5 a attempts).mp ha)⟩
  · cases h

theorem InboxConfig.inRange_ofToml? {v : Toml} {i : InboxConfig} (hv : Sound v)
    (h : InboxConfig.ofToml? v = some i) : inRange i.maxAgeSeconds.toNat = true := by
  obtain ⟨os, hos, h⟩ := Option.bind_eq_some_iff.mp h
  have hsound := Toml.sound_group? hv hos
  split at h
  · rename_i age
    obtain ⟨a, ha, h⟩ := Option.bind_eq_some_iff.mp h
    cases h
    exact Toml.inRange_of_isNumber (by decide) (hsound age (by simp))
      ((Toml.orDefault_uint64 86400 a age).mp ha)
  · cases h

namespace AgentConfig

/-- One command for each agent, in their order. -/
structure Ordered (cs : List (String × String)) : Prop where
  distinct : (cs.map Prod.fst).Nodup
  sorted : cs.Pairwise fun a b => a.1 ≤ b.1

theorem ordered_nil : Ordered [] := ⟨List.nodup_nil, .nil⟩

theorem ordered_sortCommands {cs : List (String × String)} (h : (cs.map Prod.fst).Nodup) :
    Ordered (sortCommands cs) where
  distinct := ((List.mergeSort_perm cs _).map Prod.fst).nodup_iff.mpr h
  sorted := by
    have hsorted := @List.pairwise_mergeSort _ (fun a b : String × String => decide (a.1 ≤ b.1))
      (fun a b d hab hbd => by
        simp only [decide_eq_true_eq] at hab hbd ⊢
        exact String.le_trans hab hbd)
      (fun a b => by simpa using String.le_total a.1 b.1) cs
    exact hsorted.imp fun h => of_decide_eq_true h

/-- Commands that are in their order stay as they are. -/
theorem Ordered.sortCommands {cs : List (String × String)} (h : Ordered cs) :
    sortCommands cs = cs :=
  List.mergeSort_of_pairwise (h.sorted.imp fun hab => decide_eq_true hab)

theorem keys_commands {cs : List (String × String)}
    (h : (es.mapM fun e => (Toml.text? e.2).map fun t => (e.1, t)) = some cs) :
    cs.map Prod.fst = es.map Prod.fst := by
  induction es generalizing cs with
  | nil =>
    cases h
    rfl
  | cons e es ih =>
    rw [List.mapM_cons] at h
    obtain ⟨p, hp, h⟩ := Option.bind_eq_some_iff.mp h
    obtain ⟨ps, hps, h⟩ := Option.bind_eq_some_iff.mp h
    obtain ⟨t, -, rfl⟩ := Option.map_eq_some_iff.mp hp
    cases h
    rw [List.map_cons, List.map_cons, ih hps]

theorem ordered_commandsOfToml? {v : Toml} {cs : List (String × String)} (hv : Sound v)
    (h : commandsOfToml? v = some cs) : Ordered cs := by
  cases v with
  | table es =>
    obtain ⟨ps, hps, rfl⟩ := Option.map_eq_some_iff.mp h
    exact ordered_sortCommands (keys_commands hps ▸ (Toml.sound_table.mp hv).1)
  | _ => cases h

theorem ordered_ofToml? {v : Toml} {a : AgentConfig} (hv : Sound v)
    (h : AgentConfig.ofToml? v = some a) : Ordered a.commands := by
  obtain ⟨os, hos, h⟩ := Option.bind_eq_some_iff.mp h
  have hsound := Toml.sound_group? hv hos
  split at h
  · rename_i default commands
    obtain ⟨d, -, h⟩ := Option.bind_eq_some_iff.mp h
    obtain ⟨cs, hcs, h⟩ := Option.bind_eq_some_iff.mp h
    cases h
    exact Toml.orDefault_property hcs ordered_nil fun w hw =>
      ordered_commandsOfToml? (hsound commands (by simp) w hw)
  · cases h

end AgentConfig

namespace Config

variable {c : Config} {layers : List Entries}

/-! ## Settings that were loaded -/

/-- Settings whose numbers TOML has, with one command for each agent, in their order. -/
structure Printable (c : Config) : Prop where
  numbers : ∀ n ∈ c.numbers, inRange n = true
  commands : AgentConfig.Ordered c.agent.commands

/-- **Settings that are read from sound values can be printed.** -/
theorem printable_of_sound (hes : Sound (.table es)) (h : ofEntries? es = some c) :
    Printable c := by
  obtain ⟨hterminal, hagent, hinbox⟩ := ofEntries?_eq_some.mp h
  have hnumbers : inRange c.terminal.spawnDelay.toNat = true ∧
      inRange c.terminal.maxRetryAttempts.toNat = true := by
    refine Toml.orDefault_property (a := c.terminal)
      (P := fun t : TerminalConfig =>
        inRange t.spawnDelay.toNat = true ∧ inRange t.maxRetryAttempts.toNat = true)
      hterminal ?_ fun _ hfind => TerminalConfig.inRange_ofToml? (hes.find? hfind)
    exact ⟨by decide, by decide⟩
  have hage : inRange c.inbox.maxAgeSeconds.toNat = true := by
    refine Toml.orDefault_property (a := c.inbox)
      (P := fun i : InboxConfig => inRange i.maxAgeSeconds.toNat = true)
      hinbox ?_ fun _ hfind => InboxConfig.inRange_ofToml? (hes.find? hfind)
    decide
  refine ⟨by simp [numbers, hnumbers, hage], ?_⟩
  exact Toml.orDefault_property (P := fun a => AgentConfig.Ordered a.commands) hagent
    AgentConfig.ordered_nil fun _ hfind => AgentConfig.ordered_ofToml? (hes.find? hfind)

/-- Settings that some files, or some text, are read as. -/
inductive Loaded (c : Config) : Prop
  | files {disk : Disk} {dir : Place} {user : Option String} {project : String}
      {explicit : Option String} (h : load disk dir user project explicit = .ok c)
  | text {s : String} (h : ofString s = .ok c)

theorem sound_readLayer {disk : Disk} {dir : Place} {path : String} {l : Entries}
    (h : readLayer disk dir path = .ok l) : Sound (.table l) := by
  rw [readLayer] at h
  split at h
  · cases h
  · split at h
    · cases h
    · rename_i hparse
      cases h
      exact Toml.parse?_sound hparse

theorem sound_readLayers {disk : Disk} {dir : Place} {paths : List String}
    (h : paths.mapM (readLayer disk dir) = .ok layers) : ∀ l ∈ layers, Sound (.table l) := by
  induction paths generalizing layers with
  | nil =>
    cases h
    nofun
  | cons p paths ih =>
    rw [List.mapM_cons] at h
    cases hl : readLayer disk dir p with
    | error e =>
      rw [hl] at h
      cases h
    | ok l =>
      cases hls : paths.mapM (readLayer disk dir) with
      | error e =>
        rw [hl, hls] at h
        cases h
      | ok ls =>
        rw [hl, hls] at h
        cases h
        exact List.forall_mem_cons.mpr ⟨sound_readLayer hl, ih hls⟩

/-- Loaded settings are read from sound layers. -/
theorem Loaded.sound (h : Loaded c) :
    ∃ layers, (∀ l ∈ layers, Sound (.table l)) ∧ ofLayers layers = .ok c := by
  cases h with
  | @files disk dir user project explicit h =>
    rw [load] at h
    cases hlayers : (layerFiles disk dir user project explicit).mapM (readLayer disk dir) with
    | error e =>
      rw [hlayers] at h
      cases h
    | ok layers =>
      rw [hlayers] at h
      exact ⟨layers, sound_readLayers hlayers, h⟩
  | @text s h =>
    rw [ofString] at h
    split at h
    · cases h
    · rename_i es hes
      exact ⟨[es], List.forall_mem_singleton.mpr (Toml.parse?_sound hes), h⟩

/-! ## Settings in print -/

/-- The entry of a text that may be absent. -/
def optionalEntry (key : String) : Option String → Entries
  | none => []
  | some s => [(key, .string s)]

/-- The entries of the terminal settings. -/
def terminalEntries (c : Config) : Entries :=
  optionalEntry "preferred" c.terminal.preferred ++
    [("spawn_delay_ms", .integer c.terminal.spawnDelay.toNat),
      ("max_retry_attempts", .integer c.terminal.maxRetryAttempts.toNat)]

/-- The commands of the agents, as entries. -/
def commandEntries (c : Config) : Entries := c.agent.commands.map fun e => (e.1, .string e.2)

/-- The entries of the agent settings. -/
def agentEntries (c : Config) : Entries :=
  optionalEntry "default" c.agent.default ++
    if c.agent.commands.isEmpty then [] else [("commands", .table c.commandEntries)]

/-- The entries of the inbox settings. -/
def inboxEntries (c : Config) : Entries :=
  [("max_age_secs", .integer c.inbox.maxAgeSeconds.toNat)]

/-- The table that the printed settings stand for. -/
def entries (c : Config) : Entries :=
  [("terminal", .table c.terminalEntries),
    ("agent", .table c.agentEntries),
    ("inbox", .table c.inboxEntries)]

/-- What the lines of a section say. -/
abbrev Lines (lines : List (String × List Char)) (es : Entries) : Prop :=
  List.Forall₂ (fun l e => l.1 = e.1 ∧ Toml.Denotes l.2 e.2) lines es

theorem lines_optional (key : String) (o : Option String) :
    Lines (optionalLine key o) (optionalEntry key o) := by
  cases o with
  | none => exact .nil
  | some s => exact .cons ⟨rfl, Toml.denotes_writeString s⟩ .nil

theorem lines_number (key : String) {n : Nat} (hn : inRange n = true) :
    Lines [numberLine key n] [(key, .integer n)] :=
  .cons ⟨rfl, Toml.denotes_decimal hn⟩ .nil

theorem lines_terminal (h : Printable c) :
    Lines (optionalLine "preferred" c.terminal.preferred ++
      [numberLine "spawn_delay_ms" c.terminal.spawnDelay.toNat,
        numberLine "max_retry_attempts" c.terminal.maxRetryAttempts.toNat]) c.terminalEntries :=
  List.rel_append (lines_optional _ _)
    (.cons ⟨rfl, Toml.denotes_decimal (h.numbers _ (by simp [numbers]))⟩
      (lines_number _ (h.numbers _ (by simp [numbers]))))

theorem lines_commands (c : Config) :
    Lines (c.agent.commands.map fun e => (e.1, Toml.writeString e.2)) c.commandEntries := by
  rw [commandEntries]
  induction c.agent.commands with
  | nil => exact .nil
  | cons e es ih => exact .cons ⟨rfl, Toml.denotes_writeString e.2⟩ ih

/-- The tables of the agent settings, of which the second lies in the first. -/
def agentTables (c : Config) : List (List String × Entries) :=
  (if c.agent.default.isSome || c.agent.commands.isEmpty then
    [(["agent"], optionalEntry "default" c.agent.default)] else []) ++
  (if c.agent.commands.isEmpty then [] else [(["agent", "commands"], c.commandEntries)])

/-- The tables of the printed settings, with their paths. -/
def tables (c : Config) : List (List String × Entries) :=
  (["terminal"], c.terminalEntries) :: (c.agentTables ++ [(["inbox"], c.inboxEntries)])

/-- The printed tables are these tables, in writing. -/
theorem sections_tables (h : Printable c) :
    List.Forall₂ (fun s t => Toml.Titles s.title.toList t.1 ∧ Lines s.lines t.2) c.sections
      c.tables := by
  have hterminal : Toml.Titles "terminal".toList ["terminal"] := Toml.titles_one (by decide) rfl
  have hagent : Toml.Titles "agent".toList ["agent"] := Toml.titles_one (by decide) rfl
  have hcommands : Toml.Titles "agent.commands".toList ["agent", "commands"] :=
    Toml.titles_two (s := "agent") (t := "commands") (by decide) rfl (by decide) rfl
  have hinbox : Toml.Titles "inbox".toList ["inbox"] := Toml.titles_one (by decide) rfl
  have hage := h.numbers c.inbox.maxAgeSeconds.toNat (by simp [numbers])
  rw [sections, List.append_assoc, List.append_assoc, ← List.append_assoc _ _ [_]]
  refine .cons ⟨hterminal, lines_terminal h⟩ (List.rel_append (List.rel_append ?_ ?_) ?_)
  · split
    · exact .cons ⟨hagent, lines_optional _ _⟩ .nil
    · exact .nil
  · split
    · exact .nil
    · exact .cons ⟨hcommands, lines_commands c⟩ .nil
  · exact .cons ⟨hinbox, lines_number _ hage⟩ .nil

/-- The text of the printed settings says the lines of their tables. -/
theorem says_print (h : Printable c) :
    Toml.Says (Toml.writeSections c.sections)
      (c.tables.map fun t => tableLines t.1 t.2).flatten := by
  refine Toml.says_writeSections ?_
  rw [List.forall₂_map_right_iff]
  exact (sections_tables h).imp fun _ _ hst => Toml.says_section hst.1 hst.2

theorem distinct_terminalEntries (c : Config) : (c.terminalEntries.map Prod.fst).Nodup := by
  rw [terminalEntries]
  cases c.terminal.preferred <;> simp [optionalEntry]

theorem distinct_commandEntries (h : Printable c) : (c.commandEntries.map Prod.fst).Nodup := by
  have hkeys : c.commandEntries.map Prod.fst = c.agent.commands.map Prod.fst := by
    simp [commandEntries, Function.comp_def]
  exact hkeys ▸ h.commands.distinct

/-- What the lines of the agent settings build, whichever of the two tables is left out. -/
theorem fills_agents (h : Printable c) (terminal : Toml.Draft) :
    ∃ b origin d, Toml.Fills { path := ["terminal"], current := terminal }
        (c.agentTables.map fun t => tableLines t.1 t.2).flatten b ∧
      b.close = some [("terminal", .table .header terminal), ("agent", .table origin d)] ∧
      Toml.Draft.finish d = c.agentEntries := by
  have hcommands := distinct_commandEntries h
  rw [agentTables, agentEntries]
  -- either table may be left out, but not both, and the second one is closed inside the first
  cases hempty : c.agent.commands.isEmpty with
  | true =>
    have hdefault : ((optionalEntry "default" c.agent.default).map Prod.fst).Nodup := by
      cases c.agent.default <;> simp [optionalEntry]
    have hagent : Toml.Fills { path := ["terminal"], current := terminal }
        (tableLines ["agent"] (optionalEntry "default" c.agent.default))
        { closed := [("terminal", .table .header terminal)], path := ["agent"],
          current := settled (optionalEntry "default" c.agent.default) } :=
      Toml.fills_table rfl rfl hdefault
    refine ⟨_, .header, _, by simpa using hagent, rfl, ?_⟩
    rw [Toml.finish_settled]
    simp
  | false =>
    cases c.agent.default with
    | none =>
      have hagents : Toml.Fills { path := ["terminal"], current := terminal }
          (tableLines ["agent", "commands"] c.commandEntries)
          { closed := [("terminal", .table .header terminal)], path := ["agent", "commands"],
            current := settled c.commandEntries } :=
        Toml.fills_table rfl rfl hcommands
      refine ⟨_, .passage, [("commands", .table .header (settled c.commandEntries))],
        by simpa using hagents, rfl, ?_⟩
      simp [Toml.Draft.finish, Toml.Draft.finishNode, Toml.finish_settled, optionalEntry]
    | some s =>
      have hagent : Toml.Fills { path := ["terminal"], current := terminal }
          (tableLines ["agent"] [("default", .string s)])
          { closed := [("terminal", .table .header terminal)], path := ["agent"],
            current := settled [("default", .string s)] } :=
        Toml.fills_table rfl rfl (by simp)
      have hagents : Toml.Fills
          { closed := [("terminal", .table .header terminal)], path := ["agent"],
            current := settled [("default", .string s)] }
          (tableLines ["agent", "commands"] c.commandEntries)
          { closed := [("terminal", .table .header terminal),
              ("agent", .table .header (settled [("default", .string s)]))],
            path := ["agent", "commands"], current := settled c.commandEntries } :=
        Toml.fills_table rfl rfl hcommands
      refine ⟨_, .header, [("default", .value (.string s)),
          ("commands", .table .header (settled c.commandEntries))],
        by simpa [optionalEntry] using hagent.append hagents, rfl, ?_⟩
      simp [Toml.Draft.finish, Toml.Draft.finishNode, Toml.finish_settled, optionalEntry]

/-- The lines of the printed settings build their table. -/
theorem run_tables (h : Printable c) :
    Toml.Building.run (c.tables.map fun t => tableLines t.1 t.2).flatten = some c.entries := by
  have hterminal : Toml.Fills {} (tableLines ["terminal"] c.terminalEntries)
      { path := ["terminal"], current := settled c.terminalEntries } :=
    Toml.fills_table rfl rfl (distinct_terminalEntries c)
  obtain ⟨b, origin, d, hagents, hclose, hfinish⟩ := fills_agents h (settled c.terminalEntries)
  have hinbox : Toml.Fills b (tableLines ["inbox"] c.inboxEntries)
      { closed := [("terminal", .table .header (settled c.terminalEntries)),
          ("agent", .table origin d)],
        path := ["inbox"], current := settled c.inboxEntries } :=
    Toml.fills_table hclose rfl (by simp [inboxEntries])
  have hall := (hterminal.append (hagents.append hinbox)).run
    (d := [("terminal", .table .header (settled c.terminalEntries)), ("agent", .table origin d),
      ("inbox", .table .header (settled c.inboxEntries))]) rfl
  have hlines : (c.tables.map fun t => tableLines t.1 t.2).flatten =
      tableLines ["terminal"] c.terminalEntries ++
        ((c.agentTables.map fun t => tableLines t.1 t.2).flatten ++
          tableLines ["inbox"] c.inboxEntries) := by
    simp [tables]
  rw [hlines, hall]
  simp [Toml.Draft.finish, Toml.Draft.finishNode, Toml.finish_settled, hfinish, entries]

/-- **The printed text is read as the table of the settings.** -/
theorem ofString?_print (h : Printable c) : Toml.ofString? c.print = some c.entries := by
  -- the text begins with a bracket, so no mark is dropped from it
  have hmark : ∀ r, Toml.writeSections c.sections ≠ '\ufeff' :: r := by
    intro r heq
    have hbracket : (Toml.writeSections c.sections).head? = some '[' := by
      cases hs : c.sections with
      | nil => simp [sections] at hs
      | cons s ss => cases ss <;> rfl
    rw [heq] at hbracket
    exact absurd (Option.some.inj hbracket) (by decide)
  rw [Toml.ofString?, print, String.toList_ofList, (says_print h).parse? hmark, run_tables h]

/-! ## Settings read back -/

theorem isText_optionalEntry (o : Option String) : IsText (o.map Toml.string) o := by
  cases o with
  | none => rfl
  | some s => exact ⟨s, rfl, .inl rfl⟩

theorem ofToml?_terminalEntries (c : Config) :
    TerminalConfig.ofToml? (.table c.terminalEntries) = some c.terminal := by
  rw [TerminalConfig.ofToml?_table, terminalEntries]
  have htext := isText_optionalEntry c.terminal.preferred
  cases hp : c.terminal.preferred <;>
  · rw [hp] at htext
    exact ⟨by simp [optionalEntry, find?], htext, rfl, rfl⟩

theorem commandsOfToml?_commandEntries (h : Printable c) :
    AgentConfig.commandsOfToml? (.table c.commandEntries) = some c.agent.commands := by
  have hread (cs : List (String × String)) :
      ((cs.map fun e => (e.1, Toml.string e.2)).mapM fun e =>
        (Toml.text? e.2).map fun t => (e.1, t)) = some cs := by
    induction cs with
    | nil => rfl
    | cons e cs ih =>
      rw [List.map_cons, List.mapM_cons, ih]
      rfl
  rw [AgentConfig.commandsOfToml?, commandEntries, hread, Option.map_some,
    h.commands.sortCommands]

theorem ofToml?_agentEntries (h : Printable c) :
    AgentConfig.ofToml? (.table c.agentEntries) = some c.agent := by
  have htext := isText_optionalEntry c.agent.default
  have hcommands := commandsOfToml?_commandEntries h
  rw [AgentConfig.ofToml?_table, agentEntries]
  cases hempty : c.agent.commands with
  | nil =>
    cases hd : c.agent.default <;>
    · rw [hd] at htext
      exact ⟨htext, rfl⟩
  | cons e cs =>
    rw [hempty] at hcommands
    cases hd : c.agent.default <;>
    · rw [hd] at htext
      exact ⟨htext, hcommands⟩

theorem ofToml?_inboxEntries (c : Config) :
    InboxConfig.ofToml? (.table c.inboxEntries) = some c.inbox := by
  rw [InboxConfig.ofToml?_table]
  rfl

theorem ofEntries?_entries (h : Printable c) : ofEntries? c.entries = some c := by
  have hterminal : find? "terminal" c.entries = some (.table c.terminalEntries) := rfl
  have hagent : find? "agent" c.entries = some (.table c.agentEntries) := rfl
  have hinbox : find? "inbox" c.entries = some (.table c.inboxEntries) := rfl
  rw [ofEntries?_eq_some, hterminal, hagent, hinbox, Toml.orDefault_some, Toml.orDefault_some,
    Toml.orDefault_some]
  exact ⟨ofToml?_terminalEntries c, ofToml?_agentEntries h, ofToml?_inboxEntries c⟩

/-- **The printed settings are read back.** -/
theorem ofString_print (h : Printable c) : ofString c.print = .ok c := by
  have hread : ofEntries? (merged [c.entries]) = some c := by
    rw [ofEntries?_merged_one, ofEntries?_entries h]
  have hmerged (k : String) : Toml.at? ["terminal", k] (.table (merged [c.entries])) =
      find? k c.terminalEntries := by
    rw [← Toml.at?_one]
    exact Toml.at?_overlay_nil "terminal" [k] c.entries
  rw [ofString, ofString?_print h]
  refine ofLayers_eq_ok.mpr ⟨hread, fun _ => ?_, fun _ => ?_⟩
  · rw [hmerged, terminalEntries]
    cases c.terminal.preferred <;> rfl
  · rw [hmerged, terminalEntries]
    cases c.terminal.preferred <;> rfl

/-- **What is loaded survives being printed.** Settings that are loaded from files, or read from a
    text, can be printed, and the printed text is read as the same settings. -/
theorem print_reads_back {c : Config} (h : Loaded c) :
    ∃ text, c.printed = .ok text ∧ ofString text = .ok c := by
  obtain ⟨layers, hsound, hlayers⟩ := h.sound
  have hprintable := printable_of_sound (sound_merged hsound) (ofLayers_eq_ok.mp hlayers).1
  refine ⟨c.print, ?_, ofString_print hprintable⟩
  rw [printed, if_pos (List.all_eq_true.mpr hprintable.numbers)]

/-- Settings with texts of several styles, a zero and the largest number. -/
def hard : Config where
  terminal := { preferred := some "say \"hi\"\\\n\x07", spawnDelay := 0 }
  agent := { default := some "it''s\n''", commands := [("two words", "a\"\"\"b")] }
  inbox := { maxAgeSeconds := 9223372036854775807 }

/-- A text that sets them. -/
def hardText : String :=
  "[terminal]\npreferred = \"say \\\"hi\\\"\\\\\\n\\u0007\"\nspawn_delay_ms = 0\n" ++
  "[agent]\ndefault = '''\nit''s\n'''''\n" ++
  "[agent.commands]\n\"two words\" = 'a\"\"\"b'\n" ++
  "[inbox]\nmax_age_secs = 9223372036854775807\n"

theorem print_reads_back_hard :
    ofString hardText = .ok hard ∧ ∃ text, hard.printed = .ok text ∧ ofString text = .ok hard := by
  have hread : ofString hardText = .ok hard := ok_of_toOption (by decide +kernel)
  exact ⟨hread, print_reads_back (.text hread)⟩

end Config

end AgentSupervisor
