import AgentSupervisor.Proofs.SettingValues

/-!
# Settings of many layers

Settings are read from the table that a row of layers makes together. What each layer says on its
own decides what is read, key by key.

* `later_layers_win` : each setting is that of the last layer that sets it, unless the preferred
                       terminal has been given under both its names;
* `no_silent_zero`   : a number is zero only when a layer says so.
-/

namespace AgentSupervisor.Config

open Toml (Entries IsLeaf IsNumber IsText Clear TableAt at? find? overlay)

variable {es : Entries} {c : Config} {layers : List Entries} {l : Entries} {p : List String}

theorem Tabular.reads_one (ht : Tabular l) (h : ofLayers [l] = .ok c) : Reads l c :=
  ht.reads (ofEntries?_merged_one l ▸ (ofLayers_eq_ok.mp h).1)

/-- The groups of many layers are tables where those of each layer are. -/
theorem tabular_merged (htab : ∀ l ∈ layers, Tabular l) : Tabular (merged layers) where
  terminal := merged_tableAt (fun _ _ _ _ => trivial) fun l hl => (htab l hl).terminal
  agent := merged_tableAt (fun _ _ _ _ => trivial) fun l hl => (htab l hl).agent
  commands := merged_tableAt (fun _ _ _ _ => trivial) fun l hl => (htab l hl).commands
  inbox := merged_tableAt (fun _ _ _ _ => trivial) fun l hl => (htab l hl).inbox

/-- The preferred terminal is set under each of its two names. -/
def TwoNames (layers : List Entries) : Prop :=
  (∃ l ∈ layers, (at? ["terminal", "preferred"] (.table l)).isSome) ∧
    ∃ l ∈ layers, (at? ["terminal", "preferred_terminal"] (.table l)).isSome

theorem not_twoNames : ¬ TwoNames layers ↔ lastAt [["terminal", "preferred"]] layers = none ∨
    lastAt [["terminal", "preferred_terminal"]] layers = none := by
  rw [TwoNames, ← lastAt_isSome, ← lastAt_isSome, not_and_or, Option.not_isSome_iff_eq_none,
    Option.not_isSome_iff_eq_none]

/-- Each setting is what the last layer that sets it says, or else its default. -/
structure Follows (layers : List Entries) (c : Config) : Prop where
  preferred : IsText
    (lastAt [["terminal", "preferred"], ["terminal", "preferred_terminal"]] layers)
    c.terminal.preferred
  spawnDelay : IsNumber 1000 (lastAt [["terminal", "spawn_delay_ms"]] layers)
    c.terminal.spawnDelay.toNat
  attempts : IsNumber 5 (lastAt [["terminal", "max_retry_attempts"]] layers)
    c.terminal.maxRetryAttempts.toNat
  default : IsText (lastAt [["agent", "default"]] layers) c.agent.default
  command : ∀ agent, IsText (lastAt [["agent", "commands", agent]] layers)
    (c.agent.command? agent)
  maxAge : IsNumber 86400 (lastAt [["inbox", "max_age_secs"]] layers) c.inbox.maxAgeSeconds.toNat

/-- The paths of settings. -/
inductive IsSetting : List String → Prop
  | preferred : IsSetting ["terminal", "preferred"]
  | preferredTerminal : IsSetting ["terminal", "preferred_terminal"]
  | spawnDelay : IsSetting ["terminal", "spawn_delay_ms"]
  | attempts : IsSetting ["terminal", "max_retry_attempts"]
  | default : IsSetting ["agent", "default"]
  | command (agent : String) : IsSetting ["agent", "commands", agent]
  | maxAge : IsSetting ["inbox", "max_age_secs"]

theorem Tabular.clear (ht : Tabular l) (hp : IsSetting p) : Clear p (.table l) := by
  have hone (g : String) := Toml.clear_one g l
  cases hp with
  | preferred | preferredTerminal | spawnDelay | attempts =>
    exact Toml.clear_concat (hone "terminal") ht.terminal _
  | default => exact Toml.clear_concat (hone "agent") ht.agent _
  | command agent =>
    exact Toml.clear_concat (Toml.clear_concat (hone "agent") ht.agent "commands") ht.commands agent
  | maxAge => exact Toml.clear_concat (hone "inbox") ht.inbox _

/-- A setting that can be read is no table. -/
theorem Reads.leaf (h : Reads l c) (hp : IsSetting p) {v : Toml}
    (hv : at? p (.table l) = some v) : IsLeaf v := by
  cases hp with
  | preferred =>
    have htext := h.preferred
    rw [hv] at htext
    exact htext.leaf
  | preferredTerminal =>
    have htext := h.preferred
    rcases hother : at? ["terminal", "preferred"] (.table l) with - | w
    · rw [hother, hv] at htext
      exact htext.leaf
    · exact absurd ⟨by rw [hother]; rfl, by rw [hv]; rfl⟩ h.oneName
  | spawnDelay => exact Toml.IsNumber.leaf (hv ▸ h.spawnDelay)
  | attempts => exact Toml.IsNumber.leaf (hv ▸ h.attempts)
  | default => exact Toml.IsText.leaf (hv ▸ h.default)
  | command agent => exact Toml.IsText.leaf (hv ▸ h.command agent)
  | maxAge => exact Toml.IsNumber.leaf (hv ▸ h.maxAge)

/-- What the layers say together is what the last of them says. -/
theorem at?_merged_setting (htab : ∀ l ∈ layers, Tabular l)
    (hreads : ∀ l ∈ layers, ∃ c, Reads l c) (hp : IsSetting p) :
    at? p (.table (merged layers)) = lastAt [p] layers := by
  have hclear := fun l hl => (htab l hl).clear hp
  have hleaf : ∀ l ∈ layers, ∀ v, at? p (.table l) = some v → IsLeaf v := fun l hl v hv =>
    let ⟨_, h⟩ := hreads l hl
    h.leaf hp hv
  cases p with
  | nil => cases hp
  | cons k ks => exact at?_merged_eq hclear hleaf

/-- What the settings of the merged layers are, said of the layers. -/
theorem Reads.follows (htab : ∀ l ∈ layers, Tabular l) (hreads : ∀ l ∈ layers, ∃ c, Reads l c)
    (h : Reads (merged layers) c) : ¬ TwoNames layers ∧ Follows layers c := by
  have hat {p : List String} (hp : IsSetting p) := at?_merged_setting htab hreads hp
  have hone : ¬ TwoNames layers := by
    rw [TwoNames, ← lastAt_isSome, ← lastAt_isSome, ← hat .preferred, ← hat .preferredTerminal]
    exact h.oneName
  have hpreferred := h.preferred
  rw [hat .preferred, hat .preferredTerminal, lastAt_or] at hpreferred
  · exact ⟨hone, hpreferred, hat .spawnDelay ▸ h.spawnDelay, hat .attempts ▸ h.attempts,
      hat .default ▸ h.default, fun agent => hat (.command agent) ▸ h.command agent,
      hat .maxAge ▸ h.maxAge⟩
  · exact not_twoNames.mp hone

theorem exists_text {paths : List (List String)}
    (h : ∀ l ∈ layers, ∃ t, IsText (paths.findSome? fun p => at? p (.table l)) t) :
    ∃ t, IsText (lastAt paths layers) t :=
  lastAt_property (Q := fun o => ∃ t, IsText o t) ⟨none, rfl⟩ h

theorem exists_number {α : Type} (toNat : α → Nat) (default : α)
    (h : ∀ l ∈ layers, ∃ a, IsNumber (toNat default) (at? p (.table l)) (toNat a)) :
    ∃ a, IsNumber (toNat default) (lastAt [p] layers) (toNat a) :=
  lastAt_property (Q := fun o => ∃ a, IsNumber (toNat default) o (toNat a)) ⟨default, rfl⟩
    fun l hl => by
      rw [List.findSome?_singleton]
      exact h l hl

/-- Layers that can be read one by one can be read together, unless they use two names. -/
theorem exists_reads_merged (htab : ∀ l ∈ layers, Tabular l)
    (hreads : ∀ l ∈ layers, ∃ c, Reads l c) (hone : ¬ TwoNames layers) :
    ∃ c, ofEntries? (merged layers) = some c := by
  have hat {p : List String} (hp : IsSetting p) := at?_merged_setting htab hreads hp
  have hnames := not_twoNames.mp hone
  refine (tabular_merged htab).exists_reads ?_ ?_ ?_ ?_ ?_ ?_ ?_
  · rw [hat .preferred, hat .preferredTerminal]
    rcases hnames with h | h <;> simp [h]
  · rw [hat .preferred, hat .preferredTerminal, lastAt_or hnames]
    refine exists_text fun l hl => ?_
    obtain ⟨c, h⟩ := hreads l hl
    refine ⟨c.terminal.preferred, ?_⟩
    have hpreferred := h.preferred
    cases hp : at? ["terminal", "preferred"] (.table l) <;> simpa [hp] using hpreferred
  · rw [hat .spawnDelay]
    exact exists_number UInt64.toNat 1000 fun l hl => (hreads l hl).imp' _ fun _ h => h.spawnDelay
  · rw [hat .attempts]
    exact exists_number UInt32.toNat 5 fun l hl => (hreads l hl).imp' _ fun _ h => h.attempts
  · rw [hat .default]
    refine exists_text fun l hl => ?_
    rw [List.findSome?_singleton]
    exact (hreads l hl).imp' _ fun _ h => h.default
  · refine merged_tableAt (fun _ _ => AgentConfig.Textual.overlay) fun l hl => ?_
    obtain ⟨c, h⟩ := hreads l hl
    exact h.textual
  · rw [hat .maxAge]
    exact exists_number UInt64.toNat 86400 fun l hl => (hreads l hl).imp' _ fun _ h => h.maxAge

/-- Zero is no default: a number that is zero was given. -/
theorem isSome_of_zero {d : Nat} (hd : d ≠ 0) {o : Option Toml} (h : IsNumber d o 0) :
    o.isSome := by
  cases o with
  | none => exact absurd h.symm hd
  | some v => rfl

/-- **Later layers win.** Layers that are accepted one by one, with tables for their groups, are
    accepted together, and each setting is what the last layer that sets it says. The one
    exception is the preferred terminal: when it is set under both of its names, also in different
    layers, the layers are refused. -/
theorem later_layers_win {layers : List Entries}
    (hown : ∀ l ∈ layers, ∃ c, ofLayers [l] = .ok c) (htab : ∀ l ∈ layers, Tabular l) :
    (¬ TwoNames layers → ∃ c, ofLayers layers = .ok c ∧ Follows layers c) ∧
      (TwoNames layers → ofLayers layers = .error .invalid) := by
  have hreads : ∀ l ∈ layers, ∃ c, Reads l c := fun l hl =>
    let ⟨c, h⟩ := hown l hl
    ⟨c, (htab l hl).reads_one h⟩
  have hmerged := tabular_merged htab
  constructor
  · intro hone
    obtain ⟨c, hc⟩ := exists_reads_merged htab hreads hone
    have h := hmerged.reads hc
    refine ⟨c, ofLayers_eq_ok.mpr ⟨hc, fun hzero => ?_, fun hzero => ?_⟩,
      (h.follows htab hreads).2⟩
    · have hdelay := h.spawnDelay
      rw [hzero] at hdelay
      exact isSome_of_zero (by decide) hdelay
    · have hattempts := h.attempts
      rw [hzero] at hattempts
      exact isSome_of_zero (by decide) hattempts
  · intro htwo
    rw [ofLayers]
    cases hc : ofEntries? (merged layers) with
    | none => rfl
    | some c => exact absurd htwo ((hmerged.reads hc).follows htab hreads).1

/-- Two layers that name the preferred terminal differently. -/
def kittyThenGhostty : List Entries :=
  [[("terminal", .table [("preferred_terminal", .string "kitty")])],
    [("terminal", .table [("preferred", .string "ghostty")])]]

/-- Each of them is accepted alone, and has tables for its groups, but together they are not. -/
theorem two_names_refused :
    (∀ l ∈ kittyThenGhostty, (∃ c, ofLayers [l] = .ok c) ∧ Tabular l) ∧
      ofLayers kittyThenGhostty = .error .invalid := by
  refine ⟨?_, rfl⟩
  simp only [kittyThenGhostty, List.forall_mem_cons, List.not_mem_nil, false_imp_iff,
    implies_true, and_true]
  refine ⟨⟨⟨{ terminal := { preferred := some "kitty" } }, rfl⟩, ?_⟩,
    ⟨{ terminal := { preferred := some "ghostty" } }, rfl⟩, ?_⟩ <;>
  exact ⟨tableAt_of rfl, tableAt_of rfl, tableAt_of rfl, tableAt_of rfl⟩

/-- Layers of a user, of a project and of an operator. -/
def threeLayers : List Entries :=
  [[("terminal", .table [("preferred_terminal", .string "kitty"), ("spawn_delay_ms", .integer 0)]),
      ("agent", .table [("commands", .table [("codex", .string "codex")])])],
    [("agent", .table [("default", .string "amp"),
      ("commands", .table [("codex", .string "codex --quiet")])])],
    [("terminal", .table [("preferred_terminal", .string "ghostty")]),
      ("agent", .table [("commands", .table [("amp", .string "amp")])]), ("other", .integer 1)]]

theorem later_layers_win_three :
    (∀ l ∈ threeLayers, ∃ c, ofLayers [l] = .ok c) ∧ (∀ l ∈ threeLayers, Tabular l) ∧
      ¬ TwoNames threeLayers ∧ ∃ c, ofLayers threeLayers = .ok c ∧
        c.terminal.preferred = some "ghostty" ∧ c.terminal.spawnDelay.toNat = 0 ∧
        c.terminal.maxRetryAttempts.toNat = 5 ∧ c.agent.default = some "amp" ∧
        c.agent.command? "codex" = some "codex --quiet" ∧ c.agent.command? "amp" = some "amp" ∧
        c.agent.command? "claude" = none ∧ c.inbox.maxAgeSeconds.toNat = 86400 := by
  have hown : ∀ l ∈ threeLayers, ∃ c, ofLayers [l] = .ok c := by
    simp only [threeLayers, List.forall_mem_cons, List.not_mem_nil, false_imp_iff, implies_true,
      and_true]
    exact ⟨⟨⟨⟨some "kitty", 0, 5⟩, ⟨none, [("codex", "codex")]⟩, {}⟩,
        ok_of_toOption (by decide +kernel)⟩,
      ⟨⟨{}, ⟨some "amp", [("codex", "codex --quiet")]⟩, {}⟩, ok_of_toOption (by decide +kernel)⟩,
      ⟨⟨⟨some "ghostty", 1000, 5⟩, ⟨none, [("amp", "amp")]⟩, {}⟩,
        ok_of_toOption (by decide +kernel)⟩⟩
  have htab : ∀ l ∈ threeLayers, Tabular l := by
    simp only [threeLayers, List.forall_mem_cons, List.not_mem_nil, false_imp_iff, implies_true,
      and_true]
    refine ⟨?_, ?_, ?_⟩ <;>
    exact ⟨tableAt_of rfl, tableAt_of rfl, tableAt_of rfl, tableAt_of rfl⟩
  have hone : ¬ TwoNames threeLayers := not_twoNames.mpr (.inl rfl)
  have htext {s : String} {t : Option String} (h : IsText (some (.string s)) t) : t = some s := by
    obtain ⟨s', rfl, h | h⟩ := h <;> cases h
    rfl
  obtain ⟨c, hc, hf⟩ := (later_layers_win hown htab).1 hone
  refine ⟨hown, htab, hone, c, hc, htext hf.preferred, ?_, hf.attempts, htext hf.default,
    htext (hf.command "codex"), htext (hf.command "amp"), hf.command "claude", hf.maxAge⟩
  have hzero := Toml.integer.inj hf.spawnDelay
  omega

/-! ## Zeros -/

/-- The number of a terminal setting goes back to the layers: a zero was written by one of them,
    with nothing after it that says otherwise, and a key that no layer has leaves the default. -/
structure Honest (layers : List Entries) (key : String) (default value : Nat) : Prop where
  zero : value = 0 → ∃ before l after, layers = before ++ l :: after ∧
    at? ["terminal", key] (.table l) = some (.integer 0) ∧
    ∀ l' ∈ after, at? ["terminal", key] (.table l') = none ∧ Clear ["terminal", key] (.table l')
  unset : (∀ l ∈ layers, TableAt (fun t => find? key t = none) ["terminal"] l) → value = default

/-- The numbers of a group of terminal settings that is a table. -/
theorem terminal_numbers (ht : TableAt (fun _ => True) ["terminal"] es)
    (h : ofEntries? es = some c) :
    IsNumber 1000 (at? ["terminal", "spawn_delay_ms"] (.table es)) c.terminal.spawnDelay.toNat ∧
      IsNumber 5 (at? ["terminal", "max_retry_attempts"] (.table es))
        c.terminal.maxRetryAttempts.toNat := by
  have hgroup : Toml.orDefault {} TerminalConfig.ofToml? (find? "terminal" es) =
      TerminalConfig.ofToml? (.table (Toml.group "terminal" es)) :=
    Toml.orDefault_group ht rfl
  have hterminal := (ofEntries?_eq_some.mp h).1
  rw [hgroup, TerminalConfig.ofToml?_table] at hterminal
  rw [← Toml.find?_group, ← Toml.find?_group]
  exact hterminal.2.2

/-- Something stands below a key only where there is a table. -/
theorem tableAt_of_isSome {k k' : String} (h : (at? [k, k'] (.table es)).isSome) :
    TableAt (fun _ => True) [k] es := by
  intro v hv
  rw [Toml.at?_one] at hv
  rw [Toml.at?_cons, hv, Option.bind_some] at h
  rcases Toml.isLeaf_or_table v with hleaf | ⟨t, rfl⟩
  · rw [hleaf.at?_cons] at h
    cases h
  · exact ⟨t, rfl, trivial⟩

theorem at?_zero {key : String} {default value : Nat}
    (hnumber : TableAt (fun _ => True) ["terminal"] es →
      IsNumber default (at? ["terminal", key] (.table es)) value)
    (hset : value = 0 → (at? ["terminal", key] (.table es)).isSome) (hzero : value = 0) :
    at? ["terminal", key] (.table es) = some (.integer 0) := by
  have hsome := hset hzero
  have hvalue := hnumber (tableAt_of_isSome hsome)
  obtain ⟨v, hv⟩ := Option.isSome_iff_exists.mp hsome
  rw [hv, hzero] at hvalue
  rw [hv, show v = .integer 0 from hvalue]

theorem honest {key : String} {default value : Nat}
    (hnumber : TableAt (fun _ => True) ["terminal"] (merged layers) →
      IsNumber default (at? ["terminal", key] (.table (merged layers))) value)
    (hset : value = 0 → (at? ["terminal", key] (.table (merged layers))).isSome) :
    Honest layers key default value where
  zero hzero := at?_merged_leaf rfl (at?_zero hnumber hset hzero)
  unset hunset := by
    have hmerged := merged_tableAt (fun b t hb ht => by rw [Toml.find?_overlay, ht]; exact hb)
      hunset
    have hvalue := hnumber fun v hv => (hmerged v hv).imp fun _ h => ⟨h.1, trivial⟩
    have hnone : at? ["terminal", key] (.table (merged layers)) = none := by
      rw [Toml.at?_cons]
      cases hv : find? "terminal" (merged layers) with
      | none => rfl
      | some v =>
        obtain ⟨t, rfl, ht⟩ := hmerged v (by rw [Toml.at?_one, hv])
        rw [Option.bind_some, Toml.at?_one, ht]
    rw [hnone] at hvalue
    exact hvalue

/-- **No silent zero.** Whatever the layers hold: when the settings are accepted, neither the
    delay nor the number of attempts is zero unless a layer says so, and where no layer says
    anything each is its default. -/
theorem no_silent_zero {layers : List Entries} {c : Config} (h : ofLayers layers = .ok c) :
    Honest layers "spawn_delay_ms" 1000 c.terminal.spawnDelay.toNat ∧
      Honest layers "max_retry_attempts" 5 c.terminal.maxRetryAttempts.toNat := by
  obtain ⟨hc, hdelay, hattempts⟩ := ofLayers_eq_ok.mp h
  exact ⟨honest (fun ht => (terminal_numbers ht hc).1) fun hzero =>
      hdelay (UInt64.toNat_inj.mp hzero),
    honest (fun ht => (terminal_numbers ht hc).2) fun hzero =>
      hattempts (UInt32.toNat_inj.mp hzero)⟩

/-- A group of another shape under the zero, and an empty one over it. -/
def zeroOverArray : List Entries :=
  [[("terminal", .array [.string "kitty", .integer 7])],
    [("terminal", .table [("spawn_delay_ms", .integer 0)])], [("terminal", .table [])]]

theorem no_silent_zero_over_array :
    ofLayers zeroOverArray = .ok { terminal := { spawnDelay := 0 } } ∧
      Honest zeroOverArray "spawn_delay_ms" 1000 0 ∧
      Honest zeroOverArray "max_retry_attempts" 5 5 := by
  have hread : ofLayers zeroOverArray = .ok { terminal := { spawnDelay := 0 } } := rfl
  exact ⟨hread, no_silent_zero hread⟩

end AgentSupervisor.Config
