import AgentSupervisor.Proofs.Overlays
import Mathlib.Data.List.Pairwise

/-!
# Settings of a table

Settings are read group by group. Where the groups are tables, what is read can be said of the
values at the paths of the settings.

* `Reads`                : what the settings of a table are;
* `Tabular.reads`        : they are so wherever settings are read;
* `Tabular.exists_reads` : settings are read when each of them can be.
-/

namespace AgentSupervisor

open Toml (Entries IsLeaf Clear TableAt at? find? text? overlay)

namespace Toml

/-! ## Values of settings -/

/-- The number of a setting: the one that it was given, or its default. -/
def IsNumber (default : Nat) : Option Toml → Nat → Prop
  | none, n => n = default
  | some v, n => v = .integer n

/-- The text of a setting, if it was given one. -/
def IsText : Option Toml → Option String → Prop
  | none, t => t = none
  | some v, t => ∃ s, t = some s ∧ (v = .string s ∨ v = .moment s)

theorem IsNumber.leaf {default n : Nat} {v : Toml} (h : IsNumber default (some v) n) :
    IsLeaf v := by
  rw [show v = .integer n from h]
  rfl

theorem IsText.leaf {t : Option String} {v : Toml} (h : IsText (some v) t) : IsLeaf v := by
  obtain ⟨s, -, rfl | rfl⟩ := h <;> rfl

theorem text?_eq_some {v : Toml} {s : String} :
    text? v = some s ↔ v = .string s ∨ v = .moment s := by
  cases v <;> simp [text?]

theorem natural?_eq_some {bound n : Nat} {v : Toml} :
    natural? bound v = some n ↔ v = .integer n ∧ n < bound := by
  cases v with
  | integer i =>
    simp only [natural?, Option.ite_none_right_eq_some, Option.some.injEq, Toml.integer.injEq]
    omega
  | _ => simp [natural?]

@[simp] theorem orDefault_some {α : Type} (default : α) (read : Toml → Option α) (v : Toml) :
    orDefault default read (some v) = read v := rfl

/-- What holds of a default, and of all that is read from a value, holds of a setting. -/
theorem orDefault_property {α : Type} {P : α → Prop} {default a : α} {read : Toml → Option α}
    {o : Option Toml} (h : orDefault default read o = some a) (hdefault : P default)
    (hread : ∀ v, o = some v → read v = some a → P a) : P a := by
  cases o with
  | none => exact Option.some.inj h ▸ hdefault
  | some v => exact hread v rfl h

theorem orDefault_text (t : Option String) (o : Option Toml) :
    orDefault none (fun v => (text? v).map some) o = some t ↔ IsText o t := by
  cases o with
  | none => exact ⟨fun h => (Option.some.inj h).symm, fun h => congrArg some h.symm⟩
  | some v =>
    simp only [orDefault, IsText, Option.map_eq_some_iff, text?_eq_some]
    exact ⟨fun ⟨s, h, ht⟩ => ⟨s, ht.symm, h⟩, fun ⟨s, ht, h⟩ => ⟨s, h, ht.symm⟩⟩

/-- Numbers of any width: `f` makes one from a natural number below the bound, and `g` gives that
    number back. -/
theorem orDefault_number {α : Type} {f : Nat → α} {g : α → Nat} {bound : Nat}
    (hbound : ∀ a, g a < bound) (hfg : ∀ a, f (g a) = a) (hgf : ∀ n < bound, g (f n) = n)
    (default a : α) (o : Option Toml) :
    orDefault default (fun v => (natural? bound v).map f) o = some a ↔
      IsNumber (g default) o (g a) := by
  cases o with
  | none =>
    simp only [orDefault, IsNumber, Option.some.injEq]
    exact ⟨fun h => h ▸ rfl, fun h => by rw [← hfg default, ← h, hfg]⟩
  | some v =>
    simp only [orDefault, IsNumber, Option.map_eq_some_iff, natural?_eq_some]
    refine ⟨fun ⟨n, ⟨h, hn⟩, ha⟩ => ?_, fun h => ⟨g a, ⟨h, hbound a⟩, hfg a⟩⟩
    rw [← ha, hgf n hn, h]

theorem orDefault_uint64 (default a : UInt64) (o : Option Toml) :
    orDefault default (fun v => (natural? Text.bound64 v).map UInt64.ofNat) o = some a ↔
      IsNumber default.toNat o a.toNat :=
  orDefault_number UInt64.toNat_lt (fun _ => UInt64.ofNat_toNat)
    (fun _ h => UInt64.toNat_ofNat_of_lt' h) default a o

theorem orDefault_uint32 (default a : UInt32) (o : Option Toml) :
    orDefault default (fun v => (natural? Text.bound32 v).map UInt32.ofNat) o = some a ↔
      IsNumber default.toNat o a.toNat :=
  orDefault_number UInt32.toNat_lt (fun _ => UInt32.ofNat_toNat)
    (fun _ h => UInt32.toNat_ofNat_of_lt' h) default a o

theorem setting?_one (k : String) (es : Entries) : setting? [k] es = some (find? k es) := by
  simp only [setting?, List.filterMap_cons, List.filterMap_nil]
  cases find? k es <;> rfl

theorem setting?_two (k k' : String) (es : Entries) :
    setting? [k, k'] es =
      if (find? k es).isSome ∧ (find? k' es).isSome then none
      else some ((find? k es).or (find? k' es)) := by
  simp only [setting?, List.filterMap_cons, List.filterMap_nil]
  cases find? k es <;> cases find? k' es <;> rfl

/-! ## Groups of settings -/

/-- The entries of a group, of which there are none where the group is missing. -/
def group (g : String) (es : Entries) : Entries := under (find? g es)

theorem at?_one (k : String) (es : Entries) : at? [k] (.table es) = find? k es := by
  rw [at?_cons]
  cases find? k es <;> rfl

theorem at?_group (g k : String) (ks : List String) (es : Entries) :
    at? (k :: ks) (.table (group g es)) = at? (g :: k :: ks) (.table es) := at?_under _ k ks

theorem find?_group (g k : String) (es : Entries) :
    find? k (group g es) = at? [g, k] (.table es) := by
  rw [← at?_one, at?_group]

/-- A group that is a table, if it is there at all, is read from its entries. -/
theorem orDefault_group {α : Type} {default : α} {read : Toml → Option α} {g : String}
    {es : Entries} (h : TableAt (fun _ => True) [g] es)
    (hdefault : read (.table []) = some default) :
    orDefault default read (find? g es) = read (.table (group g es)) := by
  rw [group]
  cases hg : find? g es with
  | none => exact hdefault.symm
  | some v =>
    obtain ⟨t, rfl, -⟩ := h v (by rw [at?_cons, hg]; rfl)
    rfl

end Toml

open Toml (IsNumber IsText group group? setting?)

theorem TerminalConfig.ofToml?_group {v : Toml} {preferred delay attempts : Option Toml}
    {c : TerminalConfig} (h : group? names v = some [preferred, delay, attempts]) :
    TerminalConfig.ofToml? v = some c ↔ IsText preferred c.preferred ∧
      IsNumber 1000 delay c.spawnDelay.toNat ∧ IsNumber 5 attempts c.maxRetryAttempts.toNat := by
  have hdelay := Toml.orDefault_uint64 1000 c.spawnDelay delay
  have hattempts := Toml.orDefault_uint32 5 c.maxRetryAttempts attempts
  rw [ofToml?, h, ← Toml.orDefault_text]
  refine Iff.trans ?_ (and_congr_right fun _ => and_congr hdelay hattempts)
  obtain ⟨text, milliseconds, count⟩ := c
  simp [Option.bind_eq_some_iff]

theorem TerminalConfig.ofToml?_table {t : Entries} {c : TerminalConfig} :
    TerminalConfig.ofToml? (.table t) = some c ↔
      ¬ ((find? "preferred" t).isSome ∧ (find? "preferred_terminal" t).isSome) ∧
      IsText ((find? "preferred" t).or (find? "preferred_terminal" t)) c.preferred ∧
      IsNumber 1000 (find? "spawn_delay_ms" t) c.spawnDelay.toNat ∧
      IsNumber 5 (find? "max_retry_attempts" t) c.maxRetryAttempts.toNat := by
  have hgroup : group? names (.table t) =
      (setting? ["preferred", "preferred_terminal"] t).map fun o =>
        [o, find? "spawn_delay_ms" t, find? "max_retry_attempts" t] := by
    simp only [group?, names, List.mapM_cons, List.mapM_nil, Toml.setting?_one]
    cases setting? ["preferred", "preferred_terminal"] t <;> rfl
  rw [Toml.setting?_two] at hgroup
  split at hgroup
  · rename_i h
    rw [ofToml?, hgroup]
    exact iff_of_false nofun fun hread => hread.1 h
  · rename_i h
    rw [ofToml?_group hgroup]
    exact (and_iff_right h).symm

/-- In an array the settings have places in the place of keys. -/
theorem TerminalConfig.ofToml?_array {vs : List Toml} {c : TerminalConfig} :
    TerminalConfig.ofToml? (.array vs) = some c ↔ vs.length ≤ 3 ∧ IsText vs[0]? c.preferred ∧
      IsNumber 1000 vs[1]? c.spawnDelay.toNat ∧
      IsNumber 5 vs[2]? c.maxRetryAttempts.toNat := by
  by_cases hlen : vs.length ≤ 3
  · have hgroup : group? names (.array vs) = some [vs[0]?, vs[1]?, vs[2]?] := by
      refine (if_pos hlen).trans ?_
      match vs with
      | [] | [_] | [_, _] | [_, _, _] => rfl
    rw [ofToml?_group hgroup]
    exact (and_iff_right hlen).symm
  · have hgroup : group? names (.array vs) = none := by
      rw [group?]
      exact if_neg hlen
    rw [ofToml?, hgroup]
    exact iff_of_false nofun fun hread => hlen hread.1

theorem AgentConfig.ofToml?_table {t : Entries} {c : AgentConfig} :
    AgentConfig.ofToml? (.table t) = some c ↔
      IsText (find? "default" t) c.default ∧
      Toml.orDefault [] commandsOfToml? (find? "commands" t) = some c.commands := by
  have hgroup : group? names (.table t) = some [find? "default" t, find? "commands" t] := by
    simp only [group?, names, List.mapM_cons, List.mapM_nil, Toml.setting?_one]
    rfl
  rw [ofToml?, hgroup, ← Toml.orDefault_text]
  obtain ⟨default, commands⟩ := c
  simp [Option.bind_eq_some_iff]

theorem InboxConfig.ofToml?_table {t : Entries} {c : InboxConfig} :
    InboxConfig.ofToml? (.table t) = some c ↔
      IsNumber 86400 (find? "max_age_secs" t) c.maxAgeSeconds.toNat := by
  have hgroup : group? names (.table t) = some [find? "max_age_secs" t] := by
    simp only [group?, names, List.mapM_cons, List.mapM_nil, Toml.setting?_one]
    rfl
  have hage := Toml.orDefault_uint64 86400 c.maxAgeSeconds (find? "max_age_secs" t)
  rw [ofToml?, hgroup]
  refine Iff.trans ?_ hage
  obtain ⟨age⟩ := c
  simp [Option.bind_eq_some_iff]

namespace AgentConfig

/-! ## Commands -/

/-- The first entry of a key is the first of those that are left when the others are dropped. -/
theorem lookup_eq_filter (cs : List (String × String)) (agent : String) :
    cs.lookup agent = ((cs.filter fun c => c.1 == agent).head?).map Prod.snd := by
  induction cs with
  | nil => rfl
  | cons c cs ih =>
    obtain ⟨k, s⟩ := c
    by_cases h : k = agent
    · simp [h]
    · have hne : (agent == k) = false := beq_false_of_ne (Ne.symm h)
      simp [List.lookup_cons, h, hne, ih]

/-- Sorting is stable, so the first command of an agent stays the first. -/
theorem lookup_sortCommands (cs : List (String × String)) (agent : String) :
    (sortCommands cs).lookup agent = cs.lookup agent := by
  have hsub : (cs.filter fun c => c.1 == agent).Sublist (sortCommands cs) := by
    refine List.sublist_mergeSort (fun a b c hab hbc => ?_) (fun a b => ?_) ?_ List.filter_sublist
    · simp only [decide_eq_true_eq] at hab hbc ⊢
      exact String.le_trans hab hbc
    · simpa using String.le_total a.1 b.1
    · refine List.pairwise_of_forall_mem_list fun a ha b hb => ?_
      rw [List.mem_filter, beq_iff_eq] at ha hb
      simp [ha.2, hb.2]
  have hperm : (sortCommands cs).Perm cs := List.mergeSort_perm ..
  have hlength := (hperm.filter fun c => c.1 == agent).length_eq
  have hfilter := hsub.filter fun c => c.1 == agent
  rw [List.filter_filter] at hfilter
  simp only [Bool.and_self] at hfilter
  rw [lookup_eq_filter, lookup_eq_filter, hfilter.eq_of_length hlength.symm]

/-- All entries are texts. -/
def Textual (es : Entries) : Prop := ∀ e ∈ es, (text? e.2).isSome

theorem Textual.overlay {base top : Entries} (hb : Textual base) (ht : Textual top) :
    Textual (overlay base top) := by
  intro e he
  rcases Toml.mem_overlay he with he | ⟨v, hv, heq⟩
  · exact hb e he
  · have htext := ht _ hv
    obtain ⟨s, hs⟩ := Option.isSome_iff_exists.mp htext
    have hleaf : IsLeaf v := by
      rcases Toml.text?_eq_some.mp hs with rfl | rfl <;> rfl
    rw [heq, hleaf.onto]
    exact htext

theorem commandsOfToml?_isSome {es : Entries} :
    (commandsOfToml? (.table es)).isSome ↔ Textual es := by
  rw [commandsOfToml?, Option.isSome_map]
  induction es with
  | nil => exact iff_of_true rfl (by simp [Textual])
  | cons e es ih =>
    rw [List.mapM_cons]
    cases he : text? e.2 with
    | none => simp [Textual, he]
    | some s =>
      simp only [Option.map_some, Option.bind_eq_bind, Option.bind_some, Option.pure_def,
        Textual, List.forall_mem_cons, he, Option.isSome_some, true_and]
      rw [← Textual, ← ih]
      cases es.mapM fun e => (text? e.2).map fun t => (e.1, t) <;> simp

theorem lookup_commandsOfToml? {es : Entries} {cs : List (String × String)}
    (h : commandsOfToml? (.table es) = some cs) (agent : String) :
    IsText (find? agent es) (cs.lookup agent) := by
  rw [commandsOfToml?, Option.map_eq_some_iff] at h
  obtain ⟨cs, h, rfl⟩ := h
  rw [lookup_sortCommands]
  induction es generalizing cs with
  | nil =>
    obtain rfl : [] = cs := Option.some.inj h
    rfl
  | cons e es ih =>
    simp only [List.mapM_cons, Option.bind_eq_bind, Option.bind_eq_some_iff, Option.pure_def,
      Option.map_eq_some_iff, Option.some.injEq] at h
    obtain ⟨c, ⟨s, hs, rfl⟩, rest, hrest, rfl⟩ := h
    rw [find?, List.lookup_cons]
    by_cases heq : e.1 = agent
    · rw [if_pos heq, heq, beq_self_eq_true]
      exact ⟨s, rfl, Toml.text?_eq_some.mp hs⟩
    · rw [if_neg heq, beq_false_of_ne (Ne.symm heq)]
      exact ih rest hrest

end AgentConfig

namespace Config

/-! ## All settings -/

/-- The groups are tables where they are there at all. -/
structure Tabular (es : Entries) : Prop where
  terminal : TableAt (fun _ => True) ["terminal"] es
  agent : TableAt (fun _ => True) ["agent"] es
  commands : TableAt (fun _ => True) ["agent", "commands"] es
  inbox : TableAt (fun _ => True) ["inbox"] es

theorem tableAt_of {es : Entries} {p : List String}
    (h : (at? p (.table es)).all fun v => (Toml.entries? v).isSome) :
    TableAt (fun _ => True) p es := by
  intro v hv
  rw [hv] at h
  cases v with
  | table t => exact ⟨t, rfl, trivial⟩
  | _ => cases h

/-- What the settings of a table are. -/
structure Reads (es : Entries) (c : Config) : Prop where
  /-- the preferred terminal has one name -/
  oneName : ¬ ((at? ["terminal", "preferred"] (.table es)).isSome ∧
    (at? ["terminal", "preferred_terminal"] (.table es)).isSome)
  preferred : IsText ((at? ["terminal", "preferred"] (.table es)).or
    (at? ["terminal", "preferred_terminal"] (.table es))) c.terminal.preferred
  spawnDelay : IsNumber 1000 (at? ["terminal", "spawn_delay_ms"] (.table es))
    c.terminal.spawnDelay.toNat
  attempts : IsNumber 5 (at? ["terminal", "max_retry_attempts"] (.table es))
    c.terminal.maxRetryAttempts.toNat
  default : IsText (at? ["agent", "default"] (.table es)) c.agent.default
  textual : TableAt AgentConfig.Textual ["agent", "commands"] es
  command : ∀ agent, IsText (at? ["agent", "commands", agent] (.table es))
    (c.agent.command? agent)
  maxAge : IsNumber 86400 (at? ["inbox", "max_age_secs"] (.table es))
    c.inbox.maxAgeSeconds.toNat

variable {es : Entries} {c : Config} {layers : List Entries} {l : Entries} {p : List String}

/-- Settings are read group by group. -/
theorem ofEntries?_eq_some :
    ofEntries? es = some c ↔
      Toml.orDefault {} TerminalConfig.ofToml? (find? "terminal" es) = some c.terminal ∧
      Toml.orDefault {} AgentConfig.ofToml? (find? "agent" es) = some c.agent ∧
      Toml.orDefault {} InboxConfig.ofToml? (find? "inbox" es) = some c.inbox := by
  obtain ⟨terminal, agent, inbox⟩ := c
  simp [ofEntries?, Option.bind_eq_some_iff]

theorem ofEntries?_tabular (ht : Tabular es) :
    ofEntries? es = some c ↔
      TerminalConfig.ofToml? (.table (group "terminal" es)) = some c.terminal ∧
      AgentConfig.ofToml? (.table (group "agent" es)) = some c.agent ∧
      InboxConfig.ofToml? (.table (group "inbox" es)) = some c.inbox := by
  have hterminal : Toml.orDefault {} TerminalConfig.ofToml? (find? "terminal" es) =
      TerminalConfig.ofToml? (.table (group "terminal" es)) := Toml.orDefault_group ht.terminal rfl
  have hagent : Toml.orDefault {} AgentConfig.ofToml? (find? "agent" es) =
      AgentConfig.ofToml? (.table (group "agent" es)) := Toml.orDefault_group ht.agent rfl
  have hinbox : Toml.orDefault {} InboxConfig.ofToml? (find? "inbox" es) =
      InboxConfig.ofToml? (.table (group "inbox" es)) := Toml.orDefault_group ht.inbox rfl
  rw [ofEntries?_eq_some, hterminal, hagent, hinbox]

theorem Tabular.orDefault_commands (ht : Tabular es) :
    Toml.orDefault [] AgentConfig.commandsOfToml? (find? "commands" (group "agent" es)) =
      AgentConfig.commandsOfToml? (.table (group "commands" (group "agent" es))) := by
  refine Toml.orDefault_group (fun v hv => ht.commands v ?_)
    (by simp [AgentConfig.commandsOfToml?, AgentConfig.sortCommands])
  rw [← hv, Toml.at?_group]

theorem find?_command (agent : String) (es : Entries) :
    find? agent (group "commands" (group "agent" es)) =
      at? ["agent", "commands", agent] (.table es) := by
  rw [Toml.find?_group, Toml.at?_group]

/-- **What is read from a table.** -/
theorem Tabular.reads (ht : Tabular es) (h : ofEntries? es = some c) : Reads es c := by
  obtain ⟨hterminal, hagent, hinbox⟩ := (ofEntries?_tabular ht).mp h
  rw [TerminalConfig.ofToml?_table] at hterminal
  rw [AgentConfig.ofToml?_table, ht.orDefault_commands] at hagent
  rw [InboxConfig.ofToml?_table] at hinbox
  simp only [Toml.find?_group] at hterminal hagent hinbox
  obtain ⟨honeName, hpreferred, hdelay, hattempts⟩ := hterminal
  obtain ⟨hdefault, hcommands⟩ := hagent
  refine ⟨honeName, hpreferred, hdelay, hattempts, hdefault, fun v hv => ?_, fun agent => ?_,
    hinbox⟩
  · obtain ⟨t, rfl, -⟩ := ht.commands v hv
    refine ⟨t, rfl, AgentConfig.commandsOfToml?_isSome.mp ?_⟩
    have hgroup : group "commands" (group "agent" es) = t := by
      rw [group, Toml.find?_group, hv]
      rfl
    rw [← hgroup, hcommands]
    rfl
  · rw [← find?_command]
    exact AgentConfig.lookup_commandsOfToml? hcommands agent

/-- **Settings are read from a table** when each of them can be read. -/
theorem Tabular.exists_reads (ht : Tabular es)
    (honeName : ¬ ((at? ["terminal", "preferred"] (.table es)).isSome ∧
      (at? ["terminal", "preferred_terminal"] (.table es)).isSome))
    (hpreferred : ∃ t, IsText ((at? ["terminal", "preferred"] (.table es)).or
      (at? ["terminal", "preferred_terminal"] (.table es))) t)
    (hdelay : ∃ n : UInt64,
      IsNumber 1000 (at? ["terminal", "spawn_delay_ms"] (.table es)) n.toNat)
    (hattempts : ∃ n : UInt32,
      IsNumber 5 (at? ["terminal", "max_retry_attempts"] (.table es)) n.toNat)
    (hdefault : ∃ t, IsText (at? ["agent", "default"] (.table es)) t)
    (htextual : TableAt AgentConfig.Textual ["agent", "commands"] es)
    (hage : ∃ n : UInt64, IsNumber 86400 (at? ["inbox", "max_age_secs"] (.table es)) n.toNat) :
    ∃ c, ofEntries? es = some c := by
  obtain ⟨preferred, hpreferred⟩ := hpreferred
  obtain ⟨delay, hdelay⟩ := hdelay
  obtain ⟨attempts, hattempts⟩ := hattempts
  obtain ⟨default, hdefault⟩ := hdefault
  obtain ⟨age, hage⟩ := hage
  have htexts : AgentConfig.Textual (group "commands" (group "agent" es)) := by
    rw [group, Toml.find?_group]
    cases hcs : at? ["agent", "commands"] (.table es) with
    | none => intro e he; cases he
    | some v =>
      obtain ⟨t, rfl, ht⟩ := htextual v hcs
      exact ht
  obtain ⟨commands, hcommands⟩ :=
    Option.isSome_iff_exists.mp (AgentConfig.commandsOfToml?_isSome.mpr htexts)
  refine ⟨⟨⟨preferred, delay, attempts⟩, ⟨default, commands⟩, ⟨age⟩⟩,
    (ofEntries?_tabular ht).mpr ⟨?_, ?_, ?_⟩⟩
  · rw [TerminalConfig.ofToml?_table]
    simp only [Toml.find?_group]
    exact ⟨honeName, hpreferred, hdelay, hattempts⟩
  · rw [AgentConfig.ofToml?_table, ht.orDefault_commands]
    simp only [Toml.find?_group]
    exact ⟨hdefault, hcommands⟩
  · rw [InboxConfig.ofToml?_table]
    simp only [Toml.find?_group]
    exact hage

/-! ## Rows of layers -/

theorem ok_of_toOption {r : Except ConfigError Config} (h : r.toOption = some c) : r = .ok c := by
  cases r with
  | error e => cases h
  | ok d => exact congrArg Except.ok (Option.some.inj h)

theorem isSet_eq (k : String) (es : Entries) :
    isSet k es = (at? ["terminal", k] (.table es)).isSome := by
  rw [isSet, Toml.at?_cons]
  rcases find? "terminal" es with - | v
  · rfl
  · rcases Toml.isLeaf_or_table v with hleaf | ⟨t, rfl⟩
    · rw [Option.bind_some, hleaf.at?_cons]
      cases v <;> first | rfl | cases hleaf
    · rw [Option.bind_some, Toml.at?_one]

theorem ofLayers_eq_ok :
    ofLayers layers = .ok c ↔ ofEntries? (merged layers) = some c ∧
      (c.terminal.spawnDelay = 0 →
        (at? ["terminal", "spawn_delay_ms"] (.table (merged layers))).isSome) ∧
      (c.terminal.maxRetryAttempts = 0 →
        (at? ["terminal", "max_retry_attempts"] (.table (merged layers))).isSome) := by
  rw [ofLayers, ← isSet_eq, ← isSet_eq]
  rcases ofEntries? (merged layers) with - | d
  · simp
  · simp only [checkZeros, Bool.not_eq_true', Option.some.injEq]
    split
    · rename_i h
      refine iff_of_false nofun ?_
      rintro ⟨rfl, hdelay, -⟩
      simp [hdelay h.1] at h
    · split
      · rename_i h
        refine iff_of_false nofun ?_
        rintro ⟨rfl, -, hattempts⟩
        simp [hattempts h.1] at h
      · rename_i hdelay hattempts
        rw [Except.ok.injEq]
        refine ⟨?_, fun h => h.1⟩
        rintro rfl
        exact ⟨rfl, by simpa using hdelay, by simpa using hattempts⟩

/-- One layer is read as it is. -/
theorem ofEntries?_merged_one (l : Entries) : ofEntries? (merged [l]) = ofEntries? l := by
  have hmerged : merged [l] = overlay [] l := rfl
  simp only [hmerged, ofEntries?, Toml.find?_overlay_nil]

end Config

end AgentSupervisor
