import AgentSupervisor.Proofs.LayeredSettings

/-!
# Zeros that are refused

A number that is zero is refused where its key is missing, as one that nobody wrote. An array has
no keys, so that a zero which was written there is refused as well.

* `at?_merged_iff`             : a value that is no table is there when some layer put it there;
* `find?_merged_leaf`          : a group that is no table is that of the last layer that has it;
* `ofLayers_eq_defaultMissing` : when a number is refused as one that nobody wrote;
* `refused_zeros`              : what is refused are the zeros in arrays, and no others.
-/

namespace AgentSupervisor.Config

open Toml (Entries IsLeaf IsNumber Clear TableAt at? find? overlay)

variable {es : Entries} {c : Config} {layers : List Entries} {k field : String} {v : Toml}

/-! ## Where a value comes from -/

/-- The last layer that says anything of a path has a value there. -/
def Writes (layers : List Entries) (p : List String) (v : Toml) : Prop :=
  ∃ before l after, layers = before ++ l :: after ∧ at? p (.table l) = some v ∧
    ∀ l' ∈ after, at? p (.table l') = none ∧ Clear p (.table l')

/-- **A value that is no table** stands at a path exactly when the layers write it there. -/
theorem at?_merged_iff {p : List String} (hv : IsLeaf v) :
    at? p (.table (merged layers)) = some v ↔ Writes layers p v := by
  refine ⟨at?_merged_leaf hv, ?_⟩
  rintro ⟨before, l, after, rfl, hl, hafter⟩
  -- the layers after `l` are put on top one by one, and say nothing of the path
  induction after using List.reverseRecOn with
  | nil =>
    rw [merged_concat]
    exact Toml.at?_overlay_top hv hl
  | append_singleton after l' ih =>
    obtain ⟨hnone, hclear⟩ := hafter l' (by simp)
    rw [← List.cons_append, ← List.append_assoc, merged_concat,
      Toml.at?_overlay_of_clear hnone hclear]
    exact ih fun l'' hl'' => hafter l'' (List.mem_append_left _ hl'')

/-- A group that is no table is that of the last layer that has the group. -/
theorem find?_merged_leaf (hv : IsLeaf v) :
    find? k (merged layers) = some v ↔ lastAt [[k]] layers = some v := by
  induction layers using List.reverseRecOn with
  | nil => exact Iff.rfl
  | append_singleton layers l ih =>
    rw [merged_concat, lastAt_concat, Toml.find?_overlay, List.findSome?_singleton, Toml.at?_one]
    cases find? k l with
    | none => exact ih
    | some w => simp [Toml.onto_eq_leaf hv]

/-! ## Terminal settings in an array -/

theorem terminal_cases (hc : ofEntries? es = some c) :
    TableAt (fun _ => True) ["terminal"] es ∨ ∃ vs, find? "terminal" es = some (.array vs) := by
  have hterminal := (ofEntries?_eq_some.mp hc).1
  cases hv : find? "terminal" es with
  | none =>
    refine .inl fun v h => ?_
    rw [Toml.at?_one, hv] at h
    cases h
  | some v =>
    rw [hv, Toml.orDefault_some] at hterminal
    cases v with
    | array vs => exact .inr ⟨vs, rfl⟩
    | table t =>
      refine .inl fun v h => ?_
      rw [Toml.at?_one, hv] at h
      cases h
      exact ⟨t, rfl, trivial⟩
    | _ => cases hterminal

theorem terminal_array {vs : List Toml} (hc : ofEntries? es = some c)
    (hv : find? "terminal" es = some (.array vs)) :
    IsNumber 1000 vs[1]? c.terminal.spawnDelay.toNat ∧
      IsNumber 5 vs[2]? c.terminal.maxRetryAttempts.toNat := by
  have hterminal := (ofEntries?_eq_some.mp hc).1
  rw [hv, Toml.orDefault_some, TerminalConfig.ofToml?_array] at hterminal
  exact hterminal.2.2

theorem isNumber_zero {d : Nat} (hd : d ≠ 0) {o : Option Toml} :
    IsNumber d o 0 ↔ o = some (.integer 0) := by
  cases o with
  | none => exact iff_of_false (fun h => hd h.symm) nofun
  | some v => exact (Option.some.injEq _ _).symm.to_iff

/-- A zero has no key exactly when it stands in an array. -/
theorem unkeyed_iff {d n i : Nat} {key : String} (hd : d ≠ 0) (hc : ofEntries? es = some c)
    (htable : TableAt (fun _ => True) ["terminal"] es →
      IsNumber d (at? ["terminal", key] (.table es)) n)
    (harray : ∀ vs, find? "terminal" es = some (.array vs) → IsNumber d vs[i]? n) :
    n = 0 ∧ at? ["terminal", key] (.table es) = none ↔
      ∃ vs, find? "terminal" es = some (.array vs) ∧ vs[i]? = some (.integer 0) := by
  constructor
  · rintro ⟨rfl, hnone⟩
    rcases terminal_cases hc with ht | ⟨vs, hvs⟩
    · have hzero := (isNumber_zero hd).mp (htable ht)
      rw [hnone] at hzero
      cases hzero
    · exact ⟨vs, hvs, (isNumber_zero hd).mp (harray vs hvs)⟩
  · rintro ⟨vs, hvs, hi⟩
    have hn := harray vs hvs
    rw [hi] at hn
    obtain rfl : n = 0 := by simpa [IsNumber, eq_comm] using hn
    refine ⟨rfl, ?_⟩
    rw [Toml.at?_cons, hvs]
    rfl

/-- The number that is refused in an array is the first one that is zero. -/
inductive ZeroIn (vs : List Toml) : String → Prop
  | delay (h : vs[1]? = some (.integer 0)) : ZeroIn vs "terminal.spawn_delay_ms"
  | attempts (hdelay : vs[1]? ≠ some (.integer 0)) (h : vs[2]? = some (.integer 0)) :
      ZeroIn vs "terminal.max_retry_attempts"

/-! ## Refused and accepted -/

theorem ofLayers_eq_defaultMissing :
    ofLayers layers = .error (.defaultMissing field) ↔ ∃ c, ofEntries? (merged layers) = some c ∧
      ((c.terminal.spawnDelay.toNat = 0 ∧
          at? ["terminal", "spawn_delay_ms"] (.table (merged layers)) = none) ∧
        field = "terminal.spawn_delay_ms" ∨
      ¬ (c.terminal.spawnDelay.toNat = 0 ∧
          at? ["terminal", "spawn_delay_ms"] (.table (merged layers)) = none) ∧
        (c.terminal.maxRetryAttempts.toNat = 0 ∧
          at? ["terminal", "max_retry_attempts"] (.table (merged layers)) = none) ∧
        field = "terminal.max_retry_attempts") := by
  have hset (key : String) : (!isSet key (merged layers)) = true ↔
      at? ["terminal", key] (.table (merged layers)) = none := by
    rw [isSet_eq]
    simp
  have hdelay (n : UInt64) : n = 0 ↔ n.toNat = 0 := UInt64.toNat_inj.symm
  have hattempts (n : UInt32) : n = 0 ↔ n.toNat = 0 := UInt32.toNat_inj.symm
  rw [ofLayers]
  cases ofEntries? (merged layers) with
  | none => simp
  | some c =>
    have herror (a : String) : (Except.error (.defaultMissing a) : Except ConfigError Config) =
        .error (.defaultMissing field) ↔ field = a := by simp [eq_comm]
    simp only [checkZeros, hset, hdelay, hattempts, Option.some.injEq, exists_eq_left']
    split
    · rename_i h
      simp [h, herror]
    · rename_i h
      split
      · rename_i h'
        simp [h, h', herror]
      · rename_i h'
        simp [h, h']

/-- The settings can be read, and the last layer with terminal settings has them in an array with
    a zero. -/
structure Refuses (layers : List Entries) (field : String) : Prop where
  readable : ∃ c, ofEntries? (merged layers) = some c
  zero : ∃ vs, lastAt [["terminal"]] layers = some (.array vs) ∧ ZeroIn vs field

theorem ofLayers_refuses :
    ofLayers layers = .error (.defaultMissing field) ↔ Refuses layers field := by
  have hleaf (vs : List Toml) : find? "terminal" (merged layers) = some (.array vs) ↔
      lastAt [["terminal"]] layers = some (.array vs) := find?_merged_leaf rfl
  have hzero {c : Config} (hc : ofEntries? (merged layers) = some c) :=
    And.intro
      (unkeyed_iff (by decide) hc (fun ht => (terminal_numbers ht hc).1)
        fun vs hvs => (terminal_array hc hvs).1)
      (unkeyed_iff (by decide) hc (fun ht => (terminal_numbers ht hc).2)
        fun vs hvs => (terminal_array hc hvs).2)
  rw [ofLayers_eq_defaultMissing]
  constructor
  · rintro ⟨c, hc, ⟨hdelay, rfl⟩ | ⟨hdelay, hattempts, rfl⟩⟩
    · obtain ⟨vs, hvs, h⟩ := (hzero hc).1.mp hdelay
      exact ⟨⟨c, hc⟩, vs, (hleaf vs).mp hvs, .delay h⟩
    · obtain ⟨vs, hvs, h⟩ := (hzero hc).2.mp hattempts
      exact ⟨⟨c, hc⟩, vs, (hleaf vs).mp hvs,
        .attempts (fun h' => hdelay ((hzero hc).1.mpr ⟨vs, hvs, h'⟩)) h⟩
  · rintro ⟨⟨c, hc⟩, vs, hvs, hin⟩
    rw [← hleaf] at hvs
    refine ⟨c, hc, ?_⟩
    cases hin with
    | delay h => exact .inl ⟨(hzero hc).1.mpr ⟨vs, hvs, h⟩, rfl⟩
    | attempts hdelay h =>
      refine .inr ⟨fun h' => ?_, (hzero hc).2.mpr ⟨vs, hvs, h⟩, rfl⟩
      obtain ⟨vs', hvs', h'⟩ := (hzero hc).1.mp h'
      cases hvs.symm.trans hvs'
      exact hdelay h'

theorem error_of_ofLayers {e : ConfigError} (h : ofLayers layers = .error e) :
    ofEntries? (merged layers) = none ∨ ∃ field, e = .defaultMissing field := by
  rw [ofLayers] at h
  cases hc : ofEntries? (merged layers) with
  | none => exact .inl rfl
  | some c =>
    rw [hc] at h
    simp only [checkZeros] at h
    split at h
    · cases h
      exact .inr ⟨_, rfl⟩
    · split at h
      · cases h
        exact .inr ⟨_, rfl⟩
      · cases h

theorem zero_iff_writes {d n : Nat} {key : String}
    (hnumber : TableAt (fun _ => True) ["terminal"] (merged layers) →
      IsNumber d (at? ["terminal", key] (.table (merged layers))) n)
    (hset : n = 0 → (at? ["terminal", key] (.table (merged layers))).isSome) :
    n = 0 ↔ Writes layers ["terminal", key] (.integer 0) := by
  have hleaf : IsLeaf (.integer 0) := rfl
  rw [← at?_merged_iff hleaf]
  refine ⟨at?_zero hnumber hset, fun hat => ?_⟩
  have hsome : (at? ["terminal", key] (.table (merged layers))).isSome := by rw [hat]; rfl
  have hn := hnumber (tableAt_of_isSome hsome)
  rw [hat] at hn
  simpa [IsNumber, eq_comm] using hn

/-- **Which zeros are refused.** Layers are refused for a number that is missing exactly when their
    settings can be read and the last terminal settings are an array with a zero, and so is a
    document. All other settings that can be read are accepted, and a number of theirs is zero
    exactly when the last layer that says anything of its key says so. -/
theorem refused_zeros (layers : List Entries) (s : String) :
    (∀ field, ofLayers layers = .error (.defaultMissing field) ↔ Refuses layers field) ∧
    (∀ c, ofEntries? (merged layers) = some c → (∀ field, ¬ Refuses layers field) →
      ofLayers layers = .ok c) ∧
    (∀ c, ofLayers layers = .ok c →
      (c.terminal.spawnDelay.toNat = 0 ↔
        Writes layers ["terminal", "spawn_delay_ms"] (.integer 0)) ∧
      (c.terminal.maxRetryAttempts.toNat = 0 ↔
        Writes layers ["terminal", "max_retry_attempts"] (.integer 0))) ∧
    ∀ field, ofString s = .error (.defaultMissing field) ↔
      ∃ es, Toml.ofString? s = some es ∧ Refuses [es] field := by
  refine ⟨fun field => ofLayers_refuses, fun c hc hno => ?_, fun c hok => ?_, fun field => ?_⟩
  · cases h : ofLayers layers with
    | ok c' =>
      have hc' := (ofLayers_eq_ok.mp h).1
      rw [Option.some.inj (hc.symm.trans hc')]
    | error e =>
      rcases error_of_ofLayers h with hnone | ⟨field, rfl⟩
      · cases hc.symm.trans hnone
      · exact absurd (ofLayers_refuses.mp h) (hno field)
  · obtain ⟨hc, hdelay, hattempts⟩ := ofLayers_eq_ok.mp hok
    exact ⟨zero_iff_writes (fun ht => (terminal_numbers ht hc).1)
        fun hzero => hdelay (UInt64.toNat_inj.mp hzero),
      zero_iff_writes (fun ht => (terminal_numbers ht hc).2)
        fun hzero => hattempts (UInt32.toNat_inj.mp hzero)⟩
  · rw [ofString]
    cases Toml.ofString? s with
    | none => simp
    | some es => simp [ofLayers_refuses]

/-- Terminal settings in an array. -/
def unkeyed : Entries := [("terminal", .array [.string "ghostty", .integer 0])]

/-- The same settings in a table. -/
def keyed : Entries :=
  [("terminal", .table [("preferred", .string "ghostty"), ("spawn_delay_ms", .integer 0)])]

/-- What they say. -/
def prompt : Config := { terminal := { preferred := some "ghostty", spawnDelay := 0 } }

/-- A zero is refused in the array and not in the table. -/
theorem refused_zeros_unkeyed :
    ofLayers [unkeyed] = .error (.defaultMissing "terminal.spawn_delay_ms") ∧
      ofLayers [keyed] = .ok prompt ∧ ofLayers [unkeyed, keyed] = .ok prompt ∧
      Writes [unkeyed, keyed] ["terminal", "spawn_delay_ms"] (.integer 0) := by
  have hunkeyed : ofEntries? (merged [unkeyed]) = some prompt := by decide +kernel
  have hkeyed : ofEntries? (merged [keyed]) = some prompt := by decide +kernel
  have hboth : ofEntries? (merged [unkeyed, keyed]) = some prompt := by decide +kernel
  have hno (field : String) : ¬ Refuses [keyed] field := by
    rintro ⟨-, vs, hvs, -⟩
    cases hvs
  have hno' (field : String) : ¬ Refuses [unkeyed, keyed] field := by
    rintro ⟨-, vs, hvs, -⟩
    cases hvs
  obtain ⟨hrefused, -⟩ := refused_zeros [unkeyed] ""
  obtain ⟨-, haccepted, -⟩ := refused_zeros [keyed] ""
  obtain ⟨-, haccepted', hzero, -⟩ := refused_zeros [unkeyed, keyed] ""
  have hok := haccepted' _ hboth hno'
  exact ⟨(hrefused _).mpr ⟨⟨_, hunkeyed⟩, _, rfl, .delay rfl⟩, haccepted _ hkeyed hno, hok,
    (hzero _ hok).1.mp (by decide +kernel)⟩

/-- A zero that the user wrote is refused as one that nobody wrote. -/
theorem zero_in_array_refused :
    ofString "terminal = ['ghostty', 0]\n" =
      .error (.defaultMissing "terminal.spawn_delay_ms") := by
  decide +kernel

end AgentSupervisor.Config
