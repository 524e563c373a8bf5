import AgentSupervisor.Config.Layers
import Mathlib.Data.List.Induction

/-!
# Rows of layers

What stands at a path of keys when tables are laid over each other, and when many are.

* `Overlaid`          : the rule for a path, with one case for each thing that a layer can have;
* `overlaid_iff`      : what stands at a path is what the rule says;
* `at?_overlay_leaf`  : where a value that is no table comes from;
* `at?_overlay_table` : where there are tables at a path, they are laid over each other;
* `at?_merged_leaf`   : a value that is no table comes from the last layer that has one;
* `at?_merged_eq`     : what stands at a path is what the last layer put there.
-/

namespace AgentSupervisor

namespace Toml

variable {base top es : Entries} {k : String} {p ks : List String} {v w : Toml}
  {old r : Option Toml}

/-! ## Values laid over values -/

/-- A value that is no table. -/
def IsLeaf (v : Toml) : Prop := entries? v = none

theorem isLeaf_or_table (v : Toml) : IsLeaf v ∨ ∃ es, v = .table es := by
  cases v with
  | table es => exact .inr ⟨es, rfl⟩
  | _ => exact .inl rfl

theorem not_isLeaf_table : ¬ IsLeaf (.table es) := fun h => by cases h

theorem IsLeaf.onto (h : IsLeaf v) (old : Option Toml) : onto old v = v := by
  cases v with
  | table es => cases h
  | _ => rfl

/-- The entries that a table is laid over. -/
def under : Option Toml → Entries
  | some (.table es) => es
  | _ => []

/-- A table stays one. -/
theorem onto_table (old : Option Toml) (es : Entries) :
    onto old (.table es) = .table es ∨ onto old (.table es) = .table (overlay (under old) es) := by
  rcases old with - | old
  · exact .inl rfl
  · cases old with
    | table => exact .inr rfl
    | _ => exact .inl rfl

theorem onto_eq_leaf (h : IsLeaf v) : onto old w = v ↔ w = v := by
  have hne (es : Entries) : Toml.table es ≠ v := fun heq => not_isLeaf_table (heq ▸ h)
  rcases isLeaf_or_table w with hw | ⟨es, rfl⟩
  · rw [hw.onto]
  · rcases onto_table old es with heq | heq
    · rw [heq]
    · rw [heq]
      exact iff_of_false (hne _) (hne _)

theorem onto_none (v : Toml) : onto none v = v := by
  cases v <;> rfl

theorem find?_overlay_nil (es : Entries) (k : String) : find? k (overlay [] es) = find? k es := by
  rw [find?_overlay]
  cases find? k es with
  | none => rfl
  | some v => exact congrArg some (onto_none v)

theorem mem_of_find? (h : find? k es = some v) : (k, v) ∈ es := by
  induction es with
  | nil => cases h
  | cons e es ih =>
    rw [find?] at h
    split at h
    · rename_i heq
      cases h
      exact heq ▸ List.mem_cons_self
    · exact List.mem_cons_of_mem e (ih h)

theorem mem_put {e : String × Toml} (h : e ∈ put k v es) : e = (k, v) ∨ e ∈ es := by
  induction es with
  | nil => exact .inl (List.mem_singleton.mp h)
  | cons d es ih =>
    rw [put] at h
    split at h
    · rcases List.mem_cons.mp h with h | h
      · exact .inl h
      · exact .inr (List.mem_cons_of_mem d h)
    · rcases List.mem_cons.mp h with h | h
      · exact .inr (h ▸ List.mem_cons_self)
      · exact (ih h).imp id (List.mem_cons_of_mem d)

/-- An entry of the result is an entry of the base, or one of the top laid over the base. -/
theorem mem_overlay {e : String × Toml} (h : e ∈ overlay base top) :
    e ∈ base ∨ ∃ v, (e.1, v) ∈ top ∧ e.2 = onto (find? e.1 base) v := by
  induction top with
  | nil => exact .inl h
  | cons d top ih =>
    obtain ⟨k, v⟩ := d
    rcases mem_put h with rfl | h
    · exact .inr ⟨v, List.mem_cons_self, rfl⟩
    · exact (ih h).imp id fun ⟨w, hw, he⟩ => ⟨w, List.mem_cons_of_mem _ hw, he⟩

/-! ## Paths -/

theorem at?_cons (k : String) (ks : List String) (es : Entries) :
    at? (k :: ks) (.table es) = (find? k es).bind (at? ks) := rfl

theorem IsLeaf.at?_cons (h : IsLeaf v) (k : String) (ks : List String) :
    at? (k :: ks) v = none := by
  cases v with
  | table es => cases h
  | _ => rfl

theorem at?_under (old : Option Toml) (k : String) (ks : List String) :
    at? (k :: ks) (.table (under old)) = old.bind (at? (k :: ks)) := by
  rcases old with - | old
  · rfl
  · rcases isLeaf_or_table old with hleaf | ⟨es, rfl⟩
    · rw [Option.bind_some, hleaf.at?_cons, under]
      · rfl
      · rintro es ⟨⟩
        exact not_isLeaf_table hleaf
    · rfl

theorem at?_overlay_nil (k : String) (ks : List String) (es : Entries) :
    at? (k :: ks) (.table (overlay [] es)) = at? (k :: ks) (.table es) := by
  rw [at?_cons, at?_cons, find?_overlay_nil]

theorem at?_onto (old : Option Toml) (es : Entries) (k : String) (ks : List String) :
    at? (k :: ks) (onto old (.table es)) = at? (k :: ks) (.table (overlay (under old) es)) := by
  have hnil := (at?_overlay_nil k ks es).symm
  rcases old with - | old
  · rw [onto_none]
    exact hnil
  · cases old with
    | table => rfl
    | _ => exact hnil

theorem at?_overlay_cons (base top : Entries) (k : String) (ks : List String) :
    at? (k :: ks) (.table (overlay base top)) =
      (match find? k top with
      | none => (find? k base).bind (at? ks)
      | some v => at? ks (onto (find? k base) v)) := by
  rw [at?_cons, find?_overlay]
  cases find? k top <;> rfl

/-- Nothing but tables stands on the way to a path. -/
def Clear : List String → Toml → Prop
  | [], _ => True
  | k :: ks, v => ∃ es, v = .table es ∧ ∀ w, find? k es = some w → Clear ks w

theorem clear_cons : Clear (k :: ks) (.table es) ↔ ∀ w, find? k es = some w → Clear ks w := by
  refine ⟨fun ⟨_, heq, h⟩ => ?_, fun h => ⟨es, rfl, h⟩⟩
  cases heq
  exact h

/-! ### Paths that are cut off -/

theorem at?_append (q p : List String) (v : Toml) : at? (q ++ p) v = (at? q v).bind (at? p) := by
  induction q generalizing v with
  | nil => rfl
  | cons k q ih =>
    rcases isLeaf_or_table v with hleaf | ⟨es, rfl⟩
    · rw [List.cons_append, hleaf.at?_cons, hleaf.at?_cons]
      rfl
    · rw [List.cons_append, at?_cons, at?_cons]
      cases find? k es with
      | none => rfl
      | some w => exact ih w

/-- A value that is no table stands above a path: at a beginning of it, short of its end. -/
def LeafAbove (p : List String) (v : Toml) : Prop :=
  ∃ q k ks w, p = q ++ k :: ks ∧ at? q v = some w ∧ IsLeaf w

theorem LeafAbove.at?_eq_none (h : LeafAbove p v) : at? p v = none := by
  obtain ⟨q, k, ks, w, rfl, hq, hw⟩ := h
  rw [at?_append, hq]
  exact hw.at?_cons k ks

theorem leafAbove_cons :
    LeafAbove (k :: ks) (.table es) ↔ ∃ w, find? k es = some w ∧ LeafAbove ks w := by
  constructor
  · rintro ⟨q, k', ks', w, hp, hq, hw⟩
    cases q with
    | nil =>
      obtain rfl := Option.some.inj hq
      exact absurd hw not_isLeaf_table
    | cons k'' q =>
      obtain ⟨rfl, rfl⟩ := List.cons.inj hp
      obtain ⟨u, hu, hq⟩ := Option.bind_eq_some_iff.mp hq
      exact ⟨u, hu, q, k', ks', w, rfl, hq, hw⟩
  · rintro ⟨u, hu, q, k', ks', w, rfl, hq, hw⟩
    refine ⟨k :: q, k', ks', w, rfl, ?_, hw⟩
    rw [at?_cons, hu]
    exact hq

/-- The way to a path is clear unless something on it is no table. -/
theorem clear_iff : Clear p v ↔ ¬ LeafAbove p v := by
  induction p generalizing v with
  | nil =>
    refine iff_of_true trivial ?_
    rintro ⟨q, k, ks, w, hp, -, -⟩
    cases q <;> cases hp
  | cons k ks ih =>
    rcases isLeaf_or_table v with hleaf | ⟨es, rfl⟩
    · refine iff_of_false ?_ fun h => h ⟨[], k, ks, v, rfl, rfl, hleaf⟩
      rintro ⟨es, rfl, -⟩
      exact not_isLeaf_table hleaf
    · rw [clear_cons, leafAbove_cons]
      simp only [ih, not_exists, not_and]

/-! ### One layer on another -/

/-- **A layer that has nothing at a path**, and nothing but tables on the way there, leaves what
    was there. -/
theorem at?_overlay_of_clear (hnone : at? p (.table top) = none) (hclear : Clear p (.table top)) :
    at? p (.table (overlay base top)) = at? p (.table base) := by
  induction p generalizing base top with
  | nil => cases hnone
  | cons k ks ih =>
    rw [at?_overlay_cons]
    rw [at?_cons] at hnone
    rw [clear_cons] at hclear
    cases hk : find? k top with
    | none => rfl
    | some w =>
      rw [hk] at hnone
      have hw := hclear w hk
      cases ks with
      | nil => cases hnone
      | cons k' ks =>
        obtain ⟨es, rfl, -⟩ := id hw
        simp only
        rw [at?_onto, ih hnone hw, at?_under, at?_cons]

/-- What the top layer has at a path is laid over what is there. -/
theorem at?_overlay_some (h : at? p (.table top) = some v) :
    at? p (.table (overlay base top)) = some (onto (at? p (.table base)) v) := by
  induction p generalizing base top with
  | nil =>
    obtain rfl := Option.some.inj h
    rfl
  | cons k ks ih =>
    rw [at?_overlay_cons]
    rw [at?_cons] at h
    obtain ⟨w, hk, hw⟩ := Option.bind_eq_some_iff.mp h
    rw [hk, at?_cons]
    cases ks with
    | nil =>
      obtain rfl := Option.some.inj hw
      cases find? k base <;> rfl
    | cons k' ks =>
      rcases isLeaf_or_table w with hleaf | ⟨es, rfl⟩
      · rw [hleaf.at?_cons] at hw
        cases hw
      · simp only
        rw [at?_onto, ih hw, at?_under]

/-- A value that is no table stands where the top layer has it. -/
theorem at?_overlay_top (hv : IsLeaf v) (h : at? p (.table top) = some v) :
    at? p (.table (overlay base top)) = some v := by
  rw [at?_overlay_some h, hv.onto]

theorem LeafAbove.overlay (h : LeafAbove p (.table top)) :
    LeafAbove p (.table (overlay base top)) := by
  obtain ⟨q, k, ks, w, rfl, hq, hw⟩ := h
  exact ⟨q, k, ks, w, rfl, at?_overlay_top hw hq, hw⟩

/-! ## The rule -/

/-- **What stands at a path** when one table is laid over another. -/
inductive Overlaid (base top : Entries) (p : List String) : Option Toml → Prop
  /-- the upper table has a value that is no table there -/
  | leaf {v : Toml} (htop : at? p (.table top) = some v) (hv : IsLeaf v) :
    Overlaid base top p (some v)
  /-- the upper table has such a value above -/
  | below (habove : LeafAbove p (.table top)) : Overlaid base top p none
  /-- both have a table there -/
  | tables {b t : Entries} (hbase : at? p (.table base) = some (.table b))
    (htop : at? p (.table top) = some (.table t)) :
    Overlaid base top p (some (.table (overlay b t)))
  /-- only the upper one has a table there -/
  | table {t : Entries} (hbase : ∀ b, at? p (.table base) ≠ some (.table b))
    (htop : at? p (.table top) = some (.table t)) : Overlaid base top p (some (.table t))
  /-- the upper table has nothing there, and only tables above -/
  | kept {r : Option Toml} (htop : at? p (.table top) = none) (habove : ¬ LeafAbove p (.table top))
    (hbase : at? p (.table base) = r) : Overlaid base top p r

theorem onto_of_no_table (h : ∀ b, old ≠ some (.table b)) (es : Entries) :
    onto old (.table es) = .table es := by
  rcases old with - | old
  · exact onto_none _
  · cases old with
    | table b => exact absurd rfl (h b)
    | _ => rfl

theorem Overlaid.at?_eq (h : Overlaid base top p r) : at? p (.table (overlay base top)) = r := by
  cases h with
  | leaf htop hv => exact at?_overlay_top hv htop
  | below habove => exact habove.overlay.at?_eq_none
  | tables hbase htop =>
    rw [at?_overlay_some htop, hbase]
    rfl
  | table hbase htop => rw [at?_overlay_some htop, onto_of_no_table hbase]
  | kept htop habove hbase => exact (at?_overlay_of_clear htop (clear_iff.mpr habove)).trans hbase

/-- At every path some case of the rule applies. -/
theorem exists_overlaid (base top : Entries) (p : List String) : ∃ r, Overlaid base top p r := by
  cases htop : at? p (.table top) with
  | none =>
    by_cases habove : LeafAbove p (.table top)
    · exact ⟨_, .below habove⟩
    · exact ⟨_, .kept htop habove rfl⟩
  | some v =>
    rcases isLeaf_or_table v with hv | ⟨t, rfl⟩
    · exact ⟨_, .leaf htop hv⟩
    · by_cases hbase : ∃ b, at? p (.table base) = some (.table b)
      · obtain ⟨b, hb⟩ := hbase
        exact ⟨_, .tables hb htop⟩
      · exact ⟨_, .table (not_exists.mp hbase) htop⟩

theorem overlaid_iff : Overlaid base top p r ↔ at? p (.table (overlay base top)) = r := by
  refine ⟨Overlaid.at?_eq, ?_⟩
  rintro rfl
  obtain ⟨r, h⟩ := exists_overlaid base top p
  rwa [h.at?_eq]

/-- **Where a value that is no table comes from**: from the top layer, or from below when the top
    layer has nothing there and nothing but tables on the way. -/
theorem at?_overlay_leaf (hv : IsLeaf v) (h : at? p (.table (overlay base top)) = some v) :
    at? p (.table top) = some v ∨
      at? p (.table top) = none ∧ Clear p (.table top) ∧ at? p (.table base) = some v := by
  cases overlaid_iff.mpr h with
  | leaf htop => exact .inl htop
  | tables | table => exact absurd hv not_isLeaf_table
  | kept htop habove hbase => exact .inr ⟨htop, clear_iff.mpr habove, hbase⟩

/-- All that may stand at a path is a table of some kind. -/
def TableAt (P : Entries → Prop) (p : List String) (es : Entries) : Prop :=
  ∀ v, at? p (.table es) = some v → ∃ t, v = .table t ∧ P t

theorem clear_one (k : String) (es : Entries) : Clear [k] (.table es) :=
  clear_cons.mpr fun _ _ => trivial

/-- The way goes on where there is a table. -/
theorem clear_concat {P : Entries → Prop} (hclear : Clear p (.table es)) (htable : TableAt P p es)
    (k : String) : Clear (p ++ [k]) (.table es) := by
  induction p generalizing es with
  | nil => exact clear_one k es
  | cons k' ks ih =>
    refine clear_cons.mpr fun w hw => ?_
    have hks := clear_cons.mp hclear w hw
    have htable' : ∀ v, at? ks w = some v → ∃ t, v = .table t ∧ P t := fun v hv =>
      htable v (by rw [at?_cons, hw]; exact hv)
    obtain ⟨t, rfl⟩ : ∃ t, w = .table t := by
      cases ks with
      | nil =>
        obtain ⟨t, rfl, -⟩ := htable' w rfl
        exact ⟨t, rfl⟩
      | cons =>
        obtain ⟨t, rfl, -⟩ := hks
        exact ⟨t, rfl⟩
    exact ih hks htable'

/-- **Tables at a path** are laid over each other. -/
theorem at?_overlay_table {P : Entries → Prop} (hP : ∀ b t, P b → P t → P (overlay b t))
    (hbase : TableAt P (k :: ks) base) (htop : TableAt P (k :: ks) top) :
    TableAt P (k :: ks) (overlay base top) := by
  intro v h
  cases overlaid_iff.mpr h with
  | leaf ht => exact htop v ht
  | tables hb ht =>
    obtain ⟨b, ⟨⟩, hPb⟩ := hbase _ hb
    obtain ⟨t, ⟨⟩, hPt⟩ := htop _ ht
    exact ⟨_, rfl, hP _ _ hPb hPt⟩
  | table _ ht => exact htop _ ht
  | kept _ _ hb => exact hbase v hb

end Toml

/-! ## Rows of layers -/

namespace Config

open Toml (Entries at? Clear IsLeaf TableAt overlay)

variable {layers : List Entries} {l : Entries} {p ks : List String} {k : String} {v : Toml}

theorem merged_concat (layers : List Entries) (l : Entries) :
    merged (layers ++ [l]) = overlay (merged layers) l := List.foldl_append ..

/-- The value that the last layer with anything at one of some paths has there. -/
def lastAt (paths : List (List String)) (layers : List Entries) : Option Toml :=
  layers.reverse.findSome? fun l => paths.findSome? fun p => at? p (.table l)

theorem lastAt_concat (paths : List (List String)) (layers : List Entries) (l : Entries) :
    lastAt paths (layers ++ [l]) =
      (paths.findSome? fun p => at? p (.table l)).or (lastAt paths layers) := by
  rw [lastAt, List.reverse_append, List.reverse_singleton, List.singleton_append,
    List.findSome?_cons]
  cases paths.findSome? fun p => at? p (.table l) <;> rfl

/-- **A value that is no table** comes from a layer after which nothing stands at its path, nor
    anything but tables on the way there. -/
theorem at?_merged_leaf (hv : IsLeaf v) (h : at? p (.table (merged layers)) = some v) :
    ∃ before l after, layers = before ++ l :: after ∧ at? p (.table l) = some v ∧
      ∀ l' ∈ after, at? p (.table l') = none ∧ Clear p (.table l') := by
  induction layers using List.reverseRecOn with
  | nil =>
    cases p with
    | nil => obtain rfl := Option.some.inj h; cases hv
    | cons => cases h
  | append_singleton layers l ih =>
    rw [merged_concat] at h
    rcases Toml.at?_overlay_leaf hv h with h | ⟨hnone, hclear, h⟩
    · exact ⟨layers, l, [], rfl, h, by simp⟩
    · obtain ⟨before, l₀, after, rfl, hl₀, hafter⟩ := ih h
      refine ⟨before, l₀, after ++ [l], by simp, hl₀, fun l' hl' => ?_⟩
      rcases List.mem_append.mp hl' with hl' | hl'
      · exact hafter l' hl'
      · rw [List.mem_singleton.mp hl']
        exact ⟨hnone, hclear⟩

/-- **What stands at a path** is what the last layer put there, if no layer has anything but
    tables on the way, and no table there. -/
theorem at?_merged_eq (hclear : ∀ l ∈ layers, Clear (k :: ks) (.table l))
    (hleaf : ∀ l ∈ layers, ∀ v, at? (k :: ks) (.table l) = some v → IsLeaf v) :
    at? (k :: ks) (.table (merged layers)) = lastAt [k :: ks] layers := by
  induction layers using List.reverseRecOn with
  | nil => rfl
  | append_singleton layers l ih =>
    have hmem : l ∈ layers ++ [l] := List.mem_append_right _ (List.mem_singleton.mpr rfl)
    have hkept := ih (fun l' hl' => hclear l' (List.mem_append_left _ hl'))
      (fun l' hl' => hleaf l' (List.mem_append_left _ hl'))
    rw [merged_concat, lastAt_concat, List.findSome?_singleton]
    cases hl : at? (k :: ks) (.table l) with
    | none => exact (Toml.at?_overlay_of_clear hl (hclear l hmem)).trans hkept
    | some v => exact Toml.at?_overlay_top (hleaf l hmem v hl) hl

theorem merged_tableAt {P : Entries → Prop} (hP : ∀ b t, P b → P t → P (overlay b t))
    (htable : ∀ l ∈ layers, TableAt P (k :: ks) l) : TableAt P (k :: ks) (merged layers) := by
  induction layers using List.reverseRecOn with
  | nil => intro v h; cases h
  | append_singleton layers l ih =>
    have hmem : l ∈ layers ++ [l] := List.mem_append_right _ (List.mem_singleton.mpr rfl)
    rw [merged_concat]
    exact Toml.at?_overlay_table hP
      (ih fun l' hl' => htable l' (List.mem_append_left _ hl')) (htable l hmem)

theorem lastAt_eq_none {paths : List (List String)} :
    lastAt paths layers = none ↔
      ∀ l ∈ layers, (paths.findSome? fun p => at? p (.table l)) = none := by
  rw [lastAt, List.findSome?_eq_none_iff]
  simp

theorem lastAt_isSome (p : List String) (layers : List Entries) :
    (lastAt [p] layers).isSome ↔ ∃ l ∈ layers, (at? p (.table l)).isSome := by
  simp [lastAt, List.findSome?_isSome_iff]

/-- What holds of the value of each layer, and of none at all, holds of the last one. -/
theorem lastAt_property {Q : Option Toml → Prop} {paths : List (List String)} (hnone : Q none)
    (h : ∀ l ∈ layers, Q (paths.findSome? fun p => at? p (.table l))) :
    Q (lastAt paths layers) := by
  cases hlast : lastAt paths layers with
  | none => exact hnone
  | some v =>
    obtain ⟨l, hl, hv⟩ := List.exists_of_findSome?_eq_some hlast
    rw [← hv]
    exact h l (List.mem_reverse.mp hl)

theorem lastAt_congr {paths paths' : List (List String)}
    (h : ∀ l ∈ layers, (paths.findSome? fun p => at? p (.table l)) =
      paths'.findSome? fun p => at? p (.table l)) : lastAt paths layers = lastAt paths' layers := by
  induction layers using List.reverseRecOn with
  | nil => rfl
  | append_singleton layers l ih =>
    rw [lastAt_concat, lastAt_concat, h l (by simp),
      ih fun l' hl' => h l' (List.mem_append_left _ hl')]

/-- Two names of one setting, of which no row of layers uses both. -/
theorem lastAt_or {p q : List String} (h : lastAt [p] layers = none ∨ lastAt [q] layers = none) :
    (lastAt [p] layers).or (lastAt [q] layers) = lastAt [p, q] layers := by
  rcases h with hp | hq
  · rw [hp, Option.none_or]
    refine lastAt_congr fun l hl => ?_
    have hnone := lastAt_eq_none.mp hp l hl
    rw [List.findSome?_singleton] at hnone
    simp [hnone]
  · rw [hq, Option.or_none]
    refine lastAt_congr fun l hl => ?_
    have hnone := lastAt_eq_none.mp hq l hl
    rw [List.findSome?_singleton] at hnone
    cases hp : at? p (.table l) <;> simp [hp, hnone]

end Config

end AgentSupervisor
