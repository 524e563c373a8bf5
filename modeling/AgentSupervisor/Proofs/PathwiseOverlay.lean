import AgentSupervisor.Proofs.Overlays

/-!
# The same layer again

A layer that says nothing changes nothing, under others or on top of them, and a layer that is
laid on twice in a row counts once. Rows of entries stand for maps; laying a table on again
leaves even the order of the entries as it was.

* `overlay_cons`     : an overlay along the entries of the lower table, which keep their places;
* `overlay_eq_base`  : a table changes nothing where all that it says stands already;
* `overlay_overlay`  : a table laid on twice is laid on once;
* `pathwise_overlay` : these laws, with the rule for each path.
-/

namespace AgentSupervisor

namespace Toml

variable {base top es : Entries} {k : String} {v : Toml}

/-! ## Along the entries of the lower table -/

theorem find?_filter (es : Entries) (k k' : String) :
    find? k' (es.filter fun e => e.1 ≠ k) = if k' = k then none else find? k' es := by
  induction es with
  | nil => simp [find?]
  | cons e es ih =>
    by_cases he : e.1 = k
    · rw [List.filter_cons_of_neg (by simpa using he), ih, find?]
      grind
    · rw [List.filter_cons_of_pos (by simpa using he), find?, find?, ih]
      grind

/-- The entries of the lower table keep their places. -/
theorem overlay_cons (k : String) (b : Toml) (base top : Entries) :
    overlay ((k, b) :: base) top =
      (k, (find? k top).elim b (onto (some b))) ::
        overlay base (top.filter fun e => e.1 ≠ k) := by
  induction top with
  | nil => rfl
  | cons e top ih =>
    obtain ⟨k', v⟩ := e
    rw [overlay, ih, put]
    by_cases h : k' = k
    · subst h
      rw [if_pos rfl, List.filter_cons_of_neg (by simp), find?, if_pos rfl, find?, if_pos rfl]
      rfl
    · rw [if_neg (Ne.symm h), List.filter_cons_of_pos (by simpa using h), overlay, find?,
        if_neg (Ne.symm h), find?, if_neg h]

/-- A table changes nothing where all that it says stands already. -/
theorem overlay_eq_base
    (h : ∀ k v, find? k top = some v → ∃ b, find? k base = some b ∧ onto (some b) v = b) :
    overlay base top = base := by
  induction base generalizing top with
  | nil =>
    cases top with
    | nil => rfl
    | cons e top =>
      obtain ⟨b, hb, -⟩ := h e.1 e.2 (if_pos rfl)
      cases hb
  | cons e base ih =>
    obtain ⟨k, b⟩ := e
    have hhead : (find? k top).elim b (onto (some b)) = b := by
      cases hk : find? k top with
      | none => rfl
      | some v =>
        obtain ⟨b', hb', honto⟩ := h k v hk
        rw [find?, if_pos rfl] at hb'
        obtain rfl := Option.some.inj hb'
        exact honto
    have htail : overlay base (top.filter fun e => e.1 ≠ k) = base := by
      refine ih fun k' v hv => ?_
      rw [find?_filter, Option.ite_none_left_eq_some] at hv
      obtain ⟨hk, hv⟩ := hv
      obtain ⟨b', hb', honto⟩ := h k' v hv
      rw [find?, if_neg (Ne.symm hk)] at hb'
      exact ⟨b', hb', honto⟩
    rw [overlay_cons, hhead, htail]

/-! ## A table laid on twice -/

theorem sizeOf_lt_of_find? (h : find? k es = some v) : sizeOf v < sizeOf (Toml.table es) := by
  have hentry := List.sizeOf_lt_of_mem (mem_of_find? h)
  rw [Prod.mk.sizeOf_spec] at hentry
  rw [Toml.table.sizeOf_spec]
  omega

/-- Induction on nested tables: a table is settled once all that stands at its keys is. -/
theorem nested_induction {P : Toml → Prop} (leaf : ∀ v, IsLeaf v → P v)
    (table : ∀ es, (∀ k v, find? k es = some v → P v) → P (.table es)) (v : Toml) : P v := by
  induction hsize : sizeOf v using Nat.strongRecOn generalizing v with
  | ind n ih =>
    rcases isLeaf_or_table v with hv | ⟨es, rfl⟩
    · exact leaf v hv
    · exact table es fun k v hv => ih _ (hsize ▸ sizeOf_lt_of_find? hv) v rfl

/-- A value laid on twice is laid on once, whatever was there. -/
theorem onto_onto (old : Option Toml) (v : Toml) : onto (some (onto old v)) v = onto old v := by
  induction v using nested_induction generalizing old with
  | leaf v hv => rw [hv.onto, hv.onto]
  | table es ih =>
    -- over nothing, or a leaf, the table has come to stand as it is, and is laid on itself
    have hself : overlay es es = es := overlay_eq_base fun k v hv =>
      ⟨v, hv, by simpa only [onto_none] using ih k v hv none⟩
    rcases onto_table old es with heq | heq
    · rw [heq]
      exact congrArg Toml.table hself
    · rw [heq]
      refine congrArg Toml.table (overlay_eq_base fun k v hv => ?_)
      refine ⟨_, ?_, ih k v hv (find? k (under old))⟩
      rw [find?_overlay, hv]

/-- **A table laid on twice** is laid on once. -/
theorem overlay_overlay (base top : Entries) :
    overlay (overlay base top) top = overlay base top :=
  Toml.table.inj (onto_onto (some (.table base)) (.table top))

end Toml

/-! ## Layers that say nothing new -/

namespace Config

open Toml (Entries Overlaid at? find? overlay)

theorem merged_empty_layer (before after : List Entries) :
    merged (before ++ [] :: after) = merged (before ++ after) := by
  simp only [merged, List.foldl_append, List.foldl_cons, overlay]

theorem merged_twice (before after : List Entries) (l : Entries) :
    merged (before ++ l :: l :: after) = merged (before ++ l :: after) := by
  simp only [merged, List.foldl_append, List.foldl_cons, Toml.overlay_overlay]

/-- **Overlaying goes path by path.** What stands at a path of a table that was laid over another
    is what the rule says. The empty table changes nothing, on a table or under it, where the map
    is the same; and a table laid on twice in a row is laid on once. So it is with layers anywhere
    in a row of layers. -/
theorem pathwise_overlay (base top : Entries) :
    (∀ p r, Overlaid base top p r ↔ at? p (.table (overlay base top)) = r) ∧
      (overlay base [] = base ∧ ∀ k, find? k (overlay [] top) = find? k top) ∧
      overlay (overlay base top) top = overlay base top ∧
      ∀ before after, merged (before ++ [] :: after) = merged (before ++ after) ∧
        merged (before ++ top :: top :: after) = merged (before ++ top :: after) :=
  ⟨fun _ _ => Toml.overlaid_iff, ⟨rfl, Toml.find?_overlay_nil top⟩, Toml.overlay_overlay base top,
    fun before after => ⟨merged_empty_layer before after, merged_twice before after top⟩⟩

/-- The rule is about two tables. Of three, with a value that is no table in the middle one, it
    matters which are put together first. -/
example :
    let below := [("x", .table [("y", .integer 1)])]
    let middle := [("x", .integer 0)]
    let above := [("x", .table [("z", .integer 2)])]
    at? ["x", "y"] (.table (overlay (overlay below middle) above)) = none ∧
      at? ["x", "y"] (.table (overlay below (overlay middle above))) = some (.integer 1) :=
  ⟨rfl, rfl⟩

end Config

end AgentSupervisor
