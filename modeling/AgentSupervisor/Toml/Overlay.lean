import AgentSupervisor.Toml.Value

/-!
# Overlaying tables

A later layer of settings is laid over an earlier one: where both have a table at a key the two
are combined, and anywhere else the later value stands.

* `find?_overlay` : the rule for one key.
-/

namespace AgentSupervisor.Toml

mutual

/-- What a value becomes when it is laid over what was there. -/
def onto (old : Option Toml) : Toml → Toml
  | .table es =>
    match old with
    | some (.table base) => .table (overlay base es)
    | _ => .table es
  | v => v

/-- The first entries with the second ones laid over them. -/
def overlay (base : Entries) : Entries → Entries
  | [] => base
  | (k, v) :: es => put k (onto (find? k base) v) (overlay base es)

end

theorem find?_overlay (base top : Entries) (k : String) :
    find? k (overlay base top) =
      match find? k top with
      | some v => some (onto (find? k base) v)
      | none => find? k base := by
  induction top with
  | nil => simp [overlay, find?]
  | cons e es ih =>
    obtain ⟨k', v'⟩ := e
    simp only [overlay, find?_put, find?]
    by_cases h : k' = k
    · subst h; simp
    · simp [h, Ne.symm h, ih]

end AgentSupervisor.Toml
