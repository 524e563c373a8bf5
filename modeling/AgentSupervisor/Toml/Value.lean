/-!
# TOML values

A value of a TOML document. Tables are rows of entries; looking up a key takes the first entry
of that key, so a row stands for the map that `find?` reads from it. A float and a date keep
their text, because no setting is of either kind.

* `at?`          : the value at a path of keys;
* `find?_put`    : what `put` does to a look-up;
* `put_distinct` : a row without repeated keys stays one.
-/

namespace AgentSupervisor

/-- A TOML value. -/
inductive Toml where
  | string (s : String)
  | integer (n : Int)
  | float (text : String)
  | boolean (b : Bool)
  /-- a date, a time or both, in its normal spelling -/
  | moment (text : String)
  | array (items : List Toml)
  | table (entries : List (String × Toml))
  deriving Repr, Inhabited, BEq

namespace Toml

/-- The entries of a table. -/
abbrev Entries := List (String × Toml)

/-- The value of a key. -/
def find? (key : String) : Entries → Option Toml
  | [] => none
  | (k, v) :: es => if k = key then some v else find? key es

/-- Set the value of a key: in place where the key is there, at the end where it is not. -/
def put (key : String) (value : Toml) : Entries → Entries
  | [] => [(key, value)]
  | (k, v) :: es => if k = key then (key, value) :: es else (k, v) :: put key value es

/-- The entries of a value that is a table. -/
def entries? : Toml → Option Entries
  | .table es => some es
  | _ => none

/-- The value at a path of keys below a value. -/
def at? : List String → Toml → Option Toml
  | [], v => some v
  | k :: ks, v =>
    match v with
    | .table es => (find? k es).bind (at? ks)
    | _ => none

/-! ## Laws of look-up -/

theorem find?_put (key k : String) (value : Toml) (es : Entries) :
    find? k (put key value es) = if k = key then some value else find? k es := by
  induction es with
  | nil =>
    simp only [put, find?]
    by_cases h : key = k
    · simp [h]
    · simp [h, Ne.symm h]
  | cons e es ih =>
    obtain ⟨k', v'⟩ := e
    simp only [put]
    by_cases h : k' = key
    · subst h
      by_cases hk : k' = k
      · simp [find?, hk]
      · simp [find?, hk, Ne.symm hk]
    · by_cases hk : k' = k
      · subst hk; simp [find?, h]
      · simp [find?, h, hk, ih]

theorem put_keys (key : String) (value : Toml) (es : Entries) :
    ∀ k, k ∈ (put key value es).map Prod.fst ↔ k = key ∨ k ∈ es.map Prod.fst := by
  induction es with
  | nil => simp [put]
  | cons e es ih =>
    obtain ⟨k', v'⟩ := e
    intro k
    by_cases h : k' = key
    · simp [put, h]
    · simp only [put, h, if_false, List.map_cons, List.mem_cons, ih]
      constructor
      · rintro (rfl | rfl | h) <;> simp_all
      · rintro (rfl | rfl | h) <;> simp_all

theorem put_distinct {key : String} {value : Toml} {es : Entries}
    (h : (es.map Prod.fst).Nodup) : ((put key value es).map Prod.fst).Nodup := by
  induction es with
  | nil => simp [put]
  | cons e es ih =>
    obtain ⟨k', v'⟩ := e
    simp only [List.map_cons, List.nodup_cons] at h
    by_cases hk : k' = key
    · subst hk; simpa [put] using h
    · simp only [put, hk, if_false, List.map_cons, List.nodup_cons]
      exact ⟨fun hm => (put_keys key value es k').mp hm |>.elim hk h.1, ih h.2⟩

end Toml

end AgentSupervisor
