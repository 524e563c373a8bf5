import AgentSupervisor.Toml.Value

/-!
# Building the tables of a document

The lines of a document fill tables: a header opens one, an entry sets one value in the table
that is open. A draft remembers of every table how it came to be, because that decides what may
still be added to it.

* A table may be opened by one header only, and not at all once it has entries under dotted
  keys. A header may open a table that others only passed through.
* Dotted keys make tables of their own and extend no table that a header opened.
* A header in double brackets adds one more table to a list.
* No key is set twice.
-/

namespace AgentSupervisor.Toml

/-- How a table came to be. -/
inductive Origin where
  /-- opened by a header -/
  | header
  /-- passed through on the way to another table -/
  | passage
  /-- made by dotted keys -/
  | dotted
  deriving Repr, DecidableEq

/-- What stands at a key of an unfinished table. -/
inductive Node where
  | value (v : Toml)
  | table (origin : Origin) (entries : List (String × Node))
  /-- the tables added by headers in double brackets -/
  | tables (items : List (List (String × Node)))
  deriving Repr, Inhabited

/-- The entries of an unfinished table. -/
abbrev Draft := List (String × Node)

namespace Draft

/-- What stands at a key. -/
def find? (key : String) : Draft → Option Node
  | [] => none
  | (k, n) :: d => if k = key then some n else find? key d

/-- Put something at a key, in place of what is there. -/
def put (key : String) (node : Node) : Draft → Draft
  | [] => [(key, node)]
  | (k, n) :: d => if k = key then (key, node) :: d else (k, n) :: put key node d

/-! ## Finished tables -/

mutual

/-- The value of a finished node. -/
def finishNode : Node → Toml
  | .value v => v
  | .table _ d => .table (finish d)
  | .tables ds => .array (finishAll ds)

/-- The entries of a finished table. -/
def finish : List (String × Node) → Entries
  | [] => []
  | (k, n) :: d => (k, finishNode n) :: finish d

/-- The tables of a list. -/
def finishAll : List (List (String × Node)) → List Toml
  | [] => []
  | d :: ds => .table (finish d) :: finishAll ds

end

/-! ## Entries -/

/-- Set the value of a dotted key. -/
def enter (v : Toml) : List String → Draft → Option Draft
  | [], _ => none
  | [k], d =>
    match find? k d with
    | none => some (put k (.value v) d)
    | some _ => none
  | k :: k' :: ks, d =>
    match find? k d with
    | none => (enter v (k' :: ks) []).map fun t => put k (.table .dotted t) d
    | some (.table .header _) => none
    | some (.table origin t) =>
      if ks.isEmpty ∧ origin ≠ .dotted then none
      else (enter v (k' :: ks) t).map fun t' => put k (.table origin t') d
    | some (.tables ts) =>
      match ts.getLast? with
      | none => none
      | some t =>
        if ks.isEmpty then none
        else (enter v (k' :: ks) t).map fun t' => put k (.tables (ts.dropLast ++ [t'])) d
    | some (.value _) => none

/-- The entries of a table in braces. -/
def ofPairs? (ps : List (List String × Toml)) : Option Entries :=
  (ps.foldlM (fun d p => enter p.2 p.1 d) []).map finish

/-! ## Headers -/

/-- Change the table at a path. Missing tables on the way are made, and of a list of tables the
    last one is meant. -/
def change (f : Draft → Option Draft) : List String → Draft → Option Draft
  | [], d => f d
  | k :: ks, d =>
    match find? k d with
    | none => (change f ks []).map fun t => put k (.table .passage t) d
    | some (.table origin t) => (change f ks t).map fun t' => put k (.table origin t') d
    | some (.tables ts) =>
      match ts.getLast? with
      | none => none
      | some t => (change f ks t).map fun t' => put k (.tables (ts.dropLast ++ [t'])) d
    | some (.value _) => none

/-- What stands at a path, if the way there leads through tables only. -/
def look : List String → Draft → Option (Option Node)
  | [], _ => none
  | [k], d => some (find? k d)
  | k :: k' :: ks, d =>
    match find? k d with
    | none => some none
    | some (.table _ t) => look (k' :: ks) t
    | some (.tables ts) =>
      match ts.getLast? with
      | none => none
      | some t => look (k' :: ks) t
    | some (.value _) => none

end Draft

/-- A document while it is read: the tables that are closed, and the one that is open with its
    path and the mark whether it is one of a list. -/
structure Building where
  closed : Draft := []
  path : List String := []
  listed : Bool := false
  current : Draft := []
  deriving Repr, Inhabited

/-- A line of a document that says something. -/
inductive Statement where
  | entry (keys : List String) (value : Toml)
  | header (path : List String)
  | listHeader (path : List String)
  deriving Repr, BEq

namespace Building

/-- Put the open table where its header said. -/
def close (b : Building) : Option Draft :=
  match b.path.getLast? with
  | none => some b.current
  | some k =>
    b.closed.change (fun d =>
      if b.listed then
        match d.find? k with
        | none => some (d.put k (.tables [b.current]))
        | some (.tables ts) => some (d.put k (.tables (ts ++ [b.current])))
        | some _ => none
      else some (d.put k (.table .header b.current))) b.path.dropLast

/-- Read one more line. -/
def step (b : Building) : Statement → Option Building
  | .entry keys v => (b.current.enter v keys).map fun d => { b with current := d }
  | .header path => do
    let closed ← b.close
    match ← closed.look path with
    | none => return { closed, path, current := [] }
    | some (.table .passage d) => return { closed, path, current := d }
    | some _ => none
  | .listHeader path => do
    let closed ← b.close
    match ← closed.look path with
    | none => return { closed, path, listed := true }
    | some (.tables _) => return { closed, path, listed := true }
    | some _ => none

/-- The table of a whole document. -/
def run (lines : List Statement) : Option Entries := do
  let b ← lines.foldlM step {}
  return Draft.finish (← b.close)

end Building

end AgentSupervisor.Toml
