import AgentSupervisor.Json.Value
import AgentSupervisor.Text.Numeral

/-!
# Shapes of JSON values

How records, tagged alternatives and enumerated words are spelt in JSON, and the readers for
the types of their fields.

* A record is an object with its fields in any order and each at most once, members of other
  names being ignored, or an array of its fields in order, where the last ones may be left out.
* An alternative carries its name as a tag: as one member of the object, or as the first item
  of the array.
* A word is a string, or an object with that word as its only key and nothing as its value.
-/

namespace AgentSupervisor.Json

/-! ## Records -/

/-- The value given for a field, if any: `none` when the field is given twice. -/
def member? (name : String) (ms : List (String × Json)) : Option (Option Json) :=
  match ms.filter fun m => m.1 == name with
  | [] => some none
  | [m] => some (some m.2)
  | _ => none

/-- What a value gives for the fields of a record, in the order of their names. -/
def fields? (names : List String) : Json → Option (List (Option Json))
  | .object ms => names.mapM fun n => member? n ms
  | .array js =>
    if js.length ≤ names.length then
      some (js.map some ++ List.replicate (names.length - js.length) none)
    else none
  | _ => none

/-- A field that has to be given. -/
def required {α : Type} (read : Json → Option α) (given : Option Json) : Option α :=
  given.bind read

/-- A field with a value for the case that it is not given. -/
def orElse {α : Type} (default : α) (read : Json → Option α) : Option Json → Option α
  | none => some default
  | some j => read j

/-! ## Alternatives -/

/-- The tag of an alternative and the record that remains without it. -/
def tagged? (tag : String) : Json → Option (String × Json)
  | .object ms =>
    match member? tag ms with
    | some (some (.string t)) => some (t, .object (ms.filter fun m => m.1 != tag))
    | _ => none
  | .array (.string t :: js) => some (t, .array js)
  | _ => none

/-- An alternative without fields: members of an object are ignored, items are refused. -/
def fieldless? : Json → Option Unit
  | .object _ => some ()
  | .array [] => some ()
  | _ => none

/-- The text of an alternative: its tag first, then its fields. -/
def tag (name value : String) (fields : List (String × Json)) : Json :=
  .object ((name, .string value) :: fields)

/-! ## Field types -/

/-- A string. -/
def string? : Json → Option String
  | .string s => some s
  | _ => none

/-- An integer between two bounds, both included. -/
def between? (low high : Int) : Json → Option Int
  | .integer n => if low ≤ n ∧ n ≤ high then some n else none
  | _ => none

/-- A number of 16 bits. -/
def uint16? (j : Json) : Option UInt16 :=
  (between? 0 65535 j).map fun n => UInt16.ofNat n.toNat

/-- A number of 32 bits. -/
def uint32? (j : Json) : Option UInt32 :=
  (between? 0 4294967295 j).map fun n => UInt32.ofNat n.toNat

/-- A number of 64 bits. -/
def uint64? (j : Json) : Option UInt64 :=
  (between? 0 18446744073709551615 j).map fun n => UInt64.ofNat n.toNat

/-- A signed number of 32 bits. -/
def int32? (j : Json) : Option Int32 :=
  (between? (-2147483648) 2147483647 j).map Int32.ofInt

/-- Nothing, written `null`, or a value. -/
def nullable {α : Type} (read : Json → Option α) : Json → Option (Option α)
  | .null => some none
  | j => (read j).map some

/-- A list of values. -/
def list? {α : Type} (read : Json → Option α) : Json → Option (List α)
  | .array js => js.mapM read
  | _ => none

/-- Is this the value of a word written as an object? Inside an alternative, whose members are
    held back until its tag is known, an empty object counts as nothing too. -/
def isNothing (inner : Bool) : Json → Bool
  | .null => true
  | .object [] => inner
  | _ => false

/-- A word, as a string or as the only key of an object. -/
def word? (inner : Bool) : Json → Option String
  | .string s => some s
  | .object [(k, v)] => if isNothing inner v then some k else none
  | _ => none

/-- A number as a JSON value. -/
def ofNat (n : Nat) : Json := .integer n

/-- Nothing or a value. -/
def ofOption {α : Type} (write : α → Json) : Option α → Json
  | none => .null
  | some a => write a

end AgentSupervisor.Json
