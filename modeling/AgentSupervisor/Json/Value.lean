import AgentSupervisor.Text.Numeral

/-!
# JSON values and their compact text

A value keeps the members of an object in the order they were written, repeated keys
included, because a record refuses a field that is given twice. A number written without
fraction and exponent that fits 64 bits is an `integer`; any other number is a `decimal` and
keeps its spelling, since no record has a field for it.

`render` writes a value without blanks. Strings escape the quote, the backslash and the
control characters below U+0020 and nothing else, so a rendered value never holds a line
feed.
-/

namespace AgentSupervisor

/-- A JSON value. -/
inductive Json where
  | null
  | bool (b : Bool)
  /-- a number without fraction and exponent, within 64 bits -/
  | integer (n : Int)
  /-- any other number, as it was written -/
  | decimal (text : String)
  | string (s : String)
  | array (items : List Json)
  | object (members : List (String × Json))
  deriving Repr, Inhabited, BEq

namespace Json

/-! ## Strings -/

/-- One lower-case hexadecimal digit. -/
def hexDigit (d : Nat) : Char := Char.ofNat (if d < 10 then 48 + d else 87 + d)

/-- How one character is written inside quotes. -/
def escapeChar (c : Char) : List Char :=
  if c = '"' then ['\\', '"']
  else if c = '\\' then ['\\', '\\']
  else if c = '\x08' then ['\\', 'b']
  else if c = '\t' then ['\\', 't']
  else if c = '\n' then ['\\', 'n']
  else if c = '\x0c' then ['\\', 'f']
  else if c = '\r' then ['\\', 'r']
  else if c.toNat < 0x20 then
    ['\\', 'u', '0', '0', hexDigit (c.toNat / 16), hexDigit (c.toNat % 16)]
  else [c]

/-- The inside of a quoted string. -/
def escape (cs : List Char) : List Char := cs.flatMap escapeChar

/-- A quoted string. -/
def quote (s : String) : List Char := '"' :: (escape s.toList ++ ['"'])

/-! ## Values -/

mutual

/-- The compact text of a value. -/
def render : Json → List Char
  | .null => ['n', 'u', 'l', 'l']
  | .bool true => ['t', 'r', 'u', 'e']
  | .bool false => ['f', 'a', 'l', 's', 'e']
  | .integer n => Text.decimalInt n
  | .decimal t => t.toList
  | .string s => quote s
  | .array [] => ['[', ']']
  | .array (x :: xs) => '[' :: (render x ++ renderItems xs)
  | .object [] => ['\x7b', '\x7d']
  | .object ((k, v) :: ms) => '\x7b' :: (quote k ++ ':' :: (render v ++ renderMembers ms))

/-- The items after the first, with the closing bracket. -/
def renderItems : List Json → List Char
  | [] => [']']
  | x :: xs => ',' :: (render x ++ renderItems xs)

/-- The members after the first, with the closing brace. -/
def renderMembers : List (String × Json) → List Char
  | [] => ['\x7d']
  | (k, v) :: ms => ',' :: (quote k ++ ':' :: (render v ++ renderMembers ms))

end

/-- The compact text of a value as a string. -/
def text (j : Json) : String := String.ofList j.render

end Json

end AgentSupervisor
