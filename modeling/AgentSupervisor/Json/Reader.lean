import AgentSupervisor.Json.Value

/-!
# Reading JSON

A strict reader: four blank characters, no comments, no trailing commas, no leading zeros,
no raw control characters in strings, no lone surrogate escapes, no number beyond the range
of a double. At most `maxDepth` arrays and objects may be open at a time.

* `parse? cs` : the one value that the text spells, or `none`.
-/

namespace AgentSupervisor.Json

open AgentSupervisor.Text (isDigit natOfDigits hexValue bound64)

/-! ## Blanks -/

/-- The four characters that may stand between tokens. -/
def isBlank (c : Char) : Bool := c == ' ' || c == '\t' || c == '\n' || c == '\r'

/-- Drop the blanks in front. -/
def skipBlanks (cs : List Char) : List Char := cs.dropWhile isBlank

/-! ## Strings -/

/-- The value of four hexadecimal digits. -/
def hex4 (a b c d : Char) : Option Nat := do
  return (((← hexValue a) * 16 + (← hexValue b)) * 16 + (← hexValue c)) * 16 + (← hexValue d)

/-- The character of an escape of one letter. -/
def shortEscape (c : Char) : Option Char :=
  if c = '"' then some '"'
  else if c = '\\' then some '\\'
  else if c = '/' then some '/'
  else if c = 'b' then some '\x08'
  else if c = 'f' then some '\x0c'
  else if c = 'n' then some '\n'
  else if c = 'r' then some '\r'
  else if c = 't' then some '\t'
  else none

/-- A UTF-16 unit that opens a pair. -/
def isHighSurrogate (n : Nat) : Bool := 0xD800 ≤ n && n < 0xDC00

/-- A UTF-16 unit that closes a pair. -/
def isLowSurrogate (n : Nat) : Bool := 0xDC00 ≤ n && n < 0xE000

/-- The character of a surrogate pair. -/
def pairChar (high low : Nat) : Char :=
  Char.ofNat (0x10000 + (high - 0xD800) * 0x400 + (low - 0xDC00))

/-- The inside of a string up to its closing quote, and the text after it. -/
def stringBody : List Char → Option (List Char × List Char)
  | [] => none
  | '"' :: r => some ([], r)
  | '\\' :: 'u' :: a :: b :: c :: d :: r =>
    match hex4 a b c d with
    | none => none
    | some n =>
      if isHighSurrogate n then
        match r with
        | '\\' :: 'u' :: e :: f :: g :: h :: r' =>
          match hex4 e f g h with
          | none => none
          | some m =>
            if isLowSurrogate m then (stringBody r').map fun p => (pairChar n m :: p.1, p.2)
            else none
        | _ => none
      else if isLowSurrogate n then none
      else (stringBody r).map fun p => (Char.ofNat n :: p.1, p.2)
  | '\\' :: c :: r =>
    match shortEscape c with
    | none => none
    | some d => (stringBody r).map fun p => (d :: p.1, p.2)
  | c :: r =>
    if c = '\\' ∨ c.toNat < 0x20 then none
    else (stringBody r).map fun p => (c :: p.1, p.2)

/-! ## Numbers -/

/-- The fraction of a number: digits after a point, if there is a point. -/
def fraction : List Char → Option (List Char × List Char)
  | '.' :: r =>
    let ds := r.takeWhile isDigit
    if ds.isEmpty then none else some (ds, r.dropWhile isDigit)
  | r => some ([], r)

/-- The sign of an exponent, if there is one, and the text after it. -/
def sign : List Char → List Char × List Char
  | '+' :: r => (['+'], r)
  | '-' :: r => (['-'], r)
  | r => ([], r)

/-- The exponent of a number: its spelling and value, if there is one. -/
def exponent : List Char → Option (Option (List Char × Int) × List Char)
  | c :: r =>
    if c = 'e' ∨ c = 'E' then
      let (sign, r1) := sign r
      let ds := r1.takeWhile isDigit
      let n : Int := natOfDigits ds
      if ds.isEmpty then none
      else some (some (c :: (sign ++ ds), if sign = ['-'] then -n else n), r1.dropWhile isDigit)
    else some (none, c :: r)
  | [] => some (none, [])

/-- The value of a number from its parts. -/
def ofNumeral (negative : Bool) (whole frac : List Char) (exp : Option (List Char × Int)) :
    Option Json :=
  let n := natOfDigits whole
  let sign := if negative then ['-'] else []
  let plain := frac.isEmpty && exp.isNone
  if plain && !negative && n < bound64 then some (.integer n)
  else if plain && negative && n ≠ 0 && n ≤ 0x8000000000000000 then some (.integer (-(n : Int)))
  else
    let (expText, e) := exp.getD ([], 0)
    if Text.exceedsDouble (natOfDigits (whole ++ frac)) (e - frac.length) then none
    else
      let point := if frac.isEmpty then [] else '.' :: frac
      some (.decimal (String.ofList (sign ++ whole ++ point ++ expText)))

/-- A number behind its sign, and the text after it. -/
def magnitude (negative : Bool) (cs : List Char) : Option (Json × List Char) := do
  let whole := cs.takeWhile isDigit
  if whole.isEmpty || (whole.head? == some '0' && 1 < whole.length) then none
  else
    let (frac, r) ← fraction (cs.dropWhile isDigit)
    let (exp, r) ← exponent r
    return (← ofNumeral negative whole frac exp, r)

/-- A number and the text after it. -/
def number : List Char → Option (Json × List Char)
  | '-' :: r => magnitude true r
  | r => magnitude false r

/-! ## Values -/

/-- The largest number of arrays and objects that may be open at a time. -/
def maxDepth : Nat := 127

mutual

/-- One value and the text after it. `depth` more arrays and objects may be opened. -/
def value : (fuel depth : Nat) → List Char → Option (Json × List Char)
  | 0, _, _ => none
  | fuel + 1, depth, cs =>
    match skipBlanks cs with
    | 'n' :: 'u' :: 'l' :: 'l' :: r => some (.null, r)
    | 't' :: 'r' :: 'u' :: 'e' :: r => some (.bool true, r)
    | 'f' :: 'a' :: 'l' :: 's' :: 'e' :: r => some (.bool false, r)
    | '"' :: r => (stringBody r).map fun p => (.string (String.ofList p.1), p.2)
    | '[' :: r =>
      if depth = 0 then none
      else match skipBlanks r with
        | ']' :: r' => some (.array [], r')
        | _ => (items fuel (depth - 1) r).map fun p => (.array p.1, p.2)
    | '\x7b' :: r =>
      if depth = 0 then none
      else match skipBlanks r with
        | '\x7d' :: r' => some (.object [], r')
        | _ => (members fuel (depth - 1) r).map fun p => (.object p.1, p.2)
    | r => number r

/-- The items of an array up to the closing bracket. -/
def items : (fuel depth : Nat) → List Char → Option (List Json × List Char)
  | 0, _, _ => none
  | fuel + 1, depth, cs =>
    match value fuel depth cs with
    | none => none
    | some (x, r) =>
      match skipBlanks r with
      | ',' :: r' => (items fuel depth r').map fun p => (x :: p.1, p.2)
      | ']' :: r' => some ([x], r')
      | _ => none

/-- The members of an object up to the closing brace. -/
def members : (fuel depth : Nat) → List Char → Option (List (String × Json) × List Char)
  | 0, _, _ => none
  | fuel + 1, depth, cs =>
    match skipBlanks cs with
    | '"' :: r =>
      match stringBody r with
      | none => none
      | some (k, r1) =>
        match skipBlanks r1 with
        | ':' :: r2 =>
          match value fuel depth r2 with
          | none => none
          | some (v, r3) =>
            match skipBlanks r3 with
            | ',' :: r4 => (members fuel depth r4).map fun p => ((String.ofList k, v) :: p.1, p.2)
            | '\x7d' :: r4 => some ([(String.ofList k, v)], r4)
            | _ => none
        | _ => none
    | _ => none

end

/-- The one value that a text spells, blanks around it allowed. Each value and each item takes
    one unit of fuel and there are at most two of them for a character. -/
def parse? (cs : List Char) : Option Json :=
  match value (2 * cs.length + 2) maxDepth cs with
  | some (j, r) => if (skipBlanks r).isEmpty then some j else none
  | none => none

/-- The one value that a string spells. -/
def ofString? (s : String) : Option Json := parse? s.toList

end AgentSupervisor.Json
