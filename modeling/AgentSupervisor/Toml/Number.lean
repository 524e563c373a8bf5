import AgentSupervisor.Toml.Moment
import AgentSupervisor.Toml.Value

/-!
# Numbers and moments of TOML

What begins with a digit, a sign or the letters of a special float. Integers have 64 bits with
a sign; digits may be parted by single underscores; a float too large for a double is refused.
Four digits before a hyphen begin a date, two before a colon a time.
-/

namespace AgentSupervisor.Toml

open AgentSupervisor.Text (isDigit natOfDigits hexValue)

/-- The rest of a row of digits, single underscores between them left out. -/
def digitsAfter (isMember : Char → Bool) : List Char → List Char × List Char
  | '_' :: c :: r =>
    if isMember c then (c :: (digitsAfter isMember r).1, (digitsAfter isMember r).2)
    else ([], '_' :: c :: r)
  | c :: r =>
    if isMember c then (c :: (digitsAfter isMember r).1, (digitsAfter isMember r).2)
    else ([], c :: r)
  | [] => ([], [])

/-- A row of digits with single underscores between them. -/
def digitRow (isMember : Char → Bool) : List Char → Option (List Char × List Char)
  | c :: r =>
    if isMember c then
      some (c :: (digitsAfter isMember r).1, (digitsAfter isMember r).2)
    else none
  | [] => none

/-- A row of decimal digits that does not begin with a needless zero. -/
def wholeDigits (cs : List Char) : Option (List Char × List Char) := do
  let (ds, r) ← digitRow isDigit cs
  if ds.head? = some '0' ∧ 1 < ds.length then none else some (ds, r)

/-- The bounds of an integer. -/
def inRange (n : Int) : Bool := -0x8000000000000000 ≤ n && n < 0x8000000000000000

/-- A digit of a base up to 16. -/
def isBaseDigit (base : Nat) (c : Char) : Bool :=
  match hexValue c with
  | some d => d < base
  | none => false

/-- The value of digits in a base. -/
def natOfBase (base : Nat) (ds : List Char) : Nat :=
  ds.foldl (fun n c => base * n + (hexValue c).getD 0) 0

/-- An integer in another base, after its two leading characters. -/
def basedInteger (base : Nat) (cs : List Char) : Option (Toml × List Char) := do
  let (ds, r) ← digitRow (isBaseDigit base) cs
  if inRange (natOfBase base ds) then some (.integer (natOfBase base ds), r) else none

/-- The sign in front of a number, and the text after it. -/
def sign : List Char → Option Char × List Char
  | '+' :: r => (some '+', r)
  | '-' :: r => (some '-', r)
  | r => (none, r)

/-- The exponent of a float: its text and value, and what follows. -/
def exponentPart : List Char → Option (List Char × Int × List Char)
  | c :: r =>
    if c = 'e' ∨ c = 'E' then do
      let (s, t) := sign r
      let (ds, rest) ← digitRow isDigit t
      let n : Int := natOfDigits ds
      return ('e' :: (s.toList ++ ds), if s = some '-' then -n else n, rest)
    else some ([], 0, c :: r)
  | [] => some ([], 0, [])

/-- A float from its parts. -/
def ofParts (s : Option Char) (whole frac : List Char) (exp : List Char × Int) : Option Toml :=
  let tooLarge := Text.exceedsDouble (natOfDigits (whole ++ frac)) (exp.2 - frac.length)
  if tooLarge ∧ s ≠ some '-' then none
  else
    let point := if frac.isEmpty then [] else '.' :: frac
    some (.float (String.ofList (s.toList ++ whole ++ point ++ exp.1)))

/-- A decimal integer or float after its sign. -/
def decimalNumber (s : Option Char) (cs : List Char) : Option (Toml × List Char) := do
  let (whole, r) ← wholeDigits cs
  match r with
  | '.' :: t =>
    let (frac, r1) ← digitRow isDigit t
    let (text, e, r2) ← exponentPart r1
    return (← ofParts s whole frac (text, e), r2)
  | 'e' :: _ | 'E' :: _ =>
    let (text, e, r2) ← exponentPart r
    return (← ofParts s whole [] (text, e), r2)
  | _ =>
    let n : Int := natOfDigits whole
    let n := if s = some '-' then -n else n
    if inRange n then some (.integer n, r) else none

/-- A number after its sign, special floats included. -/
def signedNumber (s : Option Char) : List Char → Option (Toml × List Char)
  | 'i' :: 'n' :: 'f' :: r => some (.float (String.ofList (s.toList ++ ['i', 'n', 'f'])), r)
  | 'n' :: 'a' :: 'n' :: r => some (.float (String.ofList (s.toList ++ ['n', 'a', 'n'])), r)
  | r => decimalNumber s r

/-- A moment as a value. -/
def ofMoment (p : Moment × List Char) : Toml × List Char :=
  (.moment (String.ofList p.1.text), p.2)

/-- A number or a moment. The digits in front and the character after them tell which. -/
def numberOrMoment (cs : List Char) : Option (Toml × List Char) :=
  match cs with
  | '0' :: 'x' :: r => basedInteger 16 r
  | '0' :: 'o' :: r => basedInteger 8 r
  | '0' :: 'b' :: r => basedInteger 2 r
  | _ =>
    match cs.dropWhile isDigit with
    | '-' :: _ =>
      if (cs.takeWhile isDigit).isEmpty then let (s, r) := sign cs; signedNumber s r
      else (readDated cs).map ofMoment
    | ':' :: _ => (readTimed cs).map ofMoment
    | _ => let (s, r) := sign cs; signedNumber s r

end AgentSupervisor.Toml
