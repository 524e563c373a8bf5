import AgentSupervisor.Text.Numeral
import AgentSupervisor.Text.Utf8

/-!
# Formatted output

The format text of `printf` and the escapes that `printf` and `echo` share. A format is text
with conversions; it is used again as long as arguments are left, and a missing argument
counts as empty or as zero. Output is bytes, because an escape may name any byte.

* `Format.read`   : the parts of a format;
* `Format.render` : a format with its arguments;
* `Format.unescape` : a text with its escapes resolved.
-/

namespace AgentSupervisor

/-- A conversion: flags, least width, precision and the letter that says what is converted. -/
structure Conversion where
  left : Bool := false
  zero : Bool := false
  plus : Bool := false
  width : Nat := 0
  precision : Option Nat := none
  letter : Char := 's'
  deriving Repr, DecidableEq

/-- A part of a format. -/
inductive FormatPart where
  | text (bs : Bytes)
  | convert (c : Conversion)
  deriving Repr, DecidableEq

namespace Format

/-! ## Escapes -/

/-- The byte of an escape that is one letter. -/
def escapeOf? (c : Char) : Option UInt8 :=
  match c with
  | 'n' => some 10
  | 't' => some 9
  | 'r' => some 13
  | 'a' => some 7
  | 'b' => some 8
  | 'f' => some 12
  | 'v' => some 11
  | 'e' => some 27
  | '\\' => some 92
  | '"' => some 34
  | '\'' => some 39
  | _ => none

/-- The byte of a backslash. -/
def backslash : UInt8 := 92

/-- An octal digit. -/
def isOctal (c : Char) : Bool := '0' ≤ c && c ≤ '7'

/-- Resolve escapes: the bytes, and whether an escape ended the output. `octal` is the number of
    octal digits that may still follow and the value so far. -/
def unescapeFrom (octal : Option (Nat × Nat)) : List Char → Bytes × Bool
  | [] => ((octal.map fun o => UInt8.ofNat o.2).toList, false)
  | c :: cs =>
    match octal with
    | some (due + 1, value) =>
      if isOctal c then unescapeFrom (some (due, value * 8 + Text.digitValue c)) cs
      else finishOctal value c cs
    | some (0, value) => finishOctal value c cs
    | none => plain c cs
where
  /-- The octal number is complete, and `c` comes after it. -/
  finishOctal (value : Nat) (c : Char) (cs : List Char) : Bytes × Bool :=
    let (out, ended) := plain c cs
    (UInt8.ofNat value :: out, ended)
  /-- A character outside an octal number. -/
  plain (c : Char) (cs : List Char) : Bytes × Bool :=
    if c = '\\' then
      match cs with
      | [] => ([backslash], false)
      | 'c' :: _ => ([], true)
      | '0' :: cs => unescapeFrom (some (3, 0)) cs
      | d :: cs =>
        let (out, ended) := unescapeFrom none cs
        match escapeOf? d with
        | some e => (e :: out, ended)
        | none => (backslash :: Utf8.encodeChar d ++ out, ended)
    else
      let (out, ended) := unescapeFrom none cs
      (Utf8.encodeChar c ++ out, ended)

/-- A text with its escapes resolved, and whether an escape ended the output. -/
def unescape (s : String) : Bytes × Bool := unescapeFrom none s.toList

/-! ## Formats -/

/-- Where the reader of a format is. -/
inductive Mode where
  | text
  | escape
  /-- in a number in a base that may have so many more digits -/
  | code (base due value : Nat)
  /-- in a conversion; before its width, in its width, or in its precision -/
  | flags (c : Conversion)
  | width (c : Conversion)
  | precision (c : Conversion)
  deriving Repr, DecidableEq

/-- A reader of a format: the parts so far, backwards. -/
structure Reader where
  /-- may escapes be hexadecimal? -/
  hexadecimal : Bool
  parts : List FormatPart := []
  mode : Mode := .text
  deriving Repr, DecidableEq

namespace Reader

/-- Add a part. -/
def add (r : Reader) (p : FormatPart) : Reader :=
  { r with parts := p :: r.parts, mode := .text }

/-- Add a character of text. -/
def addChar (r : Reader) (c : Char) : Reader := r.add (.text (Utf8.encodeChar c))

/-- Add a byte. -/
def addByte (r : Reader) (n : Nat) : Reader := r.add (.text [UInt8.ofNat n])

/-- The value of a digit in a base. -/
def digitIn? (base : Nat) (c : Char) : Option Nat :=
  (Text.hexValue c).filter (· < base)

/-- A character of plain text. -/
def textStep (r : Reader) (c : Char) : Reader :=
  if c = '%' then { r with mode := .flags {} }
  else if c = '\\' then { r with mode := .escape }
  else r.addChar c

/-- The letter of a conversion. -/
def letterStep (r : Reader) (k : Conversion) (c : Char) : Reader :=
  if c = '%' then r.addChar c else r.add (.convert { k with letter := c })

/-- A character after the flags of a conversion. -/
def widthStep (r : Reader) (k : Conversion) (c : Char) : Reader :=
  if Text.isDigit c then
    { r with mode := .width { k with width := k.width * 10 + Text.digitValue c } }
  else if c = '.' then { r with mode := .precision { k with precision := some 0 } }
  else r.letterStep k c

/-- One more character. -/
def step (r : Reader) (c : Char) : Reader :=
  match r.mode with
  | .text => r.textStep c
  | .escape =>
    if isOctal c then { r with mode := .code 8 2 (Text.digitValue c) }
    else if c = 'x' ∧ r.hexadecimal then { r with mode := .code 16 2 0 }
    else match escapeOf? c with
      | some e => r.add (.text [e])
      | none => (r.addChar '\\').addChar c
  | .code _ 0 value => (r.addByte value).textStep c
  | .code base (due + 1) value =>
    match digitIn? base c with
    | some d => { r with mode := .code base due (value * base + d) }
    | none => (r.addByte value).textStep c
  | .flags k =>
    if c = '-' then { r with mode := .flags { k with left := true } }
    else if c = '0' then { r with mode := .flags { k with zero := true } }
    else if c = '+' then { r with mode := .flags { k with plus := true } }
    else r.widthStep k c
  | .width k => r.widthStep k c
  | .precision k =>
    if Text.isDigit c then
      let k := { k with precision := k.precision.map (· * 10 + Text.digitValue c) }
      { r with mode := .precision k }
    else r.letterStep k c

/-- The parts at the end of a format. -/
def finish (r : Reader) : List FormatPart :=
  match r.mode with
  | .escape => (r.addChar '\\').parts.reverse
  | .code _ _ value => (r.addByte value).parts.reverse
  | _ => r.parts.reverse

end Reader

/-- The parts of a format. -/
def read (hexadecimal : Bool) (s : String) : List FormatPart :=
  (s.toList.foldl Reader.step { hexadecimal }).finish

/-! ## Output -/

/-- The digits of a number in a base, most significant first. -/
def digitsIn (base : Nat) (n : Nat) : List Char := Nat.toDigits base n

/-- The number that an argument spells; an empty one is zero. -/
def numberOf? (s : String) : Option Int :=
  match s.toList with
  | [] => some 0
  | '\'' :: c :: _ => some c.toNat
  | '"' :: c :: _ => some c.toNat
  | '-' :: cs => (Text.digits? cs).map fun n => - Int.ofNat n
  | '+' :: cs => (Text.digits? cs).map Int.ofNat
  | cs => (Text.digits? cs).map Int.ofNat

/-- Fill bytes up to a width with blanks. -/
def pad (k : Conversion) (bs : Bytes) : Bytes :=
  let gap := List.replicate (k.width - bs.length) 32
  if k.left then bs ++ gap else gap ++ bs

/-- A number with its sign, filled up to a width. -/
def padNumber (k : Conversion) (n : Int) (digits : List Char) : Bytes :=
  let sign := if n < 0 then ['-'] else if k.plus then ['+'] else []
  let digits := List.replicate (k.precision.getD 1 - digits.length) '0' ++ digits
  if k.zero && !k.left && k.precision.isNone then
    let gap := List.replicate (k.width - sign.length - digits.length) '0'
    Utf8.encodeChars (sign ++ gap ++ digits)
  else pad k (Utf8.encodeChars (sign ++ digits))

/-- What a conversion makes of an argument. -/
inductive Converted where
  | good (bs : Bytes)
  /-- the argument is no number -/
  | bad (bs : Bytes)
  /-- the output ends after this -/
  | last (bs : Bytes)
  /-- there is no such conversion -/
  | unknown
  deriving Repr, DecidableEq

/-- What a conversion makes of a number. -/
def convertNumber (k : Conversion) (digits : Nat → List Char) (s : String) : Converted :=
  match numberOf? s with
  | some n => .good (padNumber k n (digits n.natAbs))
  | none => .bad (padNumber k 0 (digits 0))

/-- What a conversion makes of an argument. -/
def convert (k : Conversion) (s : String) : Converted :=
  let cut (bs : Bytes) : Bytes := k.precision.elim bs bs.take
  match k.letter with
  | 's' => .good (pad k (cut (Utf8.encode s)))
  | 'c' => .good (pad k ((Utf8.encode s).take 1))
  | 'b' =>
    let (bs, ended) := unescape s
    if ended then .last (pad k (cut bs)) else .good (pad k (cut bs))
  | 'd' | 'i' | 'u' => convertNumber k Text.decimal s
  | 'x' => convertNumber k (digitsIn 16) s
  | 'X' => convertNumber k (fun n => (digitsIn 16 n).map Char.toUpper) s
  | 'o' => convertNumber k (digitsIn 8) s
  | _ => .unknown

/-- What comes of a format: output and the arguments that are left, the arguments that are no
    numbers, the conversion that does not exist, and whether the output ends early. -/
structure Rendering where
  out : Bytes := []
  rest : List String
  bad : List String := []
  unknown : Option Char := none
  ended : Bool := false
  deriving Repr, DecidableEq

/-- Put output in front. -/
def Rendering.after (r : Rendering) (bs : Bytes) : Rendering := { r with out := bs ++ r.out }

/-- Go through the parts once. -/
def pass : List FormatPart → List String → Rendering
  | [], args => { rest := args }
  | .text bs :: ps, args => (pass ps args).after bs
  | .convert k :: ps, args =>
    let arg := args.headD ""
    match convert k arg with
    | .good bs => (pass ps args.tail).after bs
    | .bad bs =>
      let r := (pass ps args.tail).after bs
      { r with bad := arg :: r.bad }
    | .last bs => { out := bs, rest := args.tail, ended := true }
    | .unknown => { rest := args.tail, unknown := some k.letter, ended := true }

/-- A format with its arguments. A format that takes no argument is used once. -/
def renderFrom (parts : List FormatPart) : (rounds : Nat) → List String → Rendering
  | 0, args => { rest := args }
  | rounds + 1, args =>
    let r := pass parts args
    if r.ended || r.rest.isEmpty || r.rest.length = args.length then r
    else
      let more := (renderFrom parts rounds r.rest).after r.out
      { more with bad := r.bad ++ more.bad }

/-- A format with its arguments. -/
def render (hexadecimal : Bool) (format : String) (args : List String) : Rendering :=
  renderFrom (read hexadecimal format) (args.length + 1) args

end Format

end AgentSupervisor
