/-!
# UTF-8

Bytes of a text and the text of bytes. The decoder is one pass with a small state: the
continuation bytes still due, the range the next one must lie in and the value so far.
A byte that does not fit ends the sequence in progress and is looked at again as a first
byte, so each maximal ill-formed piece yields exactly one `none`.

* `decode?`     : strict reading, refused when any piece is ill-formed;
* `decodeLossy` : every ill-formed piece becomes U+FFFD.
-/

namespace AgentSupervisor

/-- A row of bytes. -/
abbrev Bytes := List UInt8

namespace Utf8

/-! ## Encoding -/

/-- The bytes of one character. -/
def encodeChar (c : Char) : Bytes :=
  let n := c.toNat
  if n < 0x80 then [n.toUInt8]
  else if n < 0x800 then [(0xC0 + n / 64).toUInt8, (0x80 + n % 64).toUInt8]
  else if n < 0x10000 then
    [(0xE0 + n / 4096).toUInt8, (0x80 + n / 64 % 64).toUInt8, (0x80 + n % 64).toUInt8]
  else
    [(0xF0 + n / 262144).toUInt8, (0x80 + n / 4096 % 64).toUInt8,
      (0x80 + n / 64 % 64).toUInt8, (0x80 + n % 64).toUInt8]

/-- The bytes of a row of characters. -/
def encodeChars (cs : List Char) : Bytes := cs.flatMap encodeChar

/-- The bytes of a string. -/
def encode (s : String) : Bytes := encodeChars s.toList

/-! ## Decoding -/

/-- The sequence in progress. -/
inductive Pending where
  /-- between two characters -/
  | idle
  /-- `due` continuation bytes are missing, the next in `low … high`; `value` is the prefix -/
  | more (due low high value : Nat)
  deriving Repr, DecidableEq

/-- Look at a byte as the first of a sequence. -/
def start (b : Nat) : Option (Option Char) × Pending :=
  if b < 0x80 then (some (some (Char.ofNat b)), .idle)
  else if b < 0xC2 then (some none, .idle)
  else if b < 0xE0 then (none, .more 1 0x80 0xBF (b - 0xC0))
  else if b == 0xE0 then (none, .more 2 0xA0 0xBF 0)
  else if b == 0xED then (none, .more 2 0x80 0x9F 0xD)
  else if b < 0xF0 then (none, .more 2 0x80 0xBF (b - 0xE0))
  else if b == 0xF0 then (none, .more 3 0x90 0xBF 0)
  else if b < 0xF4 then (none, .more 3 0x80 0xBF (b - 0xF0))
  else if b == 0xF4 then (none, .more 3 0x80 0x8F 4)
  else (some none, .idle)

/-- Decode from a state: a character for each well-formed sequence, `none` for each maximal
    ill-formed piece. -/
def pieces : Pending → Bytes → List (Option Char)
  | .idle, [] => []
  | .more .., [] => [none]
  | .idle, b :: bs =>
    match start b.toNat with
    | (some c, p) => c :: pieces p bs
    | (none, p) => pieces p bs
  | .more due low high value, b :: bs =>
    let n := b.toNat
    if low ≤ n ∧ n ≤ high then
      if due ≤ 1 then some (Char.ofNat (value * 64 + (n - 0x80))) :: pieces .idle bs
      else pieces (.more (due - 1) 0x80 0xBF (value * 64 + (n - 0x80))) bs
    else
      none :: match start n with
        | (some c, p) => c :: pieces p bs
        | (none, p) => pieces p bs

/-- Strict reading. -/
def decode? (bs : Bytes) : Option (List Char) := (pieces .idle bs).mapM id

/-- The replacement character. -/
def replacement : Char := Char.ofNat 0xFFFD

/-- Reading with U+FFFD for every ill-formed piece. -/
def decodeLossy (bs : Bytes) : List Char := (pieces .idle bs).map (·.getD replacement)

/-- Strict reading into a string. -/
def string? (bs : Bytes) : Option String := (decode? bs).map String.ofList

/-- Lossy reading into a string. -/
def lossyString (bs : Bytes) : String := String.ofList (decodeLossy bs)

end Utf8

end AgentSupervisor
