import AgentSupervisor.Toml.Quoted

/-!
# Writing TOML

Strings are written in the first style that fits: on one line with double quotes, on one line
as they are, over several lines with double quotes, over several lines as they are, and with
escapes when nothing else is left. Keys are written without quotes where they can be.

A document is a row of tables, each a header with its entries, parted by blank lines.
-/

namespace AgentSupervisor.Toml

/-! ## Escapes -/

/-- A control character other than tab and line feed. -/
def isControl (c : Char) : Bool :=
  (c.toNat < 0x20 || c.toNat == 0x7F) && c != '\t' && c != '\n'

/-- One upper-case hexadecimal digit. -/
def upperHex (d : Nat) : Char := Char.ofNat (if d < 10 then 48 + d else 55 + d)

/-- How one character is written between double quotes. -/
def escapeChar (c : Char) : List Char :=
  if c = '\x08' then ['\\', 'b']
  else if c = '\t' then ['\\', 't']
  else if c = '\n' then ['\\', 'n']
  else if c = '\x0c' then ['\\', 'f']
  else if c = '\r' then ['\\', 'r']
  else if c = '"' then ['\\', '"']
  else if c = '\\' then ['\\', '\\']
  else if isControl c then ['\\', 'u', '0', '0', upperHex (c.toNat / 16), upperHex (c.toNat % 16)]
  else [c]

/-- The inside of a string over several lines with double quotes. Line feeds stay, and so do
    two quotes in a row; `run` counts the quotes before. -/
def escapeLines : (run : Nat) → List Char → List Char
  | _, [] => []
  | run, c :: cs =>
    if c = '"' then
      if run = 2 then '\\' :: '"' :: escapeLines 0 cs else '"' :: escapeLines (run + 1) cs
    else if c = '\n' then '\n' :: escapeLines 0 cs
    else escapeChar c ++ escapeLines 0 cs

/-! ## Strings -/

/-- The longest run of a character. `run` counts those before. -/
def longestRun (q : Char) : (run : Nat) → List Char → Nat
  | run, [] => run
  | run, c :: cs => if c = q then longestRun q (run + 1) cs else max run (longestRun q 0 cs)

/-- How a string is written. -/
inductive Style where
  | basic
  | literal
  | basicLines
  | literalLines
  deriving Repr, DecidableEq

/-- The style in which a string is written. -/
def styleOf (cs : List Char) : Style :=
  if !cs.any (fun c => c == '\n' || c == '"' || c == '\\' || isControl c) then .basic
  else if !cs.any (fun c => c == '\'' || c == '\n' || isControl c) then .literal
  else if !cs.any (fun c => c == '\\' || isControl c) && longestRun '"' 0 cs < 3 then .basicLines
  else if !cs.any isControl && longestRun '\'' 0 cs < 3 then .literalLines
  else if cs.contains '\n' then .basicLines
  else .basic

/-- The line feed after the opening quotes of a string that runs over lines. -/
def firstBreak (cs : List Char) : List Char := if cs.contains '\n' then ['\n'] else []

/-- A string in a given style. -/
def writeIn (cs : List Char) : Style → List Char
  | .basic => '"' :: (cs.flatMap escapeChar ++ ['"'])
  | .literal => '\'' :: (cs ++ ['\''])
  | .basicLines => ['"', '"', '"'] ++ firstBreak cs ++ escapeLines 0 cs ++ ['"', '"', '"']
  | .literalLines => ['\'', '\'', '\''] ++ firstBreak cs ++ cs ++ ['\'', '\'', '\'']

/-- A string. -/
def writeString (s : String) : List Char := writeIn s.toList (styleOf s.toList)

/-! ## Keys and tables -/

/-- A key. -/
def writeKey (k : String) : List Char :=
  let cs := k.toList
  if !cs.isEmpty && cs.all isBare then cs
  else if !cs.any (fun c => c == '\n' || c == '"' || c == '\\' || isControl c) then
    writeIn cs .basic
  else if !cs.any (fun c => c == '\n' || c == '\'' || isControl c) then writeIn cs .literal
  else writeIn cs .basic

/-- A line that sets a key to a value given as text. -/
def writeEntry (k : String) (value : List Char) : List Char :=
  writeKey k ++ [' ', '=', ' '] ++ value ++ ['\n']

/-- A table: the text of its path, and its lines. -/
structure Section where
  title : String
  lines : List (String × List Char)
  deriving Repr

/-- A table with its header. -/
def Section.write (s : Section) : List Char :=
  '[' :: (s.title.toList ++ [']', '\n'] ++ s.lines.flatMap fun l => writeEntry l.1 l.2)

/-- Tables one after another, a blank line between them. -/
def writeSections : List Section → List Char
  | [] => []
  | [s] => s.write
  | s :: t :: ss => s.write ++ '\n' :: writeSections (t :: ss)

end AgentSupervisor.Toml
