import AgentSupervisor.Text.Lines

/-!
# The line discipline of a terminal

What a terminal does between its keyboard, its screen and the program in it. Keys are collected
into lines and shown as they are typed; some keys edit the line, end the input or send a
signal. A line feed that a program writes is shown as a carriage return and a line feed.

* `shown` : output as it reaches the screen;
* `press` : one key.
-/

namespace AgentSupervisor

/-- Input that a program has not read yet. -/
structure Discipline where
  /-- the line that is being typed, backwards -/
  line : Bytes := []
  /-- what the next reads give; an empty one is the end of the input -/
  ready : List Bytes := []
  deriving Repr, DecidableEq

/-- What one key leads to. -/
structure Keystroke where
  discipline : Discipline
  /-- what the screen shows -/
  echo : Bytes := []
  signal : Option Int32 := none
  deriving Repr, DecidableEq

namespace Discipline

/-- The longest line without its line feed, in bytes. -/
def maxLine : Nat := 4095

/-- Output as it reaches the screen. -/
def shown (bs : Bytes) : Bytes :=
  bs.flatMap fun b => if b = Lines.lineFeed then [Lines.carriageReturn, Lines.lineFeed] else [b]

/-- Is the byte a control character that is shown with a caret? -/
def isCaret (b : UInt8) : Bool := (b < 32 && b != 9) || b == 127

/-- How a key is shown. -/
def echoOf (b : UInt8) : Bytes := if isCaret b then [94, b ^^^ 64] else [b]

/-- What takes one character off the screen. -/
def rubOut (b : UInt8) : Bytes := (echoOf b).flatMap fun _ => [8, 32, 8]

/-- A letter, a digit or an underscore. -/
def isWordByte (b : UInt8) : Bool :=
  (48 ≤ b && b ≤ 57) || (65 ≤ b && b ≤ 90) || (97 ≤ b && b ≤ 122) || b == 95

/-- A line is complete. -/
def finish (d : Discipline) (tail : Bytes) : Discipline :=
  { line := [], ready := d.ready ++ [d.line.reverse ++ tail] }

/-- Take characters off the end of the line and off the screen, until `rest` is left. -/
def erase (d : Discipline) (rest : Bytes) : Keystroke :=
  { discipline := { d with line := rest }
    echo := (d.line.take (d.line.length - rest.length)).flatMap rubOut }

/-- The line without its last word, backwards. -/
def withoutWord (line : Bytes) : Bytes :=
  (line.dropWhile fun b => !isWordByte b).dropWhile isWordByte

/-- A key that sends a signal throws the input away. -/
def interrupt (b : UInt8) (signal : Int32) : Keystroke :=
  { discipline := {}, echo := echoOf b, signal := some signal }

/-- One key. -/
def press (d : Discipline) (b : UInt8) : Keystroke :=
  if b = Lines.carriageReturn ∨ b = Lines.lineFeed then
    { discipline := d.finish [Lines.lineFeed], echo := shown [Lines.lineFeed] }
  else if b = 3 then interrupt b 2
  else if b = 28 then interrupt b 3
  else if b = 26 then interrupt b 20
  else if b = 4 then { discipline := d.finish [] }
  else if b = 127 then d.erase (d.line.drop 1)
  else if b = 21 then d.erase []
  else if b = 23 then d.erase (withoutWord d.line)
  else if b = 17 ∨ b = 19 then { discipline := d }
  else
    { discipline := { d with line := if d.line.length < maxLine then b :: d.line else d.line }
      echo := echoOf b }

/-- A program reads: what it gets, if anything is there. -/
def take? (d : Discipline) : Option (Bytes × Discipline) :=
  match d.ready with
  | [] => none
  | bs :: ready => some (bs, { d with ready })

end Discipline

end AgentSupervisor
