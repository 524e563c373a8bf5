import AgentSupervisor.Text.Numeral

/-!
# Dates and times

A moment is a date, a time, or a date with a time and perhaps an offset from UTC. Reading
checks that the date exists and keeps nine digits of a fraction of a second; writing gives the
normal spelling, with `T` between date and time and without zeros at the end of a fraction.
-/

namespace AgentSupervisor.Toml

open AgentSupervisor.Text (isDigit natOfDigits digitValue digitChar)

/-- A day of the calendar. -/
structure Day where
  year : Nat
  month : Nat
  day : Nat
  deriving Repr, DecidableEq

/-- A time of day, with a fraction of a second in nanoseconds. -/
structure Clock where
  hour : Nat
  minute : Nat
  second : Nat
  nanosecond : Nat
  deriving Repr, DecidableEq

/-- An offset from UTC. -/
inductive Offset where
  /-- written `Z` -/
  | utc
  | minutes (n : Int)
  deriving Repr, DecidableEq

/-- A date, a time or both. -/
inductive Moment where
  | day (d : Day)
  | clock (c : Clock)
  | both (d : Day) (c : Clock) (offset : Option Offset)
  deriving Repr, DecidableEq

/-! ## Writing -/

/-- A number in a given count of digits. -/
def padded (width n : Nat) : List Char :=
  let ds := Text.decimal n
  List.replicate (width - ds.length) '0' ++ ds

/-- Digits without the zeros at their end. -/
def dropZeros (ds : List Char) : List Char := (ds.reverse.dropWhile (· == '0')).reverse

/-- The text of a day. -/
def Day.text (d : Day) : List Char :=
  padded 4 d.year ++ '-' :: (padded 2 d.month ++ '-' :: padded 2 d.day)

/-- The text of a time of day. -/
def Clock.text (c : Clock) : List Char :=
  let fraction := if c.nanosecond = 0 then [] else '.' :: dropZeros (padded 9 c.nanosecond)
  padded 2 c.hour ++ ':' :: (padded 2 c.minute ++ ':' :: (padded 2 c.second ++ fraction))

/-- The text of an offset. -/
def Offset.text : Offset → List Char
  | .utc => ['Z']
  | .minutes n =>
    let sign := if n < 0 then '-' else '+'
    sign :: (padded 2 (n.natAbs / 60) ++ ':' :: padded 2 (n.natAbs % 60))

/-- The text of a moment. -/
def Moment.text : Moment → List Char
  | .day d => d.text
  | .clock c => c.text
  | .both d c offset =>
    d.text ++ 'T' :: (c.text ++ (match offset with | some o => o.text | none => []))

/-! ## Reading -/

/-- A number of two digits, up to a limit. -/
def two (limit : Nat) : List Char → Option (Nat × List Char)
  | a :: b :: r =>
    if isDigit a ∧ isDigit b ∧ natOfDigits [a, b] ≤ limit then some (natOfDigits [a, b], r)
    else none
  | _ => none

/-- A number of four digits. -/
def four : List Char → Option (Nat × List Char)
  | a :: b :: c :: d :: r =>
    if [a, b, c, d].all isDigit then some (natOfDigits [a, b, c, d], r) else none
  | _ => none

/-- A given character and the text after it. -/
def skip (c : Char) : List Char → Option (List Char)
  | d :: r => if c = d then some r else none
  | [] => none

/-- Has the year a 29th of February? -/
def isLeap (year : Nat) : Bool := (year % 4 == 0 && year % 100 != 0) || year % 400 == 0

/-- The number of days of a month. -/
def daysOf (year month : Nat) : Nat :=
  if month = 2 then (if isLeap year then 29 else 28)
  else if month = 4 ∨ month = 6 ∨ month = 9 ∨ month = 11 then 30
  else 31

/-- A day and the text after it. -/
def readDay (cs : List Char) : Option (Day × List Char) := do
  let (year, r) ← four cs
  let (month, r) ← two 12 (← skip '-' r)
  let (day, r) ← two 31 (← skip '-' r)
  if 1 ≤ month ∧ 1 ≤ day ∧ day ≤ daysOf year month then some (⟨year, month, day⟩, r) else none

/-- The nanoseconds of a fraction of a second. -/
def nanoseconds (ds : List Char) : Nat :=
  natOfDigits ((ds ++ List.replicate 9 '0').take 9)

/-- A time of day and the text after it. -/
def readClock (cs : List Char) : Option (Clock × List Char) := do
  let (hour, r) ← two 23 cs
  let (minute, r) ← two 59 (← skip ':' r)
  let (second, r) ← two 60 (← skip ':' r)
  match r with
  | '.' :: t =>
    let ds := t.takeWhile isDigit
    if ds.isEmpty then none
    else some (⟨hour, minute, second, nanoseconds ds⟩, t.dropWhile isDigit)
  | _ => some (⟨hour, minute, second, 0⟩, r)

/-- An offset, if there is one, and the text after it. -/
def readOffset : List Char → Option (Option Offset × List Char)
  | 'Z' :: r => some (some .utc, r)
  | 'z' :: r => some (some .utc, r)
  | c :: r =>
    if c = '+' ∨ c = '-' then do
      let (hour, r1) ← two 23 r
      let (minute, r2) ← two 59 (← skip ':' r1)
      let n : Int := hour * 60 + minute
      return (some (.minutes (if c = '-' then -n else n)), r2)
    else some (none, c :: r)
  | [] => some (none, [])

/-- Does a time of day begin here? -/
def clockAhead : List Char → Bool
  | a :: b :: ':' :: _ => isDigit a && isDigit b
  | _ => false

/-- A date with what may follow it. -/
def readDated (cs : List Char) : Option (Moment × List Char) := do
  let (d, r) ← readDay cs
  match r with
  | delimiter :: t =>
    if (delimiter = 'T' ∨ delimiter = 't' ∨ delimiter = ' ') ∧ clockAhead t then do
      let (c, r1) ← readClock t
      let (offset, r2) ← readOffset r1
      return (.both d c offset, r2)
    else return (.day d, r)
  | [] => return (.day d, [])

/-- A time without a date. -/
def readTimed (cs : List Char) : Option (Moment × List Char) :=
  (readClock cs).map fun p => (.clock p.1, p.2)

end AgentSupervisor.Toml
