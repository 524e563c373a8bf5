import AgentSupervisor.Text.Utf8

/-!
# Lines of a byte stream

A line ends at a line feed; what follows the last line feed is a line too when it is not
empty. One carriage return before a line feed belongs to the line end.

* `split_append_line` : a complete line in front is split off as it is.
-/

namespace AgentSupervisor.Lines

/-- The line feed byte. -/
def lineFeed : UInt8 := 10

/-- The carriage return byte. -/
def carriageReturn : UInt8 := 13

/-- The lines of a stream, each with the mark whether a line feed ended it. The accumulator
    holds the current line backwards. -/
def splitFrom (current : Bytes) : Bytes → List (Bytes × Bool)
  | [] => if current.isEmpty then [] else [(current.reverse, false)]
  | b :: bs =>
    if b = lineFeed then (current.reverse, true) :: splitFrom [] bs
    else splitFrom (b :: current) bs

/-- The lines of a stream, each with the mark whether a line feed ended it. -/
def split (bs : Bytes) : List (Bytes × Bool) := splitFrom [] bs

/-- Drop one carriage return at the end. -/
def dropReturn (line : Bytes) : Bytes :=
  if line.getLast? = some carriageReturn then line.dropLast else line

/-- The text of one line: its bytes without the line end. -/
def content : Bytes × Bool → Bytes
  | (line, true) => dropReturn line
  | (line, false) => line

/-- The texts of all lines. -/
def contents (bs : Bytes) : List Bytes := (split bs).map content

/-- Does the stream end inside a line? -/
def endsOpen (bs : Bytes) : Bool :=
  match bs.getLast? with
  | none => false
  | some b => b ≠ lineFeed

theorem splitFrom_line (current line rest : Bytes) (h : lineFeed ∉ line) :
    splitFrom current (line ++ lineFeed :: rest) =
      (current.reverse ++ line, true) :: splitFrom [] rest := by
  induction line generalizing current with
  | nil => simp [splitFrom]
  | cons b bs ih =>
    have hb : b ≠ lineFeed := fun e => h (by simp [e])
    have hbs : lineFeed ∉ bs := fun e => h (by simp [e])
    simp [splitFrom, hb, ih _ hbs]

/-- A complete line in front is split off as it is. -/
theorem split_append_line (line rest : Bytes) (h : lineFeed ∉ line) :
    split (line ++ lineFeed :: rest) = (line, true) :: split rest := by
  simpa [split] using splitFrom_line [] line rest h

end AgentSupervisor.Lines
