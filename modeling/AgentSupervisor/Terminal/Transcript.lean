import AgentSupervisor.Text.Lines

/-!
# Transcripts

The newest output of a session, up to a number of bytes. A line is what ends with a line feed,
or what follows the last one.

* `append` : more output, the oldest bytes making room;
* `tail`   : the last lines as text, ill-formed bytes replaced.
-/

namespace AgentSupervisor

/-- The newest output of a session. -/
structure Transcript where
  /-- how many bytes are kept -/
  capacity : Nat
  bytes : Bytes
  deriving Repr, DecidableEq

namespace Transcript

/-- How many bytes are kept when nothing else is asked for. -/
def defaultCapacity : Nat := 64 * 1024

/-- A transcript without output. -/
def empty (capacity : Nat := defaultCapacity) : Transcript := ⟨capacity, []⟩

/-- Add output. A chunk that fills the transcript replaces it; otherwise the oldest bytes go. -/
def append (t : Transcript) (data : Bytes) : Transcript :=
  if t.capacity ≤ data.length then
    { t with bytes := data.drop (data.length - t.capacity) }
  else
    let overflow := (t.bytes.length + data.length) - t.capacity
    { t with bytes := t.bytes.drop overflow ++ data }

/-- A stream without one line feed at its end. -/
def body (bs : Bytes) : Bytes := if bs.getLast? = some Lines.lineFeed then bs.dropLast else bs

/-- Walk backwards over bytes until `n` line feeds have been met, and give what lies behind
    the last of them. `after` is what has been walked over. -/
def behindLast : (n : Nat) → (backwards after : Bytes) → Bytes
  | 0, _, after => after
  | _, [], after => after
  | n + 1, b :: bs, after =>
    if b = Lines.lineFeed then
      if n = 0 then after else behindLast n bs (b :: after)
    else behindLast (n + 1) bs (b :: after)

/-- The bytes of the last lines. -/
def tailBytes (bs : Bytes) (n : Nat) : Bytes :=
  if n = 0 then []
  else
    let start := (body bs).length - (behindLast n (body bs).reverse []).length
    bs.drop start

/-- The last lines as text. -/
def tail (t : Transcript) (n : Nat) : String := Utf8.lossyString (tailBytes t.bytes n)

end Transcript

end AgentSupervisor
