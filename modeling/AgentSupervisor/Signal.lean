import AgentSupervisor.Text.Blank
import AgentSupervisor.Text.Numeral

/-!
# Signals

The signals that can be sent to a process, by number or by name. The names are those of
Linux, 1 to 31 in order, with or without `SIG` in front and in any case.
-/

namespace AgentSupervisor.Signal

/-- The names of the signals 1 to 31, in order. -/
def names : List String :=
  ["HUP", "INT", "QUIT", "ILL", "TRAP", "ABRT", "BUS", "FPE", "KILL", "USR1", "SEGV", "USR2",
    "PIPE", "ALRM", "TERM", "STKFLT", "CHLD", "CONT", "STOP", "TSTP", "TTIN", "TTOU", "URG",
    "XCPU", "XFSZ", "VTALRM", "PROF", "WINCH", "IO", "PWR", "SYS"]

/-- The largest signal number. -/
def last : Int := 31

/-- The signal that asks a process to end. -/
def terminate : Int32 := 15

/-- Is there a signal of this number? -/
def isValid (n : Int32) : Bool := 1 ≤ n.toInt && n.toInt ≤ last

/-- Text in upper-case ASCII. -/
def upper (cs : List Char) : List Char := cs.map Char.toUpper

/-- A name without `SIG` in front. -/
def stem : List Char → List Char
  | 'S' :: 'I' :: 'G' :: r => r
  | r => r

/-- The number of a signal given as text: any number of 32 bits, or a name. -/
def ofText? (s : String) : Option Int :=
  let cs := Text.trimChars s.toList
  match Text.signed? (-2147483648) 2147483647 cs with
  | some n => some n
  | none =>
    let wanted := String.ofList (stem (upper cs))
    (names.findIdx? (· == wanted)).map fun i => (i : Int) + 1

/-- What an operator is told about a text that names no signal. -/
def unknownMessage (s : String) : String := "unknown signal: " ++ Text.trim s

end AgentSupervisor.Signal
