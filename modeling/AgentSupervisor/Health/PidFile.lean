import AgentSupervisor.Files.Disk
import AgentSupervisor.Text.Blank
import AgentSupervisor.Text.Numeral

/-!
# PID files

What one look at a PID file finds. The number must be positive and fit 32 bits; a file that
holds anything else is still being written.
-/

namespace AgentSupervisor

/-- What one look at a PID file finds. -/
inductive PidRead where
  | missing
  /-- the file is there but holds no complete number -/
  | incomplete
  | found (pid : UInt32)
  deriving Repr, DecidableEq

namespace PidRead

/-- What the text of a PID file says. -/
def ofText (cs : List Char) : PidRead :=
  match Text.unsigned? Text.bound32 (Text.trimChars cs) with
  | some n => if n = 0 then .incomplete else .found (UInt32.ofNat n)
  | none => .incomplete

/-- One look at a PID file. -/
def ofFile (disk : Disk) (place : Place) : Except IoError PidRead :=
  match disk.readText place with
  | .ok cs => .ok (ofText cs)
  | .error .notFound => .ok .missing
  | .error e => .error e

end PidRead

end AgentSupervisor
