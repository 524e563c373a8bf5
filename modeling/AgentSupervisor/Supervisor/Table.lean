import AgentSupervisor.Session.Basic
import AgentSupervisor.Terminal.Transcript
import AgentSupervisor.Wire.Response

/-!
# The table of sessions

Every session that the supervisor has started and not yet dropped, with the number of its
process, its newest output and, once the process has been collected, its exit code.

* `find?`, `insert`, `erase` : the table by names;
* `Managed.drain` : what a look at the process adds to a record.
-/

namespace AgentSupervisor

/-- A session with its process. -/
structure Managed where
  session : Session
  pid : UInt32
  /-- the exit code of the process once it has been collected -/
  exitCode : Option Int32 := none
  transcript : Transcript := .empty
  deriving Repr, DecidableEq

namespace Managed

/-- The name of the session. -/
def name (m : Managed) : String := m.session.name

/-- Has the process not been collected yet? -/
def isRunning (m : Managed) : Bool := m.exitCode.isNone

/-- How many bytes of output are taken at once. -/
def chunkSize : Nat := 4096

/-- Output in the chunks in which it is taken. `left` bounds their number. -/
def chunksFrom : (left : Nat) → Bytes → List Bytes
  | 0, _ => []
  | left + 1, bs =>
    if bs.isEmpty then [] else bs.take chunkSize :: chunksFrom left (bs.drop chunkSize)

/-- Output in the chunks in which it is taken. -/
def chunks (bs : Bytes) : List Bytes := chunksFrom bs.length bs

/-- Look at the process: whether it has ended is asked first, then all output is taken, so
    nothing that was written before the end is lost. -/
def drain (m : Managed) (ended : Option Int32) (output : List Bytes) : Managed :=
  if m.isRunning then
    { m with transcript := output.foldl Transcript.append m.transcript, exitCode := ended }
  else m

/-- Whether the process has been seen to end. -/
def state (m : Managed) : SessionState := if m.isRunning then .running else .exited

end Managed

/-- The sessions of a supervisor. -/
abbrev SessionTable := List Managed

namespace SessionTable

/-- The record of a name. -/
def named? (t : SessionTable) (name : String) : Option Managed := t.find? fun m => m.name == name

/-- The table without the record of a name. -/
def without (t : SessionTable) (name : String) : SessionTable := t.filter fun m => m.name != name

/-- The table with a record, in place of one of the same name. -/
def insert (t : SessionTable) (m : Managed) : SessionTable := m :: t.without m.name

/-- The records sorted by name. -/
def sorted (t : SessionTable) : List Managed := t.mergeSort fun a b => a.name ≤ b.name

/-- Is a name taken? -/
def isTaken (t : SessionTable) (name : String) : Bool := (t.named? name).isSome

/-- The running session that uses an inbox. -/
def runningWith? (t : SessionTable) (inbox : InboxId) : Option Managed :=
  t.sorted.find? fun m => m.isRunning && m.session.inbox == inbox

/-- The table without the records that a new session replaces: those of its name and those that
    use its inbox. -/
def withoutReplaced (t : SessionTable) (s : Session) : SessionTable :=
  t.filter fun m => !(m.name == s.name || m.session.inbox == s.inbox)

/-- Does some record use a PID file? -/
def usesPidFile (t : SessionTable) (path : String) : Bool :=
  t.any fun m => m.session.pidFile == path

end SessionTable

end AgentSupervisor
