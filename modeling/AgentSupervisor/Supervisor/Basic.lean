import AgentSupervisor.Config.Basic
import AgentSupervisor.Inbox.Store
import AgentSupervisor.Process.Host
import AgentSupervisor.Supervisor.Names
import AgentSupervisor.Supervisor.Table

/-!
# The supervisor

The supervisor owns the table of sessions and the processes behind it, which live on a host. It
looks at the processes again and again: what their terminals show goes into the transcripts,
and a process that has ended is collected and its exit code kept. If the system does not tell the
exit code, the process is gone and its session counts as running for good.

* `health` : a health check of a session;
* `drain`  : a look at all processes.
-/

namespace AgentSupervisor

/-- A supervisor. -/
structure Supervisor where
  config : Config
  /-- where it keeps its state -/
  state : StateDir
  /-- the directory that it runs in -/
  dir : Place
  store : InboxStore
  table : SessionTable := []
  counters : NameCounters := {}
  deriving Repr, DecidableEq

/-- What chance gives to one request: an identity for a message and proposals for a name. -/
structure Draw where
  id : MessageId
  names : Nat → String

/-- Why a request is refused. -/
inductive RequestError where
  | noAgent
  | unknownAgent (name : String)
  | emptyName
  | nameInUse (name : String)
  /-- another session uses the inbox that a name leads to -/
  | sameInbox (name other : String)
  | session (e : SessionError)
  /-- the PID file of an earlier session cannot be removed -/
  | stalePidFile (e : IoError)
  | spawn (e : SpawnError)
  /-- what a process that cannot run its program makes of the request that it was started for -/
  | exec (e : ExecError)
  | badSignal (n : Int32)
  | signal (name : String) (e : SignalError)
  | notFound (name : String)
  | stillRunning (name : String)
  | health (e : IoError)
  /-- the line spells no request -/
  | invalidRequest
  deriving Repr, DecidableEq

/-- What a client is told. -/
def RequestError.message : RequestError → String
  | .noAgent => "no agent given and no [agent] default configured"
  | .unknownAgent name => Agent.unknownMessage name
  | .emptyName => "session name cannot be empty"
  | .nameInUse name => "session name already in use: " ++ name
  | .sameInbox name other => "session name " ++ name ++ " maps to the same inbox as " ++ other
  | .session e => "spawn failed: " ++ e.message
  | .stalePidFile e => "failed to clear stale PID file: " ++ e.message
  | .spawn e => "spawn failed: " ++ e.message
  | .exec e => "spawn failed: failed to exec: " ++ e.message
  | .badSignal n => "invalid signal number: " ++ String.ofList (Text.decimalInt n.toInt) ++
    " (must be 1-31)"
  | .signal name e => "failed to signal " ++ name ++ ": " ++ e.message
  | .notFound name => "session not found: " ++ name
  | .stillRunning name => "session is still running: " ++ name ++ " (kill it first)"
  | .health e => "health check failed: " ++ e.message
  | .invalidRequest => "invalid request"

namespace Supervisor

/-- The place of the PID file of a session. -/
def pidPlace (s : Supervisor) (session : Session) : Place := Place.ofPath s.dir session.pidFile

/-- The record of a name, which has to be there. -/
def record (s : Supervisor) (name : String) : Except RequestError Managed :=
  match s.table.named? name with
  | some m => .ok m
  | none => .error (.notFound name)

/-! ## Health -/

/-- The looks at the PID file of a session. -/
def looks (s : Supervisor) (h : Host) (session : Session) (policy : RetryPolicy) :
    Health.Looks IoError :=
  Health.looks (fun _ => PidRead.ofFile h.storage.disk (s.pidPlace session)) policy

/-- A health check of a session. -/
def health (s : Supervisor) (h : Host) (session : Session) (policy : RetryPolicy) :
    Except IoError Report :=
  Health.reportOf h.table session.patterns (s.looks h session policy)

/-- A process that has been collected is dead, whatever its PID file says. -/
def settledHealth (health : Health) (exitCode : Option Int32) : Health :=
  if exitCode.isSome then .crashed else health

/-! ## Looking at processes -/

/-- Look at the processes of records, one after another. -/
def drainAll : List Managed → Host → List Managed × Host
  | [], h => ([], h)
  | m :: ms, h =>
    if m.isRunning then
      let (output, ended, h) := h.collect m.pid
      let (ms, h) := drainAll ms h
      (m.drain ended (Managed.chunks output) :: ms, h)
    else
      let (ms, h) := drainAll ms h
      (m :: ms, h)

/-- Look at all processes. -/
def drain (s : Supervisor) (h : Host) : Supervisor × Host :=
  let (table, h) := drainAll s.table h
  ({ s with table }, h)

/-- Let the processes go on and look at them. -/
def watch (s : Supervisor) (h : Host) : Supervisor × Host := s.drain h.settle

end Supervisor

end AgentSupervisor
