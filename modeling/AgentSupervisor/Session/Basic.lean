import AgentSupervisor.Delivery.Receipt
import AgentSupervisor.Session.Launch

/-!
# Sessions

One agent process with its PID file and its inbox. Everything that belongs to a session is
fixed when it is made: the paths follow from the name, and the patterns that recognise its
process are those of the agent and of the plan.
-/

namespace AgentSupervisor

/-- The directory below which everything is kept. -/
structure StateDir where
  root : String
  deriving Repr, DecidableEq

namespace StateDir

/-- The directory of PID files. -/
def pidDir (d : StateDir) : String := Path.join d.root "pids"

/-- The directory of inboxes. -/
def inboxDir (d : StateDir) : String := Path.join d.root "inbox"

/-- The name of the PID file of an inbox. -/
def pidFileName (inbox : InboxId) : String := inbox.text ++ ".pid"

/-- The path of the PID file of an inbox. -/
def pidFile (d : StateDir) (inbox : InboxId) : String := Path.join d.pidDir (pidFileName inbox)

end StateDir

/-- A session. -/
structure Session where
  name : String
  agent : Agent
  mode : DeliveryMode
  command : String
  pidFile : String
  inbox : InboxId
  startedAt : UInt64
  /-- the patterns that recognise its process -/
  patterns : List Pattern
  deriving Repr, DecidableEq

/-- Why a session cannot be made. -/
inductive SessionError where
  | emptyCommand
  /-- a pattern is broken -/
  | pattern
  deriving Repr, DecidableEq

/-- What an operator is told. -/
def SessionError.message : SessionError → String
  | .emptyCommand => "launch command is empty"
  | .pattern => "invalid process pattern"

namespace Session

/-- A new session. -/
def make (name : String) (agent : Agent) (mode : DeliveryMode) (plan : LaunchPlan)
    (dir : StateDir) (now : UInt64) : Except SessionError Session :=
  if Text.isBlankString plan.command then .error .emptyCommand
  else
    match (agent.patterns ++ plan.extraPatterns).mapM Pattern.ofString? with
    | none => .error .pattern
    | some patterns =>
      let inbox := InboxId.ofName name
      .ok { name, agent, mode, inbox, patterns
            command := plan.command
            pidFile := dir.pidFile inbox
            startedAt := now }

/-- The variables that its process finds in its environment. -/
def exports (s : Session) (dir : StateDir) : List (String × String) :=
  [(LaunchPlan.sessionVariable, s.name), (LaunchPlan.pidFileVariable, s.pidFile),
    (LaunchPlan.inboxVariable, s.inbox.text), (LaunchPlan.inboxDirVariable, dir.inboxDir)]

/-- Is a command line that of the session's process? -/
def recognises (s : Session) (commandLine : String) : Bool :=
  Pattern.acceptsAny s.patterns commandLine

end Session

end AgentSupervisor
