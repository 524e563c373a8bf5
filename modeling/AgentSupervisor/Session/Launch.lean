import AgentSupervisor.Agent
import AgentSupervisor.Config.Basic
import AgentSupervisor.Files.Path
import AgentSupervisor.Pattern.Reader

/-!
# Launch plans

Which command a session runs. An override comes first, then the command set for the agent, then
the agent's own; blanks around a command do not matter. A blank override still hides the command
that is set. Arguments are added as one text.

The command is run by a shell that writes its own process number and then becomes the command,
so the number in the PID file is that of the agent.
-/

namespace AgentSupervisor

/-- What a session runs. -/
structure LaunchPlan where
  /-- the command line of the agent -/
  command : String
  /-- patterns for a program other than the agent's own -/
  extraPatterns : List String
  deriving Repr, DecidableEq

namespace LaunchPlan

/-- The variable that holds the name of the session. -/
def sessionVariable : String := "CORRAL_SESSION"

/-- The variable that holds the path of the PID file. -/
def pidFileVariable : String := "CORRAL_PID_FILE"

/-- The variable that holds the name of the inbox. -/
def inboxVariable : String := "CORRAL_INBOX"

/-- The variable that holds the directory of all inboxes. -/
def inboxDirVariable : String := "CORRAL_INBOX_DIR"

/-- A text without the blanks at its ends, if anything is left. -/
def nonblank? (s : String) : Option String :=
  let t := Text.trim s
  if t.isEmpty then none else some t

/-- The command that someone chose in place of the agent's own. -/
def custom? (agent : Agent) (override : Option String) (config : AgentConfig) : Option String :=
  (override <|> config.command? agent.name).bind nonblank?

/-- The pattern for the program of a command: the last name of its first word, taken literally,
    as a whole word. -/
def programPattern? (command : String) : Option String :=
  match Text.firstWord command.toList with
  | [] => none
  | word =>
    (Path.fileName? word).map fun name =>
      Agent.wordPattern (String.ofList (Pattern.quoteText name))

/-- A command with its arguments. -/
def withArguments (base : String) (arguments : Option String) : String :=
  match arguments.bind nonblank? with
  | some a => base ++ " " ++ a
  | none => base

/-- The plan for an agent. -/
def make (agent : Agent) (override : Option String) (config : AgentConfig)
    (arguments : Option String) : LaunchPlan :=
  let custom := custom? agent override config
  { command := withArguments (custom.getD agent.defaultCommand) arguments
    extraPatterns := (custom.bind programPattern?).toList }

/-- The words of the process that is started. -/
def argv (p : LaunchPlan) : List String :=
  ["sh", "-c", "echo $$ > \"$" ++ pidFileVariable ++ "\" && exec " ++ p.command]

end LaunchPlan

end AgentSupervisor
