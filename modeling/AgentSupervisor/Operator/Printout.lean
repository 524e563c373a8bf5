import AgentSupervisor.Agent
import AgentSupervisor.Wire.Response

/-!
# What the operator reads

What is printed about agents, sessions, deliveries and messages: tables with columns of a least
width, lines, or JSON. Values that have no record of their own are printed as objects with
their keys in alphabetical order.
-/

namespace AgentSupervisor.Printout

/-- A text in a column: blanks follow up to the width, counted in characters. -/
def column (width : Nat) (s : String) : String :=
  String.ofList (s.toList ++ List.replicate (width - s.length) ' ')

/-- Cells beside each other with a blank between them, the last one as it is. -/
def row (widths : List Nat) (cells : List String) (last : String) : String :=
  String.join ((widths.zip cells).map fun c => column c.1 c.2 ++ " ") ++ last ++ "\n"

/-- A value on a line of its own. -/
def jsonLine (j : Json) : String := j.text ++ "\n"

/-! ## Agents -/

/-- One agent on a line. -/
def agentRow (a : Agent) : String := row [10, 12] [a.name, a.displayName] a.defaultCommand

/-- One agent as a value. -/
def agentJson (a : Agent) : Json :=
  .object [("command", .string a.defaultCommand), ("display_name", .string a.displayName),
    ("name", .string a.name), ("patterns", .array (a.patterns.map .string))]

/-- All agents. -/
def agents (json : Bool) : String :=
  if json then jsonLine (.array (Agent.all.map agentJson)) else String.join (Agent.all.map agentRow)

/-! ## Sessions -/

/-- A number as text. -/
def number (n : Nat) : String := String.ofList (Text.decimal n)

/-- An exit code as text. -/
def code (n : Int32) : String := String.ofList (Text.decimalInt n.toInt)

/-- A verdict in words. -/
def health : Health → String
  | .alive pid => "alive (pid " ++ number pid.toNat ++ ")"
  | .unknown => "unknown"
  | .crashed => "crashed"

/-- The widths of the table of sessions. -/
def sessionWidths : List Nat := [24, 9, 6, 8, 8]

/-- The state of a session in words. -/
def state (exitCode : Option Int32) : String := exitCode.elim "running" fun n => "exit " ++ code n

/-- One session on a line. -/
def sessionRow (s : SessionInfo) : String :=
  row sessionWidths [s.name, s.agent, s.mode.word, number s.pid.toNat, state s.exitCode]
    (health s.health)

/-- The table of sessions. -/
def sessionTable (all : List SessionInfo) : String :=
  if all.isEmpty then "(no sessions)\n"
  else row sessionWidths ["NAME", "AGENT", "MODE", "PID", "STATE"] "HEALTH" ++
    String.join (all.map sessionRow)

/-- All sessions. -/
def sessions (json : Bool) (all : List SessionInfo) : String :=
  if json then jsonLine (.array (all.map SessionInfo.toJson)) else sessionTable all

/-- A verdict as a value with its keys in alphabetical order. -/
def healthJson : Health → Json
  | .alive pid => .object [("pid", .ofNat pid.toNat), ("status", .string "alive")]
  | h => h.toJson

/-- The status of a session. -/
def status (json : Bool) (name : String) (h : Health) (attempts : UInt32)
    (exitCode : Option Int32) : String :=
  if json then
    jsonLine (.object [("attempts", .ofNat attempts.toNat),
      ("exit_code", .ofOption Request.int32Json exitCode), ("health", healthJson h),
      ("name", .string name)])
  else name ++ ": " ++ health h ++ exitCode.elim "" (fun n => " (exit " ++ code n ++ ")") ++ "\n"

/-! ## Messages -/

/-- One message. -/
def message (json : Bool) (m : Message) : String :=
  if json then jsonLine m.toJson else m.id.text ++ "\t" ++ m.payload ++ "\n"

/-- How much has been pruned. -/
def pruned (messages inboxes : Nat) : String :=
  "Pruned " ++ number messages ++ " message(s) from " ++ number inboxes ++ " inbox(es)\n"

end AgentSupervisor.Printout
