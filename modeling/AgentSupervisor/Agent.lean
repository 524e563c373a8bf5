import AgentSupervisor.Text.Blank

/-!
# Agent programs

The programs that can be supervised: their names, the command that launches each, and the
patterns by which a running one is recognised from its command line.

* `ofName?_name` : each agent is found under its own name.
-/

namespace AgentSupervisor

/-- An agent program. -/
inductive Agent where
  | claude
  | codex
  | gemini
  | amp
  | opencode
  | kiro
  deriving Repr, DecidableEq

namespace Agent

/-- All agents, in the order in which they are listed. -/
def all : List Agent := [.claude, .codex, .gemini, .amp, .opencode, .kiro]

/-- The name by which an agent is asked for. -/
def name : Agent → String
  | .claude => "claude"
  | .codex => "codex"
  | .gemini => "gemini"
  | .amp => "amp"
  | .opencode => "opencode"
  | .kiro => "kiro"

/-- The name shown to people. -/
def displayName : Agent → String
  | .claude => "Claude Code"
  | .codex => "Codex CLI"
  | .gemini => "Gemini CLI"
  | .amp => "Amp"
  | .opencode => "OpenCode"
  | .kiro => "Kiro CLI"

/-- The command that launches an agent when nothing else is asked for. -/
def defaultCommand : Agent → String
  | .kiro => "kiro-cli chat"
  | a => a.name

/-- The text of the pattern for a program that stands as a whole word in a command line. -/
def wordPattern (program : String) : String := "(^|[/\\s])" ++ program ++ "(\\s|$)"

/-- The patterns that recognise a running agent. -/
def patterns : Agent → List String
  | .claude => [wordPattern "claude", "claude-code"]
  | .codex => [wordPattern "codex", "@openai/codex"]
  | .gemini => [wordPattern "gemini", "@google/gemini-cli"]
  | .amp => [wordPattern "amp", "@sourcegraph/amp"]
  | .opencode => [wordPattern "opencode"]
  | .kiro => [wordPattern "kiro-cli", wordPattern "kiro"]

/-- The agent with exactly this name. -/
def ofName? (s : String) : Option Agent := all.find? fun a => a.name == s

/-- The agent that an operator means: blanks around the name and the case of ASCII letters do
    not matter. -/
def resolve? (s : String) : Option Agent :=
  ofName? (String.ofList ((Text.trimChars s.toList).map Char.toLower))

/-- What an operator is told about a name that no agent has. -/
def unknownMessage (s : String) : String :=
  "unknown agent: " ++ s ++ " (known agents: " ++ ", ".intercalate (all.map name) ++ ")"

theorem ofName?_name (a : Agent) : ofName? a.name = some a := by
  cases a <;> decide

end Agent

end AgentSupervisor
