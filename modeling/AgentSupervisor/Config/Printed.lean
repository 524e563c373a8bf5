import AgentSupervisor.Config.Basic
import AgentSupervisor.Toml.Number
import AgentSupervisor.Toml.Writer

/-!
# Settings in print

Settings as a TOML document: the groups in a fixed order, absent settings left out, and the
group of agents left out where it would hold nothing but the commands, which have a table of
their own.
-/

namespace AgentSupervisor.Config

/-- The line of a setting that may be absent. -/
def optionalLine (key : String) : Option String → List (String × List Char)
  | none => []
  | some s => [(key, Toml.writeString s)]

/-- The line of a number. -/
def numberLine (key : String) (n : Nat) : String × List Char := (key, Text.decimal n)

/-- The tables of the printed settings. -/
def sections (c : Config) : List Toml.Section :=
  [⟨"terminal", optionalLine "preferred" c.terminal.preferred ++
    [numberLine "spawn_delay_ms" c.terminal.spawnDelay.toNat,
      numberLine "max_retry_attempts" c.terminal.maxRetryAttempts.toNat]⟩] ++
  (if c.agent.default.isSome || c.agent.commands.isEmpty then
    [⟨"agent", optionalLine "default" c.agent.default⟩] else []) ++
  (if c.agent.commands.isEmpty then []
    else [⟨"agent.commands", c.agent.commands.map fun e => (e.1, Toml.writeString e.2)⟩]) ++
  [⟨"inbox", [numberLine "max_age_secs" c.inbox.maxAgeSeconds.toNat]⟩]

/-- The text of the settings. -/
def print (c : Config) : String := String.ofList (Toml.writeSections c.sections)

/-- The numbers among the settings. -/
def numbers (c : Config) : List Nat :=
  [c.terminal.spawnDelay.toNat, c.terminal.maxRetryAttempts.toNat, c.inbox.maxAgeSeconds.toNat]

/-- The printed settings. Not every number of 64 bits without a sign is one of TOML. -/
def printed (c : Config) : Except ConfigError String :=
  if c.numbers.all fun n => Toml.inRange n then .ok c.print else .error .unprintable

end AgentSupervisor.Config
