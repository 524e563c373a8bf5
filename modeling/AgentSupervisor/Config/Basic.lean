import AgentSupervisor.Files.Error
import AgentSupervisor.Health.Policy

/-!
# Settings

The settings of the supervisor with their defaults, and what can go wrong when they are loaded
or printed. No number that is loaded or printed is above 2^63 - 1, because that is what a TOML
integer can hold.
-/

namespace AgentSupervisor

/-- Settings of terminals and of the time a spawn may take. -/
structure TerminalConfig where
  /-- the terminal program that is preferred -/
  preferred : Option String := none
  /-- the wait in milliseconds between two looks at a PID file -/
  spawnDelay : UInt64 := 1000
  /-- how often to look at a PID file -/
  maxRetryAttempts : UInt32 := 5
  deriving Repr, DecidableEq

/-- Settings of agents. -/
structure AgentConfig where
  /-- the agent of a spawn that names none -/
  default : Option String := none
  /-- launch commands by agent name, sorted by name -/
  commands : List (String × String) := []
  deriving Repr, DecidableEq

/-- Settings of inboxes. -/
structure InboxConfig where
  /-- messages older than this many seconds are dropped by pruning -/
  maxAgeSeconds : UInt64 := 86400
  deriving Repr, DecidableEq

/-- All settings. -/
structure Config where
  terminal : TerminalConfig := {}
  agent : AgentConfig := {}
  inbox : InboxConfig := {}
  deriving Repr, DecidableEq

/-- Why settings cannot be loaded, or printed. -/
inductive ConfigError where
  /-- a file cannot be read -/
  | read (path : String) (cause : IoError)
  /-- a file is not TOML -/
  | parse (path : String)
  /-- a setting has the wrong type -/
  | invalid
  /-- a number is zero although nobody set it -/
  | defaultMissing (field : String)
  /-- a number is too large to be printed -/
  | unprintable
  deriving Repr, DecidableEq

namespace AgentConfig

/-- The launch command set for an agent. -/
def command? (c : AgentConfig) (agent : String) : Option String := c.commands.lookup agent

end AgentConfig

namespace Config

/-- How to look for PID files. -/
def retryPolicy (c : Config) : RetryPolicy := ⟨c.terminal.maxRetryAttempts, c.terminal.spawnDelay⟩

/-- The age in milliseconds at which messages are dropped. -/
def maxAge (c : Config) : Nat := c.inbox.maxAgeSeconds.toNat * 1000

end Config

namespace ConfigError

/-- What an operator is told. -/
def message : ConfigError → String
  | .read path cause => "failed to read config " ++ path ++ ": " ++ cause.message
  | .parse path => "invalid config " ++ path
  | .invalid => "invalid config"
  | .defaultMissing field => "config field `" ++ field ++ "` resolved to zero but was never set"
  | .unprintable => "failed to serialize config"

end ConfigError

end AgentSupervisor
