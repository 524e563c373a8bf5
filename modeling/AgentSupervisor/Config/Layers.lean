import AgentSupervisor.Config.Basic
import AgentSupervisor.Toml.Overlay
import AgentSupervisor.Toml.Reader

/-!
# Settings from layers

Settings are written in layers, each a TOML table; later layers are laid over earlier ones and
the result is read as settings. Keys without a meaning are ignored. A group of settings may be
a table, or an array that gives the first settings of the group in order.

A delay or a number of attempts that is zero must have been set by its key: zero through an
array is refused.

* `ofLayers`  : the settings of a row of layers;
* `ofString`  : the settings of one document.
-/

namespace AgentSupervisor

namespace Toml

/-- A text: a string, or a moment, which stands for its spelling. -/
def text? : Toml → Option String
  | .string s => some s
  | .moment s => some s
  | _ => none

/-- A natural number below a bound. -/
def natural? (bound : Nat) : Toml → Option Nat
  | .integer n => if 0 ≤ n ∧ n < bound then some n.toNat else none
  | _ => none

/-- The value given for a setting that has several names: `none` when more than one is used. -/
def setting? (names : List String) (es : Entries) : Option (Option Toml) :=
  match names.filterMap fun n => find? n es with
  | [] => some none
  | [v] => some (some v)
  | _ => none

/-- What a value gives for the settings of a group, each with all its names. -/
def group? (names : List (List String)) : Toml → Option (List (Option Toml))
  | .table es => names.mapM fun ns => setting? ns es
  | .array vs =>
    if vs.length ≤ names.length then
      some (vs.map some ++ List.replicate (names.length - vs.length) none)
    else none
  | _ => none

/-- The value of a setting, or its default. -/
def orDefault {α : Type} (default : α) (read : Toml → Option α) : Option Toml → Option α
  | none => some default
  | some v => read v

end Toml

namespace TerminalConfig

/-- The names of the terminal settings. -/
def names : List (List String) :=
  [["preferred", "preferred_terminal"], ["spawn_delay_ms"], ["max_retry_attempts"]]

/-- Terminal settings from a value. -/
def ofToml? (v : Toml) : Option TerminalConfig := do
  match ← Toml.group? names v with
  | [preferred, delay, attempts] =>
    return {
      preferred := ← Toml.orDefault none (fun v => (Toml.text? v).map some) preferred
      spawnDelay :=
        ← Toml.orDefault 1000 (fun v => (Toml.natural? Text.bound64 v).map UInt64.ofNat) delay
      maxRetryAttempts :=
        ← Toml.orDefault 5 (fun v => (Toml.natural? Text.bound32 v).map UInt32.ofNat) attempts }
  | _ => none

end TerminalConfig

namespace AgentConfig

/-- The names of the agent settings. -/
def names : List (List String) := [["default"], ["commands"]]

/-- Put commands in the order of their agents. -/
def sortCommands (cs : List (String × String)) : List (String × String) :=
  cs.mergeSort fun a b => a.1 ≤ b.1

/-- Launch commands from a value. -/
def commandsOfToml? : Toml → Option (List (String × String))
  | .table es => (es.mapM fun e => (Toml.text? e.2).map fun t => (e.1, t)).map sortCommands
  | _ => none

/-- Agent settings from a value. -/
def ofToml? (v : Toml) : Option AgentConfig := do
  match ← Toml.group? names v with
  | [default, commands] =>
    return {
      default := ← Toml.orDefault none (fun v => (Toml.text? v).map some) default
      commands := ← Toml.orDefault [] commandsOfToml? commands }
  | _ => none

end AgentConfig

namespace InboxConfig

/-- The names of the inbox settings. -/
def names : List (List String) := [["max_age_secs"]]

/-- Inbox settings from a value. -/
def ofToml? (v : Toml) : Option InboxConfig := do
  match ← Toml.group? names v with
  | [age] =>
    return {
      maxAgeSeconds :=
        ← Toml.orDefault 86400 (fun v => (Toml.natural? Text.bound64 v).map UInt64.ofNat) age }
  | _ => none

end InboxConfig

namespace Config

/-- Settings from one table. -/
def ofEntries? (es : Toml.Entries) : Option Config := do
  return {
    terminal := ← Toml.orDefault {} TerminalConfig.ofToml? (Toml.find? "terminal" es)
    agent := ← Toml.orDefault {} AgentConfig.ofToml? (Toml.find? "agent" es)
    inbox := ← Toml.orDefault {} InboxConfig.ofToml? (Toml.find? "inbox" es) }

/-- Is a terminal setting set by its key? -/
def isSet (key : String) (es : Toml.Entries) : Bool :=
  match Toml.find? "terminal" es with
  | some (.table t) => (Toml.find? key t).isSome
  | _ => false

/-- Refuse a zero that nobody wrote. -/
def checkZeros (es : Toml.Entries) (c : Config) : Except ConfigError Config :=
  if c.terminal.spawnDelay = 0 ∧ !isSet "spawn_delay_ms" es then
    .error (.defaultMissing "terminal.spawn_delay_ms")
  else if c.terminal.maxRetryAttempts = 0 ∧ !isSet "max_retry_attempts" es then
    .error (.defaultMissing "terminal.max_retry_attempts")
  else .ok c

/-- All layers laid over each other. -/
def merged (layers : List Toml.Entries) : Toml.Entries := layers.foldl Toml.overlay []

/-- The settings of a row of layers, the last one on top. -/
def ofLayers (layers : List Toml.Entries) : Except ConfigError Config :=
  match ofEntries? (merged layers) with
  | none => .error .invalid
  | some c => checkZeros (merged layers) c

/-- The settings of one document. -/
def ofString (s : String) : Except ConfigError Config :=
  match Toml.ofString? s with
  | none => .error .invalid
  | some es => ofLayers [es]

end Config

end AgentSupervisor
