import AgentSupervisor.CommandLine.Grammar
import AgentSupervisor.Text.Numeral
import AgentSupervisor.Wire.Request

/-!
# The command line of the supervisor

What an operator may ask for on the command line: the subcommands with their options, and the
options that stand at every level.

* `Invocation.read` : what a command line asks for.
-/

namespace AgentSupervisor

open CommandLine

/-- What is asked of an inbox. -/
inductive InboxCommand where
  | send (inbox message : String) (id sender : Option String)
  | poll (inbox : String) (json : Bool)
  | ack (inbox id : String)
  /-- prune one inbox or all, by an age in seconds or the configured one -/
  | prune (inbox : Option String) (maxAge : Option UInt64)
  deriving Repr, DecidableEq

/-- What is asked for. -/
inductive Command where
  | server
  | spawn (wanted : SpawnRequest)
  | list (json : Bool)
  | status (session : String) (json : Bool)
  | inject (session message : String) (id : Option String)
  | kill (session : String) (signal : Int32)
  | tail (session : String) (lines : UInt64)
  | remove (session : String)
  | shutdown
  | agents (json : Bool)
  | config
  | inbox (command : InboxCommand)
  | doctor
  deriving Repr, DecidableEq

/-- A whole command line. -/
structure Invocation where
  socket : Option String
  config : Option String
  stateDir : Option String
  verbose : Bool
  command : Command
  deriving Repr, DecidableEq

namespace Invocation

/-! ## Values -/

/-- A number of 16 bits. It may be written with a sign. -/
def uint16? (s : String) : Option UInt16 :=
  (Text.signed? 0 65535 s.toList).map fun n => UInt16.ofNat n.toNat

/-- A number of 64 bits. -/
def uint64? (s : String) : Option UInt64 :=
  (Text.unsigned? Text.bound64 s.toList).map UInt64.ofNat

/-- A signal by number or name. -/
def signal? (s : String) : Option Int32 := (Signal.ofText? s).map Int32.ofInt

/-! ## The grammar -/

/-- An option with a value that has to pass a check. -/
def checked (key : String) (check : String → Bool) (long : Option String := some key)
    (short : Option Char := none) : Switch :=
  { key, long, short, action := .value false check }

/-- An option with any value. -/
def text (key : String) (short : Option Char := none) : Switch :=
  checked key (fun _ => true) (some key) short

/-- An option with a path, which may also come from the environment. -/
def path (key envName : String) : Switch :=
  { checked key (fun s => !s.isEmpty) with envName := some envName }

/-- A flag. -/
def flag (key : String) (short : Option Char := none) : Switch :=
  { key, long := some key, short, action := .flag }

/-- The variables that give values of options. -/
def envNames : List String := ["CORRAL_SOCKET", "CORRAL_CONFIG", "CORRAL_STATE_DIR"]

/-- The options of every level. -/
def everywhere : List Switch :=
  [path "socket" "CORRAL_SOCKET", path "config" "CORRAL_CONFIG",
    path "state-dir" "CORRAL_STATE_DIR", flag "verbose" (some 'v'),
    { key := "help", long := some "help", short := some 'h', action := .help }]

/-- A subcommand. -/
def sub (name : String) (switches : List Switch) (words : List Positional) : Grammar :=
  .mk name (switches ++ everywhere) words []

/-- A word that has to be there. -/
def needed (key : String) : Positional := ⟨key, true⟩

/-- A word that may be there. -/
def allowed (key : String) : Positional := ⟨key, false⟩

/-- The subcommands for inboxes. -/
def inboxCommands : List Grammar :=
  [sub "send" [text "id", text "from"] [needed "inbox", needed "message"],
    sub "poll" [flag "json"] [needed "inbox"],
    sub "ack" [] [needed "inbox", needed "word-id"],
    sub "prune" [checked "max-age-secs" fun s => (uint64? s).isSome] [allowed "inbox"]]

/-- The options of `spawn`. -/
def spawnSwitches : List Switch :=
  [text "name" (some 'n'),
    checked "mode" (fun s => (DeliveryMode.ofWord? s).isSome) (some "mode") (some 'm'),
    { key := "args", long := some "args", action := .value true fun _ => true },
    text "command",
    checked "rows" fun s => (uint16? s).isSome,
    checked "cols" fun s => (uint16? s).isSome]

/-- All subcommands. -/
def commands : List Grammar :=
  [sub "server" [] [],
    sub "spawn" spawnSwitches [allowed "agent"],
    sub "list" [flag "json"] [],
    sub "status" [flag "json"] [needed "session"],
    sub "inject" [text "id"] [needed "session", needed "message"],
    sub "kill" [checked "signal" (fun s => (signal? s).isSome) (some "signal") (some 's')]
      [needed "session"],
    sub "tail" [checked "lines" (fun s => (uint64? s).isSome) none (some 'n')] [needed "session"],
    sub "remove" [] [needed "session"],
    sub "shutdown" [] [],
    sub "agents" [flag "json"] [],
    sub "config" [] [],
    .mk "inbox" everywhere [] inboxCommands,
    sub "doctor" [] []]

/-- The whole grammar. -/
def grammar : Grammar :=
  .mk "corral"
    (everywhere ++
      [{ key := "version", long := some "version", short := some 'V', action := .version }])
    [] commands

/-! ## Meaning -/

/-- A value that is given, or a default. -/
def valueOr {α : Type} (ls : List Level) (key : String) (read : String → Option α) (default : α) :
    Option α :=
  match value? ls key with
  | none => some default
  | some v => read v

/-- What is asked of an inbox. -/
def inboxOf? (name : String) (ls : List Level) : Option InboxCommand := do
  match name with
  | "send" =>
    return .send (← value? ls "inbox") (← value? ls "message") (value? ls "id") (value? ls "from")
  | "poll" => return .poll (← value? ls "inbox") (CommandLine.isSet ls "json")
  | "ack" => return .ack (← value? ls "inbox") (← value? ls "word-id")
  | "prune" =>
    return .prune (value? ls "inbox")
      (← valueOr ls "max-age-secs" (fun s => (uint64? s).map some) none)
  | _ => none

/-- What a spawn wants. -/
def spawnOf? (ls : List Level) : Option SpawnRequest := do
  return {
    agent := value? ls "agent"
    name := value? ls "name"
    mode := ← valueOr ls "mode" DeliveryMode.ofWord? .terminal
    args := value? ls "args"
    command := value? ls "command"
    rows := ← valueOr ls "rows" uint16? 24
    cols := ← valueOr ls "cols" uint16? 80 }

/-- What is asked for, by the names of the subcommands. -/
def commandOf? (names : List String) (ls : List Level) : Option Command := do
  match names with
  | ["server"] => return .server
  | ["spawn"] => return .spawn (← spawnOf? ls)
  | ["list"] => return .list (CommandLine.isSet ls "json")
  | ["status"] => return .status (← value? ls "session") (CommandLine.isSet ls "json")
  | ["inject"] => return .inject (← value? ls "session") (← value? ls "message") (value? ls "id")
  | ["kill"] =>
    return .kill (← value? ls "session") (← valueOr ls "signal" signal? Signal.terminate)
  | ["tail"] =>
    return .tail (← value? ls "session") (← valueOr ls "lines" uint64? Request.defaultLines)
  | ["remove"] => return .remove (← value? ls "session")
  | ["shutdown"] => return .shutdown
  | ["agents"] => return .agents (CommandLine.isSet ls "json")
  | ["config"] => return .config
  | ["inbox", name] => return .inbox (← inboxOf? name ls)
  | ["doctor"] => return .doctor
  | _ => none

/-- What the levels of a line ask for. -/
def ofLevels? (ls : List Level) : Option Invocation := do
  return {
    socket := value? ls "socket"
    config := value? ls "config"
    stateDir := value? ls "state-dir"
    verbose := CommandLine.isSet ls "verbose"
    command := ← commandOf? (ls.tail.map Level.name) ls }

/-- What a command line asks for. The first word is the name of the program. -/
def read (lookup : String → Option String) (words : List String) :
    Except Refusal Invocation := do
  match ofLevels? (← levels lookup grammar {} words.tail) with
  | some i => return i
  | none => .error .usage

end Invocation

end AgentSupervisor
