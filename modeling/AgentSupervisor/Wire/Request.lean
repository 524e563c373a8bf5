import AgentSupervisor.Delivery.Receipt
import AgentSupervisor.Signal

/-!
# Requests

What a client can ask the supervisor for. A request is one line of JSON; a field with a
default may be left out.
-/

namespace AgentSupervisor

/-- What a new session should be. -/
structure SpawnRequest where
  /-- chosen by the supervisor when absent -/
  name : Option String := none
  /-- the configured default when absent -/
  agent : Option String := none
  mode : DeliveryMode := .terminal
  /-- appended to the launch command -/
  args : Option String := none
  /-- put in place of the launch command -/
  command : Option String := none
  rows : UInt16 := 24
  cols : UInt16 := 80
  deriving Repr, DecidableEq

/-- A request to the supervisor. -/
inductive Request where
  | ping
  | spawn (wanted : SpawnRequest)
  | list
  | status (name : String)
  | inject (name message : String) (id : Option MessageId)
  | kill (name : String) (signal : Int32)
  | tail (name : String) (lines : UInt64)
  | remove (name : String)
  | shutdown
  deriving Repr, DecidableEq

namespace Request

/-- The number of lines that `tail` gives when nothing else is asked for. -/
def defaultLines : UInt64 := 20

/-- The number of an integer of 32 bits as JSON. -/
def int32Json (n : Int32) : Json := .integer n.toInt

/-- A request as a JSON value. -/
def toJson : Request → Json
  | .ping => Json.tag "type" "ping" []
  | .spawn w => Json.tag "type" "spawn"
    [("name", .ofOption .string w.name), ("agent", .ofOption .string w.agent),
      ("mode", w.mode.toJson), ("args", .ofOption .string w.args),
      ("command", .ofOption .string w.command), ("rows", .ofNat w.rows.toNat),
      ("cols", .ofNat w.cols.toNat)]
  | .list => Json.tag "type" "list" []
  | .status name => Json.tag "type" "status" [("name", .string name)]
  | .inject name message id => Json.tag "type" "inject"
    [("name", .string name), ("message", .string message), ("id", .ofOption MessageId.toJson id)]
  | .kill name signal => Json.tag "type" "kill"
    [("name", .string name), ("signal", int32Json signal)]
  | .tail name lines => Json.tag "type" "tail"
    [("name", .string name), ("lines", .ofNat lines.toNat)]
  | .remove name => Json.tag "type" "remove" [("name", .string name)]
  | .shutdown => Json.tag "type" "shutdown" []

/-- The fields of a spawn request. -/
def spawnOfJson? (body : Json) : Option SpawnRequest := do
  let words := Json.orElse none (Json.nullable Json.string?)
  match ← Json.fields? ["name", "agent", "mode", "args", "command", "rows", "cols"] body with
  | [name, agent, mode, args, command, rows, cols] =>
    return {
      name := ← words name
      agent := ← words agent
      mode := ← Json.orElse .terminal (DeliveryMode.ofJson? true) mode
      args := ← words args
      command := ← words command
      rows := ← Json.orElse 24 Json.uint16? rows
      cols := ← Json.orElse 80 Json.uint16? cols }
  | _ => none

/-- The one field of a request that names a session. -/
def nameOfJson? (body : Json) : Option String := do
  match ← Json.fields? ["name"] body with
  | [name] => Json.required Json.string? name
  | _ => none

/-- A request from a JSON value. -/
def ofJson? (j : Json) : Option Request := do
  let (type, body) ← Json.tagged? "type" j
  match type with
  | "ping" => (Json.fieldless? body).map fun _ => .ping
  | "spawn" => (spawnOfJson? body).map .spawn
  | "list" => (Json.fieldless? body).map fun _ => .list
  | "status" => (nameOfJson? body).map .status
  | "inject" =>
    match ← Json.fields? ["name", "message", "id"] body with
    | [name, message, id] =>
      return .inject (← Json.required Json.string? name) (← Json.required Json.string? message)
        (← Json.orElse none (Json.nullable MessageId.ofJson?) id)
    | _ => none
  | "kill" =>
    match ← Json.fields? ["name", "signal"] body with
    | [name, signal] =>
      return .kill (← Json.required Json.string? name)
        (← Json.orElse Signal.terminate Json.int32? signal)
    | _ => none
  | "tail" =>
    match ← Json.fields? ["name", "lines"] body with
    | [name, lines] =>
      return .tail (← Json.required Json.string? name)
        (← Json.orElse defaultLines Json.uint64? lines)
    | _ => none
  | "remove" => (nameOfJson? body).map .remove
  | "shutdown" => (Json.fieldless? body).map fun _ => .shutdown
  | _ => none

/-- The text of a request, without its line feed. -/
def text (r : Request) : List Char := r.toJson.render

/-- The request that a line spells. -/
def ofText? (cs : List Char) : Option Request := (Json.parse? cs).bind ofJson?

end Request

end AgentSupervisor
