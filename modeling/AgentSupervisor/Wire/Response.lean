import AgentSupervisor.Wire.Request
import AgentSupervisor.Health.Verdict

/-!
# Responses

What the supervisor answers, one line of JSON for each request.
-/

namespace AgentSupervisor

/-- Whether the process of a session has been seen to end. -/
inductive SessionState where
  | running
  | exited
  deriving Repr, DecidableEq

/-- One row of the list of sessions. -/
structure SessionInfo where
  name : String
  agent : String
  mode : DeliveryMode
  pid : UInt32
  state : SessionState
  health : Health
  command : String
  inbox : InboxId
  startedAt : UInt64
  exitCode : Option Int32
  deriving Repr, DecidableEq

/-- An answer of the supervisor. -/
inductive Response where
  | ok
  | pong
  | spawned (name : String) (pid : UInt32) (agent : String) (mode : DeliveryMode)
  | sessions (all : List SessionInfo)
  | status (name : String) (health : Health) (attempts : UInt32) (exitCode : Option Int32)
  | receipt (r : Receipt)
  | output (data : String)
  | error (message : String)
  deriving Repr, DecidableEq

namespace SessionState

/-- The word for a state. -/
def word : SessionState → String
  | .running => "running"
  | .exited => "exited"

/-- The state of a word. -/
def ofWord? : String → Option SessionState
  | "running" => some .running
  | "exited" => some .exited
  | _ => none

/-- A state as a JSON value. -/
def toJson (s : SessionState) : Json := .string s.word

/-- A state from a JSON value; `inner` within an alternative. -/
def ofJson? (inner : Bool) (j : Json) : Option SessionState := (Json.word? inner j).bind ofWord?

end SessionState

namespace SessionInfo

/-- A row as a JSON value. -/
def toJson (s : SessionInfo) : Json :=
  .object [("name", .string s.name), ("agent", .string s.agent), ("mode", s.mode.toJson),
    ("pid", .ofNat s.pid.toNat), ("state", s.state.toJson), ("health", s.health.toJson),
    ("command", .string s.command), ("inbox", s.inbox.toJson),
    ("started_at", .ofNat s.startedAt.toNat),
    ("exit_code", .ofOption Request.int32Json s.exitCode)]

/-- A row from a JSON value; `inner` within an alternative. -/
def ofJson? (inner : Bool) (j : Json) : Option SessionInfo := do
  match ← Json.fields? ["name", "agent", "mode", "pid", "state", "health", "command", "inbox",
      "started_at", "exit_code"] j with
  | [name, agent, mode, pid, state, health, command, inbox, startedAt, exitCode] =>
    return {
      name := ← Json.required Json.string? name
      agent := ← Json.required Json.string? agent
      mode := ← Json.required (DeliveryMode.ofJson? inner) mode
      pid := ← Json.required Json.uint32? pid
      state := ← Json.required (SessionState.ofJson? inner) state
      health := ← Json.required Health.ofJson? health
      command := ← Json.required Json.string? command
      inbox := ← Json.required InboxId.ofJson? inbox
      startedAt := ← Json.required Json.uint64? startedAt
      exitCode := ← Json.orElse none (Json.nullable Json.int32?) exitCode }
  | _ => none

end SessionInfo

namespace Response

/-- A response as a JSON value. -/
def toJson : Response → Json
  | .ok => Json.tag "type" "ok" []
  | .pong => Json.tag "type" "pong" []
  | .spawned name pid agent mode => Json.tag "type" "spawned"
    [("name", .string name), ("pid", .ofNat pid.toNat), ("agent", .string agent),
      ("mode", mode.toJson)]
  | .sessions all => Json.tag "type" "sessions" [("sessions", .array (all.map SessionInfo.toJson))]
  | .status name health attempts exitCode => Json.tag "type" "status"
    [("name", .string name), ("health", health.toJson), ("attempts", .ofNat attempts.toNat),
      ("exit_code", .ofOption Request.int32Json exitCode)]
  | .receipt r => Json.tag "type" "receipt" [("receipt", r.toJson)]
  | .output data => Json.tag "type" "output" [("data", .string data)]
  | .error message => Json.tag "type" "error" [("message", .string message)]

/-- A response from a JSON value. -/
def ofJson? (j : Json) : Option Response := do
  let (type, body) ← Json.tagged? "type" j
  match type with
  | "ok" => (Json.fieldless? body).map fun _ => .ok
  | "pong" => (Json.fieldless? body).map fun _ => .pong
  | "spawned" =>
    match ← Json.fields? ["name", "pid", "agent", "mode"] body with
    | [name, pid, agent, mode] =>
      return .spawned (← Json.required Json.string? name) (← Json.required Json.uint32? pid)
        (← Json.required Json.string? agent) (← Json.required (DeliveryMode.ofJson? true) mode)
    | _ => none
  | "sessions" =>
    match ← Json.fields? ["sessions"] body with
    | [all] => return .sessions (← Json.required (Json.list? (SessionInfo.ofJson? true)) all)
    | _ => none
  | "status" =>
    match ← Json.fields? ["name", "health", "attempts", "exit_code"] body with
    | [name, health, attempts, exitCode] =>
      return .status (← Json.required Json.string? name) (← Json.required Health.ofJson? health)
        (← Json.required Json.uint32? attempts)
        (← Json.orElse none (Json.nullable Json.int32?) exitCode)
    | _ => none
  | "receipt" =>
    match ← Json.fields? ["receipt"] body with
    | [r] => return .receipt (← Json.required (Receipt.ofJson? true) r)
    | _ => none
  | "output" =>
    match ← Json.fields? ["data"] body with
    | [data] => return .output (← Json.required Json.string? data)
    | _ => none
  | "error" =>
    match ← Json.fields? ["message"] body with
    | [message] => return .error (← Json.required Json.string? message)
    | _ => none
  | _ => none

/-- The text of a response, without its line feed. -/
def text (r : Response) : List Char := r.toJson.render

/-- The response that a line spells. -/
def ofText? (cs : List Char) : Option Response := (Json.parse? cs).bind ofJson?

end Response

end AgentSupervisor
