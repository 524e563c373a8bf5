import AgentSupervisor.Json.Shape

/-!
# Health of a supervised process

The verdict of a health check. `unknown` is the verdict when the evidence is not in; a process
is only called crashed on positive evidence.
-/

namespace AgentSupervisor

/-- The verdict of a health check. -/
inductive Health where
  | alive (pid : UInt32)
  | unknown
  | crashed
  deriving Repr, DecidableEq

namespace Health

/-- A verdict as a JSON value. -/
def toJson : Health → Json
  | .alive pid => Json.tag "status" "alive" [("pid", .ofNat pid.toNat)]
  | .unknown => Json.tag "status" "unknown" []
  | .crashed => Json.tag "status" "crashed" []

/-- A verdict from a JSON value. -/
def ofJson? (j : Json) : Option Health := do
  let (status, body) ← Json.tagged? "status" j
  match status with
  | "alive" =>
    match ← Json.fields? ["pid"] body with
    | [pid] => return .alive (← Json.required Json.uint32? pid)
    | _ => none
  | "unknown" => (Json.fieldless? body).map fun _ => .unknown
  | "crashed" => (Json.fieldless? body).map fun _ => .crashed
  | _ => none

end Health

end AgentSupervisor
