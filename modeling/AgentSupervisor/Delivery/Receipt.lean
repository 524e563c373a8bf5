import AgentSupervisor.Inbox.Message

/-!
# Delivery receipts

The two ways in which a message reaches a session, and what is reported about one delivery.
-/

namespace AgentSupervisor

/-- How messages reach a session. -/
inductive DeliveryMode where
  /-- they are queued in its inbox -/
  | inbox
  /-- they are typed into its terminal -/
  | terminal
  deriving Repr, DecidableEq

/-- What became of one message. -/
inductive Outcome where
  | queued (id : MessageId)
  | typed
  | failed (reason : String)
  deriving Repr, DecidableEq

/-- The report on one delivery. -/
structure Receipt where
  session : String
  mode : DeliveryMode
  outcome : Outcome
  deriving Repr, DecidableEq

namespace DeliveryMode

/-- The word for a mode. -/
def word : DeliveryMode → String
  | .inbox => "inbox"
  | .terminal => "pty"

/-- The mode of a word. -/
def ofWord? : String → Option DeliveryMode
  | "inbox" => some .inbox
  | "pty" => some .terminal
  | _ => none

/-- A mode as a JSON value. -/
def toJson (m : DeliveryMode) : Json := .string m.word

/-- A mode from a JSON value; `inner` within an alternative. -/
def ofJson? (inner : Bool) (j : Json) : Option DeliveryMode := (Json.word? inner j).bind ofWord?

end DeliveryMode

namespace Outcome

/-- The fields of an outcome, its tag first. -/
def members : Outcome → List (String × Json)
  | .queued id => [("outcome", .string "queued"), ("message_id", id.toJson)]
  | .typed => [("outcome", .string "typed")]
  | .failed reason => [("outcome", .string "failed"), ("reason", .string reason)]

/-- An outcome as a JSON value. -/
def toJson (o : Outcome) : Json := .object o.members

/-- An outcome from a JSON value. -/
def ofJson? (j : Json) : Option Outcome := do
  let (outcome, body) ← Json.tagged? "outcome" j
  match outcome with
  | "queued" =>
    match ← Json.fields? ["message_id"] body with
    | [id] => return .queued (← Json.required MessageId.ofJson? id)
    | _ => none
  | "typed" => (Json.fieldless? body).map fun _ => .typed
  | "failed" =>
    match ← Json.fields? ["reason"] body with
    | [reason] => return .failed (← Json.required Json.string? reason)
    | _ => none
  | _ => none

end Outcome

namespace Receipt

/-- Did the message reach the session? -/
def isDelivered (r : Receipt) : Bool :=
  match r.outcome with
  | .failed _ => false
  | _ => true

/-- A receipt as a JSON value: the fields of the outcome follow its own. -/
def toJson (r : Receipt) : Json :=
  .object ([("session", .string r.session), ("mode", r.mode.toJson)] ++ r.outcome.members)

/-- A receipt from a JSON value. As the outcome shares the object, no array is accepted. -/
def ofJson? (inner : Bool) : Json → Option Receipt
  | .object ms => do
    let session ← Json.member? "session" ms
    let mode ← Json.member? "mode" ms
    return {
      session := ← Json.required Json.string? session
      mode := ← Json.required (DeliveryMode.ofJson? inner) mode
      outcome := ← Outcome.ofJson?
        (.object (ms.filter fun m => m.1 != "session" && m.1 != "mode")) }
  | _ => none

end Receipt

end AgentSupervisor
