import AgentSupervisor.Inbox.Id
import AgentSupervisor.Json.Shape
import AgentSupervisor.Json.Reader
import AgentSupervisor.Text.Utf8

/-!
# Messages and log records

What an inbox holds: messages, and the records by which its log tells them and their
acknowledgements. Both have a JSON text, one record a line.
-/

namespace AgentSupervisor

/-- The identity of a message within its inbox. -/
structure MessageId where
  text : String
  deriving Repr, DecidableEq

/-- Two hexadecimal digits. -/
def MessageId.hexByte (b : UInt8) : List Char :=
  [Json.hexDigit (b.toNat / 16), Json.hexDigit (b.toNat % 16)]

/-- The identity that 16 random bytes make: hexadecimal digits in five groups. Six of the bits
    say that it is random. -/
def MessageId.ofBytes (bs : Bytes) : MessageId :=
  let digits := bs.zipIdx.flatMap fun b =>
    (if b.2 = 4 ∨ b.2 = 6 ∨ b.2 = 8 ∨ b.2 = 10 then ['-'] else []) ++
      MessageId.hexByte (if b.2 = 6 then b.1 &&& 15 ||| 64
        else if b.2 = 8 then b.1 &&& 63 ||| 128 else b.1)
  ⟨String.ofList digits⟩

/-- A message in an inbox. Times count milliseconds since 1970. -/
structure Message where
  id : MessageId
  inbox : InboxId
  payload : String
  enqueuedAt : UInt64
  sender : Option String
  deriving Repr, DecidableEq

/-- One line of an inbox log. -/
inductive Record where
  | message (m : Message)
  /-- the message of this identity has been dealt with -/
  | ack (id : MessageId) (ackedAt : UInt64)
  deriving Repr, DecidableEq

/-! ## JSON -/

namespace InboxId

/-- An inbox name is written as a string. -/
def toJson (i : InboxId) : Json := .string i.text

/-- Any string is read as an inbox name. -/
def ofJson? (j : Json) : Option InboxId := (Json.string? j).map InboxId.mk

end InboxId

namespace MessageId

/-- A message identity is written as a string. -/
def toJson (i : MessageId) : Json := .string i.text

/-- Any string is read as a message identity. -/
def ofJson? (j : Json) : Option MessageId := (Json.string? j).map MessageId.mk

end MessageId

namespace Message

/-- The fields of a message in order. A missing sender is left out. -/
def members (m : Message) : List (String × Json) :=
  [("id", m.id.toJson), ("inbox", m.inbox.toJson), ("payload", .string m.payload),
    ("enqueued_at", .ofNat m.enqueuedAt.toNat)] ++
  match m.sender with
  | none => []
  | some s => [("sender", .string s)]

/-- A message as a JSON value. -/
def toJson (m : Message) : Json := .object m.members

/-- A message from a JSON value. -/
def ofJson? (j : Json) : Option Message := do
  match ← Json.fields? ["id", "inbox", "payload", "enqueued_at", "sender"] j with
  | [id, inbox, payload, enqueuedAt, sender] =>
    return {
      id := ← Json.required MessageId.ofJson? id
      inbox := ← Json.required InboxId.ofJson? inbox
      payload := ← Json.required Json.string? payload
      enqueuedAt := ← Json.required Json.uint64? enqueuedAt
      sender := ← Json.orElse none (Json.nullable Json.string?) sender }
  | _ => none

end Message

namespace Record

/-- A record as a JSON value. -/
def toJson : Record → Json
  | .message m => Json.tag "kind" "message" m.members
  | .ack id at_ => Json.tag "kind" "ack" [("id", id.toJson), ("acked_at", .ofNat at_.toNat)]

/-- A record from a JSON value. -/
def ofJson? (j : Json) : Option Record := do
  let (kind, body) ← Json.tagged? "kind" j
  match kind with
  | "message" => (Message.ofJson? body).map .message
  | "ack" =>
    match ← Json.fields? ["id", "acked_at"] body with
    | [id, ackedAt] =>
      return .ack (← Json.required MessageId.ofJson? id) (← Json.required Json.uint64? ackedAt)
    | _ => none
  | _ => none

/-- The line of a record, without its line feed. -/
def text (r : Record) : List Char := r.toJson.render

/-- The record that a line spells. -/
def ofText? (cs : List Char) : Option Record := (Json.parse? cs).bind ofJson?

end Record

end AgentSupervisor
