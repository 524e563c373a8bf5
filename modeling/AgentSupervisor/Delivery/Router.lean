import AgentSupervisor.Health.Check
import AgentSupervisor.Inbox.Store
import AgentSupervisor.Session.Basic
import AgentSupervisor.Terminal.Injection

/-!
# Delivering messages

A message for a session goes the way that the session's mode says and never the other one: into
its inbox, or into its terminal. Before typing, the health of the session may be asked for; a
crashed session gets nothing. An inbox is not gated, because its messages wait for the agent to
come back.

* `deliverOn` : a delivery with the fault that the storage of the inboxes meets with, if any;
* `deliver`   : a delivery on storage that does not fail.
-/

namespace AgentSupervisor.Router

/-- The sender of messages put into inboxes. -/
def sender : String := "corral"

/-- Why nothing may be typed, by the answer of a health check. -/
def refusal? : Except IoError Report → Option String
  | .error e => some ("health check failed: " ++ e.message)
  | .ok r => if r.health = .crashed then some "session process has crashed" else none

/-- What a delivery leads to. -/
structure Delivery where
  receipt : Receipt
  storage : Storage
  terminal : Option Terminal
  /-- what the terminal took -/
  typed : Bytes := []
  /-- the milliseconds slept while typing -/
  slept : Nat := 0

/-- The message that is put into an inbox. -/
def envelope (session : Session) (message : String) (id : MessageId) (now : UInt64) : Message :=
  { id, inbox := session.inbox, payload := message, enqueuedAt := now, sender := some sender }

/-- Put a message into the inbox of a session, on storage that may fail. -/
def queueOn (fault : Option InboxStore.Fault) (store : InboxStore) (session : Session)
    (message : String) (id : MessageId) (terminal : Option Terminal) (storage : Storage) :
    Delivery :=
  match InboxStore.enqueueOn fault store
      (envelope session message id (UInt64.ofNat storage.now)) storage with
  | (.ok id, storage) => ⟨⟨session.name, .inbox, .queued id⟩, storage, terminal, [], 0⟩
  | (.error e, storage) =>
    ⟨⟨session.name, .inbox, .failed e.message⟩, storage, terminal, [], 0⟩

/-- Type a message into the terminal of a session. -/
def type (settle : Nat) (session : Session) (message : String) (terminal : Option Terminal)
    (storage : Storage) : Delivery :=
  match terminal with
  | none =>
    ⟨⟨session.name, .terminal, .failed "session has no terminal attached"⟩, storage, none, [], 0⟩
  | some t =>
    let typing := t.inject settle (Utf8.encode message)
    let outcome := match typing.outcome with
      | .ok () => Outcome.typed
      | .error e => .failed e.message
    ⟨⟨session.name, .terminal, outcome⟩, storage, some typing.terminal, typing.accepted,
      typing.slept⟩

/-- Deliver a message, on storage that may fail. `health` is the answer of the health check, if
    there is a gate; `id` is the identity that the message has in an inbox. -/
def deliverOn (fault : Option InboxStore.Fault) (store : InboxStore) (settle : Nat)
    (session : Session) (message : String) (id : MessageId)
    (health : Option (Except IoError Report)) (terminal : Option Terminal) (storage : Storage) :
    Delivery :=
  match session.mode with
  | .inbox => queueOn fault store session message id terminal storage
  | .terminal =>
    match health.bind refusal? with
    | some reason => ⟨⟨session.name, .terminal, .failed reason⟩, storage, terminal, [], 0⟩
    | none => type settle session message terminal storage

/-- Deliver a message, on storage that does not fail. -/
def deliver (store : InboxStore) (settle : Nat) (session : Session) (message : String)
    (id : MessageId) (health : Option (Except IoError Report)) (terminal : Option Terminal)
    (storage : Storage) : Delivery :=
  deliverOn none store settle session message id health terminal storage

end AgentSupervisor.Router
