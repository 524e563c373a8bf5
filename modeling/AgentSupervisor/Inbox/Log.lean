import AgentSupervisor.Files.Error
import AgentSupervisor.Inbox.Message
import AgentSupervisor.Text.Blank
import AgentSupervisor.Text.Lines

/-!
# Inbox logs

An inbox is a log of records, one a line. Reading folds the log into a `Snapshot`: the messages,
each identity once and in order, and the set of identities that have been acknowledged. Blank
lines and lines that spell no record are passed over; a line that is not UTF-8 makes the whole
log unreadable.

Every operation looks at a snapshot and decides on a `Change` of the log: nothing, one more
record, or a new log.

* `Change.apply` : the log after a change;
* `enqueue`, `acknowledge`, `prune` : the decisions.
-/

namespace AgentSupervisor

/-- What a log says. -/
structure Snapshot where
  /-- in the order of their first record -/
  messages : List Message := []
  acked : List MessageId := []
  deriving Repr, DecidableEq

namespace Snapshot

/-- Has a message of this identity been logged? -/
def contains (s : Snapshot) (id : MessageId) : Bool := s.messages.any fun m => m.id == id

/-- Has the message of this identity been acknowledged? -/
def isAcked (s : Snapshot) (id : MessageId) : Bool := s.acked.contains id

/-- The messages that have not been acknowledged. -/
def pending (s : Snapshot) : List Message := s.messages.filter fun m => !s.isAcked m.id

/-- Take in one more record. -/
def add (s : Snapshot) : Record → Snapshot
  | .message m => if s.contains m.id then s else { s with messages := s.messages ++ [m] }
  | .ack id _ => if s.isAcked id then s else { s with acked := id :: s.acked }

/-- The record of a line, if it spells one. -/
def recordOfLine? (line : List Char) : Option Record :=
  if line.all Text.isBlank then none else Record.ofText? line

/-- The snapshot of rows of characters, one a line. -/
def ofLines (lines : List (List Char)) : Snapshot :=
  (lines.filterMap recordOfLine?).foldl add {}

/-- The snapshot of a log. -/
def ofLog (log : Bytes) : Except IoError Snapshot :=
  match (Lines.contents log).mapM Utf8.decode? with
  | some lines => .ok (ofLines lines)
  | none => .error .notUtf8

end Snapshot

/-- A change of a log. -/
inductive Change where
  | keep
  /-- one more record -/
  | append (r : Record)
  /-- nothing but these messages -/
  | replace (kept : List Message)
  deriving Repr, DecidableEq

namespace Change

/-- The bytes of a record's line. -/
def line (r : Record) : Bytes := Utf8.encodeChars r.text ++ [Lines.lineFeed]

/-- What is written for one more record. A log that ends inside a line, as one does after a
    write that was cut short, gets a line feed first. -/
def tail (log : Bytes) (r : Record) : Bytes :=
  (if Lines.endsOpen log then [Lines.lineFeed] else []) ++ line r

/-- A log that holds these messages only. -/
def fresh (kept : List Message) : Bytes := kept.flatMap fun m => line (.message m)

/-- The log after a change. -/
def apply (log : Bytes) : Change → Bytes
  | .keep => log
  | .append r => log ++ tail log r
  | .replace kept => fresh kept

end Change

namespace Snapshot

/-- Put a message into an inbox: nothing changes when its identity has been logged before. -/
def enqueue (s : Snapshot) (m : Message) : MessageId × Change :=
  if s.contains m.id then (m.id, .keep) else (m.id, .append (.message m))

/-- Acknowledge a message: `none` when there is none of this identity. -/
def acknowledge (s : Snapshot) (id : MessageId) (now : UInt64) : Option Change :=
  if !s.contains id then none
  else if s.isAcked id then some .keep
  else some (.append (.ack id now))

/-- The time before which messages are too old. An age is given in milliseconds and counted in
    64 bits. -/
def cutoff (now : UInt64) (maxAge : Nat) : UInt64 :=
  let age := UInt64.ofNat maxAge
  if age ≤ now then now - age else 0

/-- The messages that pruning keeps. -/
def kept (s : Snapshot) (now : UInt64) (maxAge : Nat) : List Message :=
  s.pending.filter fun m => cutoff now maxAge ≤ m.enqueuedAt

/-- Drop what is acknowledged or too old, and count it. -/
def prune (s : Snapshot) (now : UInt64) (maxAge : Nat) : Nat × Change :=
  let kept := s.kept now maxAge
  let removed := s.messages.length - kept.length
  if removed = 0 then (0, .keep) else (removed, .replace kept)

end Snapshot

end AgentSupervisor
