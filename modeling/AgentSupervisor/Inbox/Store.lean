import AgentSupervisor.Files.Lock
import AgentSupervisor.Inbox.Log

/-!
# Stores of inboxes

A directory of inboxes. An inbox has a log and a lock file, and a file that is there only while
its log is written anew. Producers and readers share the lock; acknowledging and pruning have it
alone.

Writing takes the bytes into a file that has been opened, and the file is then confirmed to be
safe. Either may fail, and then a part of the change is there, up to all of it: that is a `Fault`.
An operation is given the fault that it meets with, and its usual form meets with none. Whatever is
said here of runs of usual operations, of what an inbox then holds and of which inboxes are listed,
is said of storage that does not fail once a file is open.

* `underLockOn` : an operation on storage that may fail;
* `underLock`   : one on storage that does not;
* `enqueue`, `poll`, `acknowledge`, `prune`, `list` : the operations.
-/

namespace AgentSupervisor

/-- A directory of inboxes. -/
structure InboxStore where
  dir : Place
  deriving Repr, DecidableEq

/-- Why an operation on an inbox fails. -/
inductive InboxError where
  | io (e : IoError)
  | notFound (inbox : InboxId) (id : MessageId)
  /-- someone else has the lock -/
  | locked (inbox : InboxId)
  deriving Repr, DecidableEq

/-- What an operator is told. -/
def InboxError.message : InboxError → String
  | .io e => "inbox I/O error: " ++ e.message
  | .notFound inbox id => "message " ++ id.text ++ " not found in inbox " ++ inbox.text
  | .locked inbox => "inbox " ++ inbox.text ++ " is locked by another process"

namespace InboxStore

/-! ## Files -/

/-- The name of a log. -/
def logName (inbox : InboxId) : String := inbox.text ++ ".jsonl"

/-- The name of a lock file. -/
def lockName (inbox : InboxId) : String := inbox.text ++ ".lock"

/-- The name of the file into which a new log is written. -/
def draftName (inbox : InboxId) : String := logName inbox ++ ".tmp"

/-- The place of a log. -/
def logPlace (s : InboxStore) (inbox : InboxId) : Place := s.dir ++ [logName inbox]

/-- The place of a lock file. -/
def lockPlace (s : InboxStore) (inbox : InboxId) : Place := s.dir ++ [lockName inbox]

/-- The place of a new log while it is written. -/
def draftPlace (s : InboxStore) (inbox : InboxId) : Place := s.dir ++ [draftName inbox]

/-- Open the store at a place, which becomes a directory if nothing is there. -/
def openAt (place : Place) (disk : Disk) : Except IoError (InboxStore × Disk) := do
  return (⟨place⟩, ← disk.makeDirs place)

/-! ## Logs -/

/-- The bytes of a log; an inbox without a log has an empty one. -/
def log (s : InboxStore) (disk : Disk) (inbox : InboxId) : Except IoError Bytes :=
  match disk.read (s.logPlace inbox) with
  | .error .notFound => .ok []
  | r => r

/-- What the log of an inbox says. -/
def snapshot (s : InboxStore) (disk : Disk) (inbox : InboxId) : Except IoError Snapshot := do
  Snapshot.ofLog (← s.log disk inbox)

/-- Make a change of a log. A new log is written beside the old one and then takes its place. -/
def change (s : InboxStore) (disk : Disk) (inbox : InboxId) : Change → Except IoError Disk
  | .keep => .ok disk
  | .append r => disk.modify (s.logPlace inbox) fun log => Change.apply log (.append r)
  | .replace kept => do
    let disk ← disk.write (s.draftPlace inbox) (Change.fresh kept)
    disk.rename (s.draftPlace inbox) (s.logPlace inbox)

/-- A failure of the storage while something is written. -/
structure Fault where
  /-- how many bytes were taken; where all were, they could not be confirmed to be safe -/
  taken : Nat
  error : IoError
  deriving Repr, DecidableEq

/-- What is there of a change of a log when the storage fails. -/
def cut (s : InboxStore) (f : Fault) (disk : Disk) (inbox : InboxId) :
    Change → Except IoError Disk
  | .keep => .ok disk
  | .append r => disk.modify (s.logPlace inbox) fun log => log ++ (Change.tail log r).take f.taken
  | .replace kept => disk.write (s.draftPlace inbox) ((Change.fresh kept).take f.taken)

/-- Make a change of a log on storage that may fail. Where nothing is written nothing fails. -/
def changeOn (fault : Option Fault) (s : InboxStore) (disk : Disk) (inbox : InboxId)
    (c : Change) : Except IoError Unit × Disk :=
  match fault.filter fun _ => c != .keep with
  | none =>
    match s.change disk inbox c with
    | .error e => (.error e, disk)
    | .ok disk => (.ok (), disk)
  | some f =>
    match s.cut f disk inbox c with
    | .error e => (.error e, disk)
    | .ok disk => (.error f.error, disk)

/-! ## Operations -/

/-- An operation under the lock of an inbox on storage that may fail: look at the snapshot, then
    answer and change the log. -/
def underLockOn {α : Type} (fault : Option Fault) (s : InboxStore) (inbox : InboxId)
    (mode : LockMode) (decide : Snapshot → UInt64 → Except InboxError (α × Change))
    (st : Storage) : Except InboxError α × Storage :=
  match st.lock (s.lockPlace inbox) mode with
  | .error e => (.error (.io e), st)
  | .ok (false, st) => (.error (.locked inbox), st)
  | .ok (true, st) =>
    match s.snapshot st.disk inbox with
    | .error e => (.error (.io e), st)
    | .ok snapshot =>
      match decide snapshot (UInt64.ofNat st.now) with
      | .error e => (.error e, st)
      | .ok (a, c) =>
        match changeOn fault s st.disk inbox c with
        | (.error e, disk) => (.error (.io e), { st with disk })
        | (.ok (), disk) => (.ok a, { st with disk })

/-- An operation under the lock of an inbox. -/
def underLock {α : Type} (s : InboxStore) (inbox : InboxId) (mode : LockMode)
    (decide : Snapshot → UInt64 → Except InboxError (α × Change)) (st : Storage) :
    Except InboxError α × Storage := underLockOn none s inbox mode decide st

/-- **An operation on storage that does not fail** makes the whole change that it decides on. -/
theorem underLock_eq {α : Type} (s : InboxStore) (inbox : InboxId) (mode : LockMode)
    (decide : Snapshot → UInt64 → Except InboxError (α × Change)) (st : Storage) :
    s.underLock inbox mode decide st =
      match st.lock (s.lockPlace inbox) mode with
      | .error e => (.error (.io e), st)
      | .ok (false, st) => (.error (.locked inbox), st)
      | .ok (true, st) =>
        match s.snapshot st.disk inbox with
        | .error e => (.error (.io e), st)
        | .ok snapshot =>
          match decide snapshot (UInt64.ofNat st.now) with
          | .error e => (.error e, st)
          | .ok (a, c) =>
            match s.change st.disk inbox c with
            | .error e => (.error (.io e), st)
            | .ok disk => (.ok a, { st with disk }) := by
  unfold underLock underLockOn
  rcases st.lock (s.lockPlace inbox) mode with _ | ⟨_ | _, locked⟩
  · rfl
  · rfl
  · simp only
    cases s.snapshot locked.disk inbox with
    | error => rfl
    | ok snapshot =>
      simp only
      rcases decide snapshot (UInt64.ofNat locked.now) with _ | ⟨a, c⟩
      · rfl
      · simp only [changeOn, Option.filter_none]
        cases s.change locked.disk inbox c <;> rfl

/-- Put a message into its inbox, on storage that may fail. -/
def enqueueOn (fault : Option Fault) (s : InboxStore) (m : Message) :
    Storage → Except InboxError MessageId × Storage :=
  underLockOn fault s m.inbox .shared fun snapshot _ => .ok (snapshot.enqueue m)

/-- Put a message into its inbox. -/
def enqueue (s : InboxStore) (m : Message) : Storage → Except InboxError MessageId × Storage :=
  enqueueOn none s m

theorem enqueueOn_none (s : InboxStore) (m : Message) : enqueueOn none s m = s.enqueue m := rfl

/-- The messages of an inbox that have not been acknowledged, oldest first. -/
def poll (s : InboxStore) (inbox : InboxId) :
    Storage → Except InboxError (List Message) × Storage :=
  s.underLock inbox .shared fun snapshot _ => .ok (snapshot.pending, .keep)

/-- Acknowledge a message. -/
def acknowledge (s : InboxStore) (inbox : InboxId) (id : MessageId) :
    Storage → Except InboxError Unit × Storage :=
  s.underLock inbox .exclusive fun snapshot now =>
    match snapshot.acknowledge id now with
    | none => .error (.notFound inbox id)
    | some c => .ok ((), c)

/-- Drop what is acknowledged or older than so many milliseconds, and count it. -/
def pruneOlder (s : InboxStore) (inbox : InboxId) (maxAge : Nat) :
    Storage → Except InboxError Nat × Storage :=
  s.underLock inbox .exclusive fun snapshot now => .ok (snapshot.prune now maxAge)

/-- Drop what is acknowledged or older than so many seconds, and count it. -/
def prune (s : InboxStore) (inbox : InboxId) (maxAgeSeconds : UInt64) :
    Storage → Except InboxError Nat × Storage :=
  s.pruneOlder inbox (maxAgeSeconds.toNat * 1000)

/-- The inbox whose log has this name. -/
def inboxOfName? (name : String) : Option InboxId :=
  let cs := name.toList
  let suffix := ".jsonl".toList
  if suffix.isSuffixOf cs then
    some ⟨String.ofList (cs.take (cs.length - suffix.length))⟩
  else none

/-- All inboxes that have a log, sorted by name. -/
def list (s : InboxStore) (disk : Disk) : Except IoError (List InboxId) := do
  let names ← disk.list s.dir
  return (names.filterMap inboxOfName?).mergeSort fun a b => a.text ≤ b.text

end InboxStore

end AgentSupervisor
