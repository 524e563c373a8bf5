import AgentSupervisor.Files.Disk

/-!
# Storage shared by processes

A disk together with the locks that other processes hold on its files, and the time. A lock
that cannot be had at once is tried again every `lockWait` milliseconds, `lockTries` times in
all.
-/

namespace AgentSupervisor

/-- How a file is locked. -/
inductive LockMode where
  /-- together with others that share it -/
  | shared
  | exclusive
  deriving Repr, DecidableEq

/-- A lock that another process holds, and when it lets go, if ever. -/
structure Hold where
  place : Place
  mode : LockMode
  release : Option Nat
  deriving Repr, DecidableEq

/-- A disk, the locks on it, and the time in milliseconds since 1970. -/
structure Storage where
  disk : Disk := {}
  holds : List Hold := []
  now : Nat
  deriving Repr, DecidableEq

namespace Storage

/-- How often a lock is tried. -/
def lockTries : Nat := 50

/-- The milliseconds between two tries. -/
def lockWait : Nat := 10

end Storage

namespace Hold

/-- Is the lock still held at a time? -/
def isHeld (h : Hold) (time : Nat) : Bool :=
  match h.release with
  | none => true
  | some t => time < t

/-- Does the lock stand in the way of another one? -/
def blocks (h : Hold) (place : Place) (mode : LockMode) (time : Nat) : Bool :=
  h.place == place && h.isHeld time && !(h.mode == .shared && mode == .shared)

end Hold

namespace Storage

/-- The time at which a lock is had, trying `tries` more times from a time on. -/
def lockedAt (holds : List Hold) (place : Place) (mode : LockMode) :
    (tries time : Nat) → Option Nat
  | 0, _ => none
  | tries + 1, time =>
    if holds.any fun h => h.blocks place mode time then
      lockedAt holds place mode tries (time + lockWait)
    else some time

/-- Take a lock on a file, which is made if it is not there: the storage at the time when the
    lock is had, or when it is given up, and whether it is had. -/
def lock (s : Storage) (place : Place) (mode : LockMode) : Except IoError (Bool × Storage) := do
  let disk ← s.disk.touch place
  match lockedAt s.holds place mode lockTries s.now with
  | some t => return (true, { s with disk, now := t })
  | none => return (false, { s with disk, now := s.now + lockTries * lockWait })

/-- Another process takes a lock on a file, for so many milliseconds or until it is told to let
    go. It does not ask whether the lock can be had. -/
def hold (s : Storage) (place : Place) (mode : LockMode) (time : Option Nat) : Storage :=
  let disk := match s.disk.touch place with
    | .ok disk => disk
    | .error _ => s.disk
  { s with disk, holds := ⟨place, mode, time.map (s.now + ·)⟩ :: s.holds }

/-- All other processes let go of their locks. -/
def releaseAll (s : Storage) : Storage := { s with holds := [] }

end Storage

end AgentSupervisor
