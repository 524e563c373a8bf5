import AgentSupervisor.Supervisor.Basic

/-!
# Opening a supervisor

A supervisor needs its inboxes, a directory for PID files and a socket that only its owner may
use. A symbolic link where the socket should be is refused and never followed; a socket or a
file that stands there is removed first.

* `openAt` : a supervisor with its inboxes;
* `bind`   : its socket;
* `listen` : both.
-/

namespace AgentSupervisor

/-- Why a supervisor cannot be opened. -/
inductive OpenError where
  /-- a symbolic link stands where the socket should be -/
  | symlink
  | bind (e : IoError)
  | inbox (e : IoError)
  | io (e : IoError)
  deriving Repr, DecidableEq

/-- What an operator is told. -/
def OpenError.message : OpenError → String
  | .symlink => "failed to bind socket: socket path is a symlink - possible security attack"
  | .bind e => "failed to bind socket: " ++ e.message
  | .inbox e => "failed to open inbox directory: " ++ (InboxError.io e).message
  | .io e => "I/O error: " ++ e.message

namespace Supervisor

/-- The permissions of the socket. -/
def socketMode : Nat := 0o600

/-- A supervisor that runs in a directory, with its inboxes. -/
def openAt (config : Config) (state : StateDir) (dir : Place) (disk : Disk) :
    Except OpenError (Supervisor × Disk) :=
  match InboxStore.openAt (Place.ofPath dir state.inboxDir) disk with
  | .error e => .error (.inbox e)
  | .ok (store, disk) => .ok ({ config, state, dir, store }, disk)

/-- The disk without what may be removed from the place of the socket. -/
def clearSocket (disk : Disk) (socket : Place) : Except OpenError Disk :=
  match disk.find socket with
  | .ok (some (.link _)) => .error .symlink
  | .ok (some (.socket _)) | .ok (some (.file _)) => .ok (disk.erase socket)
  | _ => .ok disk

/-- Make a directory, as far as that goes. -/
def makeDirs (disk : Disk) (dir : Place) : Except OpenError Disk :=
  match disk.makeDirs dir with
  | .ok disk => .ok disk
  | .error e => .error (.io e)

/-- Put the socket at its place. -/
def placeSocket (disk : Disk) (socket : Place) : Except OpenError Disk :=
  match disk.find socket with
  | .ok none => .ok (disk.put socket (.socket socketMode))
  | .ok (some _) => .error (.bind .addressInUse)
  | .error e => .error (.bind e)

/-- Bind the socket: afterwards the supervisor can be reached. -/
def bind (s : Supervisor) (socket : Place) (disk : Disk) : Except OpenError Disk := do
  let disk ← clearSocket disk socket
  let disk ← makeDirs disk socket.dropLast
  let disk ← makeDirs disk (Place.ofPath s.dir s.state.pidDir)
  placeSocket disk socket

/-- A supervisor that can be reached over a socket. -/
def listen (config : Config) (state : StateDir) (dir socket : Place) (disk : Disk) :
    Except OpenError (Supervisor × Disk) := do
  let (s, disk) ← openAt config state dir disk
  return (s, ← s.bind socket disk)

/-- Give up the socket. -/
def unbind (socket : Place) (disk : Disk) : Disk :=
  match disk.remove socket with
  | .ok disk => disk
  | .error _ => disk

/-- The permissions of a socket. -/
def socketModeAt? (disk : Disk) (socket : Place) : Option Nat :=
  match disk.find socket with
  | .ok (some (.socket mode)) => some mode
  | _ => none

end Supervisor

end AgentSupervisor
