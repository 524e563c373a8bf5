import AgentSupervisor.Config.Load
import AgentSupervisor.Files.Defaults
import AgentSupervisor.Supervisor.Connection
import AgentSupervisor.Supervisor.Socket

/-!
# Where an operator works

A host, the directory that the operator is in, and the supervisors that can be reached over
their sockets. A request goes to the supervisor behind a socket; where there is none, one is
started first, and if that fails no answer ever comes.

* `ask` : one request.
-/

namespace AgentSupervisor

/-- Where an operator works. -/
structure Site where
  host : Host
  /-- the directory that the operator is in -/
  dir : Place
  environment : Environment := {}
  /-- the running supervisors by the places of their sockets -/
  supervisors : List (Place × Supervisor) := []

/-- The paths that a command line leads to. -/
structure Paths where
  socket : String
  state : StateDir
  config : Option String

namespace Site

/-- Change the disk. -/
def withDisk (s : Site) (disk : Disk) : Site :=
  { s with host := { s.host with storage := { s.host.storage with disk } } }

/-- The disk. -/
def disk (s : Site) : Disk := s.host.storage.disk

/-- The place of a path. -/
def place (s : Site) (path : String) : Place := Place.ofPath s.dir path

/-- The settings, with those of a file that the operator names. -/
def config (s : Site) (explicit : Option String) : Except ConfigError Config :=
  Config.load s.disk s.dir s.environment.userConfig Environment.projectConfig explicit

/-! ## Supervisors -/

/-- The supervisor behind a socket. -/
def supervisorAt? (s : Site) (socket : Place) : Option Supervisor := s.supervisors.lookup socket

/-- Take a supervisor as it is after a request. -/
def put (s : Site) (socket : Place) (supervisor : Supervisor) : Site :=
  { s with supervisors := (socket, supervisor) :: s.supervisors.filter fun e => e.1 != socket }

/-- The milliseconds that a client waits for a new supervisor. -/
def startDelay : Nat := 100

/-- Start a supervisor, if that is possible. -/
def start? (s : Site) (p : Paths) : Option Site :=
  match s.config p.config with
  | .error _ => none
  | .ok config =>
    match Supervisor.listen config p.state s.dir (s.place p.socket) s.disk with
    | .error _ => none
    | .ok (supervisor, disk) => some ((s.withDisk disk).put (s.place p.socket) supervisor)

/-- The supervisor behind a socket is looked up, or started. -/
def reach? (s : Site) (p : Paths) : Option (Supervisor × Site) :=
  match s.supervisorAt? (s.place p.socket) with
  | some supervisor => some (supervisor, s)
  | none => do
    let s ← s.start? p
    return (← s.supervisorAt? (s.place p.socket), { s with host := s.host.pass startDelay })

/-- The signal that a process gets when the master of its terminal goes away. -/
def hangUpSignal : Int32 := 1

/-- A supervisor ends: its socket goes, and its processes lose their terminals. -/
def close (s : Site) (socket : Place) (supervisor : Supervisor) : Site :=
  let host := supervisor.table.foldl (fun h m => h.signal m.pid hangUpSignal) s.host
  let s := { s with host, supervisors := s.supervisors.filter fun e => e.1 != socket }
  s.withDisk (Supervisor.unbind socket s.disk)

/-- Ask for something. -/
def ask (s : Site) (p : Paths) (draw : Draw) (r : Request) : Except ClientError Response × Site :=
  match s.reach? p with
  | none => (.error .timeout, s)
  | some (supervisor, s) =>
    let (served, _) := Connection.receive {} supervisor (fun _ => draw) s.host (Client.line r)
    let answer := (Client.receive ⟨served.responses.flatMap Connection.line⟩).1
    let s := { s with host := served.host }
    (answer, if served.shutdown then s.close (s.place p.socket) served.supervisor
      else s.put (s.place p.socket) served.supervisor)

/-- Time passes, and the supervisors look at their processes. -/
def pass (s : Site) (milliseconds : Nat) : Site :=
  let (supervisors, host) := s.supervisors.foldl (fun (acc : List (Place × Supervisor) × Host) e =>
    let (supervisor, host) := e.2.drain acc.2
    ((e.1, supervisor) :: acc.1, host)) ([], s.host.pass milliseconds)
  { s with supervisors := supervisors.reverse, host }

end Site

end AgentSupervisor
