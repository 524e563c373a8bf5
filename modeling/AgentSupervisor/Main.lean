import AgentSupervisor.Operator.Commands
import Std.Time.DateTime.Timestamp

/-!
# The program

The outer layer of the command line. It copies the files that a command may look at onto a disk
value, lets the command run on that, and carries the changes back. Whatever a command decides
is decided by `Operator.run`; supervised sessions are out of this program's reach, because it
can neither listen on a socket nor start processes.
-/

namespace AgentSupervisor.Outer

/-! ## Reading -/

/-- The path of a place. -/
def pathOf (p : Place) : String := "/" ++ "/".intercalate p

/-- What really stands at a path. -/
def readEntry (path : String) : IO (Option Entry) := do
  let file := (← IO.currentDir) / path
  match ← file.metadata.toBaseIO with
  | .error _ => return none
  | .ok m =>
    match m.type with
    | .dir => return some .directory
    | .file => return some (.file (← IO.FS.readBinFile file).toList)
    | _ => return some (.socket Supervisor.socketMode)

/-- Copy what stands at a path. -/
def survey (dir : Place) (disk : Disk) (path : String) : IO Disk := do
  match ← readEntry path with
  | none => return disk
  | some e => return disk.plant (Place.ofPath dir path) e

/-- The paths of the files in a directory. -/
def filesIn (path : String) : IO (List String) := do
  match ← ((← IO.currentDir) / path).readDir.toBaseIO with
  | .error _ => return []
  | .ok entries => return entries.toList.map fun e => Path.join path e.fileName

/-- The files that settings come from. -/
def configFiles (e : Environment) (p : Paths) : List String :=
  e.userConfig.toList ++ [Environment.projectConfig] ++ p.config.toList

/-! ## Writing -/

/-- Carry one change back. -/
def writeBack (old : Disk) (e : Place × Entry) : IO Unit := do
  if old.at? e.1 ≠ some e.2 then
    match e.2 with
    | .directory => IO.FS.createDirAll (pathOf e.1)
    | .file content => IO.FS.writeBinFile (pathOf e.1) ⟨content.toArray⟩
    | _ => return

/-- Carry one removal back. -/
def removeBack (new : Disk) (e : Place × Entry) : IO Unit := do
  if new.at? e.1 = none then IO.FS.removeFile (pathOf e.1)

/-- Carry all changes back: directories first, so that files find theirs. -/
def writeAll (old new : Disk) : IO Unit := do
  let isDirectory (e : Place × Entry) : Bool := e.2 == .directory
  for e in (new.entries.filter isDirectory).reverse do writeBack old e
  for e in new.entries.filter fun e => !isDirectory e do writeBack old e
  for e in old.entries do removeBack new e

/-! ## Locks -/

/-- The inboxes that a command works on; `files` are the files of the store. -/
def inboxesOf (files : List String) : Command → List InboxId
  | .inbox (.send name ..) | .inbox (.poll name _) | .inbox (.ack name _)
  | .inbox (.prune (some name) _) => [InboxId.ofName name]
  | .inbox (.prune none _) => files.filterMap fun f =>
    (Path.fileName? f.toList).bind fun n => InboxStore.inboxOfName? (String.ofList n)
  | _ => []

/-- Try to lock a file, as often as a lock is tried. -/
def tryLock (h : IO.FS.Handle) : Nat → IO Bool
  | 0 => return false
  | tries + 1 => do
    if ← h.tryLock then return true
    IO.sleep (UInt32.ofNat Storage.lockWait)
    tryLock h tries

/-- Do something while the inboxes of a directory are locked. -/
def whileLocked {α : Type} (dir : String) (act : IO α) : List InboxId → IO α
  | [] => act
  | i :: is => do
    IO.FS.createDirAll dir
    let handle ← IO.FS.Handle.mk (Path.join dir (InboxStore.lockName i)) .append
    unless ← tryLock handle Storage.lockTries do
      throw (IO.userError (InboxError.locked i).message)
    whileLocked dir act is

/-! ## The program -/

/-- The number of the user that the process table tells. -/
def userNumber : IO Nat := do
  let lines ← IO.FS.lines "/proc/self/status"
  let uid := (lines.toList.find? fun l => l.startsWith "Uid:").map fun l =>
    Text.natOfDigits (Text.firstWord (l.toList.drop 4))
  return uid.getD 0

/-- A random identity for a message, and names from a random one on. -/
def chance : IO Draw := do
  let bytes ← IO.getRandomBytes 16
  let seed := bytes.toList.foldl (fun n b => n * 256 + b.toNat) 0
  return { id := MessageId.ofBytes bytes.toList, names := fun k => Names.proposal (seed + k) }

/-- Run a command on a copy of its files. -/
def perform (dir : Place) (e : Environment) (p : Paths) (c : Command) (search : List String) :
    IO CommandResult := do
  let inboxDir := p.state.inboxDir
  let wanted := configFiles e p ++ [p.socket, p.state.root, p.state.pidDir, inboxDir]
  whileLocked inboxDir (do
    let mut disk : Disk := {}
    for path in wanted ++ (← filesIn inboxDir) do disk ← survey dir disk path
    for path in search do
      for a in Agent.all do disk ← survey dir disk (Path.join path (Doctor.programOf {} a))
    let now ← Std.Time.Timestamp.now
    let storage : Storage := { disk, now := now.toMillisecondsSinceUnixEpoch.val.toNat }
    let site : Site :=
      { host := { storage, path := search.map (Place.ofPath dir) }, dir, environment := e }
    let (result, site) := Operator.perform site p (← chance) c
    writeAll disk site.disk
    return result) (inboxesOf (← filesIn inboxDir) c)

/-- Does a command need a supervisor? -/
def needsSupervisor (c : Command) : Bool := c == .server || (Operator.request? c).isSome

/-- Print a result. -/
def report (r : CommandResult) : IO UInt32 := do
  IO.print r.output
  match r.failure with
  | none => return 0
  | some e =>
    IO.eprintln e.message
    return 1

/-- Run the program in its environment. -/
def program (words : List String) : IO UInt32 := do
  let names := Invocation.envNames ++ Environment.names
  let values ← names.mapM fun n => do return (n, ← IO.getEnv n)
  let lookup (n : String) : Option String := (List.lookup n values).join
  match Invocation.read lookup words with
  | .error .usage =>
    IO.eprintln "usage: corral [OPTIONS] COMMAND"
    return 2
  | .error _ =>
    IO.println "usage: corral [OPTIONS] COMMAND"
    return 0
  | .ok i =>
    let e := Environment.ofVariables lookup (← userNumber) none
    let dir := Place.ofPath [] (toString (← IO.currentDir))
    if needsSupervisor i.command then report { failure := some (.client .timeout) }
    else
      let search := ((← IO.getEnv "PATH").getD "").splitOn ":"
      report (← perform dir e (Operator.pathsOf e i) i.command search)

end AgentSupervisor.Outer

/-- Run the program. -/
def main (args : List String) : IO UInt32 := AgentSupervisor.Outer.program ("corral" :: args)
