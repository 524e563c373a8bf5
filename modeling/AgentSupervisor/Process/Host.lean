import AgentSupervisor.Files.Lock
import AgentSupervisor.Health.Check
import AgentSupervisor.Process.Step

/-!
# Hosts

The machine that processes run on: its storage with the clock, the processes that the supervisor
has started and not collected yet, and others that it has nothing to do with. Its own processes go
on whenever they can; time passes only when someone lets it. Of the others it is only said who
they are and which signals have reached them. A terminal has no name of its own: it is that of the
process which was started in it, and is found by the number of that process.

* `spawn`   : start a process in a new terminal;
* `collect` : take what its terminal shows and, if it has ended, the process itself;
* `send`    : send a signal to whoever has a number;
* `table`   : the process table as health checks see it.
-/

namespace AgentSupervisor

/-- A process that the supervisor has not started. -/
structure Other where
  pid : UInt32
  /-- its command line -/
  words : List String := []
  /-- does it belong to a user whose processes the supervisor may not signal? -/
  foreign : Bool := false
  /-- the signals that have been sent to it, the last one first -/
  received : List Int32 := []
  deriving Repr, DecidableEq

/-- A machine. -/
structure Host where
  storage : Storage
  children : List Child := []
  others : List Other := []
  nextPid : UInt32 := 4000
  /-- directories that are searched for programs before the usual ones -/
  path : List Place := []
  /-- the programs in the usual directories -/
  programs : List String := Program.names
  deriving Repr, DecidableEq

/-- Why a process cannot be started. -/
inductive SpawnError where
  /-- there is no program -/
  | emptyCommand
  /-- a word holds a NUL byte; where, in bytes -/
  | nul (position : Nat)
  deriving Repr, DecidableEq

/-- What an operator is told. -/
def SpawnError.message : SpawnError → String
  | .emptyCommand => "command is empty"
  | .nul position => "invalid command string: nul byte found in provided data at position: " ++
    String.ofList (Text.decimal position)

/-- Why a signal cannot be sent. -/
inductive SignalError where
  | noProcess
  | notPermitted
  deriving Repr, DecidableEq

/-- What an operator is told. -/
def SignalError.message : SignalError → String
  | .noProcess => "failed to send signal: ESRCH: No such process"
  | .notPermitted => "failed to send signal: EPERM: Operation not permitted"

namespace Host

/-- How many steps a process is given before others have their turn. -/
def patience : Nat := 100000

/-! ## Processes -/

/-- The process of a number among those that the supervisor has started. -/
def child? (h : Host) (pid : UInt32) : Option Child := h.children.find? fun c => c.pid == pid

/-- The process of a number among the others. -/
def other? (h : Host) (pid : UInt32) : Option Other := h.others.find? fun o => o.pid == pid

/-- Change the process of a number. -/
def update (h : Host) (pid : UInt32) (f : Child → Child) : Host :=
  { h with children := h.children.map fun c => if c.pid = pid then f c else c }

/-- Let processes go on, one after another. -/
def settleAll (now : Nat) : List Child → Disk → List Child × Disk
  | [], disk => ([], disk)
  | c :: cs, disk =>
    let (c, disk) := c.settle now patience disk
    let (cs, disk) := settleAll now cs disk
    (c :: cs, disk)

/-- Let all processes go on until they wait or end. -/
def settle (h : Host) : Host :=
  let (children, disk) := settleAll h.storage.now h.children h.storage.disk
  { h with children, storage := { h.storage with disk } }

/-! ## Starting and ending -/

/-- The position of the first NUL byte of a text. -/
def nulAt? (s : String) : Option Nat := (Utf8.encode s).findIdx? (· == 0)

/-- What is wrong with the words of a command, if anything. -/
def refusal? : List String → Option SpawnError
  | [] => some .emptyCommand
  | argv => (argv.findSome? nulAt?).map .nul

/-- Start a process in a new terminal. -/
def spawn (h : Host) (dir : Place) (argv : List String) (size : WindowSize)
    (vars : Variables) : Except SpawnError (UInt32 × Host) :=
  match refusal? argv with
  | some e => .error e
  | none =>
    let c := Child.start h.nextPid size dir h.path h.programs vars argv
    .ok (h.nextPid, { h with children := h.children ++ [c], nextPid := h.nextPid + 1 })

/-- Why the process of a number remains a copy of the supervisor, if it does. -/
def mishap? (h : Host) (pid : UInt32) : Option Mishap :=
  (h.child? pid).bind (Child.mishap? h.storage.disk)

/-- A signal to a process that the supervisor has started. -/
def signal (h : Host) (pid : UInt32) (signal : Int32) : Host :=
  h.update pid fun c => c.receive signal

/-- A signal to another process. -/
def tell (h : Host) (pid : UInt32) (signal : Int32) : Host :=
  { h with others := h.others.map fun o =>
      if o.pid = pid then { o with received := signal :: o.received } else o }

/-- Send a signal to whoever has a number. -/
def send (h : Host) (pid : UInt32) (signal : Int32) : Except SignalError Host :=
  if (h.child? pid).isSome then .ok (h.signal pid signal)
  else match h.other? pid with
    | none => .error .noProcess
    | some o => if o.foreign then .error .notPermitted else .ok (h.tell pid signal)

/-- Type into the terminal of a process. -/
def type (h : Host) (pid : UInt32) (keys : Bytes) : Host := h.update pid fun c => c.type keys

/-- Take what the terminal of a process shows, and the exit code if one is told. A process that
    has ended is gone afterwards, whether its exit code has been told or not. -/
def collect (h : Host) (pid : UInt32) : Bytes × Option Int32 × Host :=
  match h.child? pid with
  | none => ([], none, h)
  | some c =>
    if c.ended.isSome then
      (c.output, c.code?, { h with children := h.children.filter fun c => c.pid != pid })
    else (c.output, none, h.update pid fun c => { c with output := [] })

/-! ## The process table -/

/-- The number of the process that started the machine. -/
def initPid : UInt32 := 1

/-- The process table as health checks see it. -/
def table (h : Host) : ProcessTable := fun pid =>
  if pid = initPid then some (some "/sbin/init")
  else match h.child? pid with
    | some c => some (some c.shown)
    | none => (h.other? pid).map fun o => some (" ".intercalate o.words)

/-! ## Time -/

/-- The time at which some process goes on by itself. -/
def nextWake? (h : Host) : Option Nat := (h.children.filterMap Child.wakes?).min?

/-- Let time pass up to a moment. -/
def passTo (h : Host) (time : Nat) : Host :=
  { h with storage := { h.storage with now := max h.storage.now time } }.settle

/-- Let so many milliseconds pass, stopping whenever a process goes on by itself. `turns` bounds
    how often. -/
def passIn (stop : Nat) : (turns : Nat) → Host → Host
  | 0, h => h.passTo stop
  | turns + 1, h =>
    match h.nextWake? with
    | none => h.passTo stop
    | some t => if stop ≤ t then h.passTo stop else passIn stop turns (h.passTo t)

/-- Let so many milliseconds pass. -/
def pass (h : Host) (milliseconds : Nat) : Host :=
  passIn (h.storage.now + milliseconds) patience h

/-- Let time pass until a process has ended, or until nothing goes on by itself any more. `turns`
    bounds how often time is let pass. -/
def awaitEnd (pid : UInt32) : (turns : Nat) → Host → Host
  | 0, h => h
  | turns + 1, h =>
    match h.child? pid with
    | none => h
    | some c =>
      if c.ended.isSome then h
      else match h.nextWake? with
        | none => h
        | some t => awaitEnd pid turns (h.passTo t)

end Host

end AgentSupervisor
