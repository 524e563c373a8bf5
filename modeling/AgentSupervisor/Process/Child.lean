import AgentSupervisor.Files.Path
import AgentSupervisor.Process.Expansion
import AgentSupervisor.Process.Program
import AgentSupervisor.Signal
import AgentSupervisor.Terminal.Discipline

/-!
# Child processes

A process in a terminal of its own. It has an agenda: what it still has to do, the next thing
first. A signal may end it, stop it, or be kept for a script that the process runs on it; keys
that are typed at the terminal's master go through the terminal's line discipline.

* `Termination` : how a process ends, and what is told of it;
* `receive`     : a signal;
* `type`        : keys from the terminal's master.
-/

namespace AgentSupervisor

/-- Where output goes. -/
inductive Sink where
  | terminal
  | file (place : Place)
  | nowhere
  deriving Repr, DecidableEq

/-- The streams of a command. -/
structure Streams where
  out : Sink := .terminal
  err : Sink := .terminal
  /-- what it reads unless it reads its terminal -/
  input : Option Bytes := none
  deriving Repr, DecidableEq

/-- Something that a process has to do. -/
inductive Task where
  | run (s : Script)
  /-- take on the environment and become the program of these words -/
  | become (argv : List String)
  /-- run if the last command went well -/
  | ifFine (s : Script)
  /-- run if the last command did not go well -/
  | ifNot (s : Script)
  /-- take on the other outcome -/
  | invert
  | choose (yes no : Script)
  /-- begin another round of a loop -/
  | round (whileFine : Bool) (condition body : Script)
  /-- go on with a round, or end a loop with the status of its last one -/
  | decide (whileFine : Bool) (condition body : Script) (last : Nat)
  /-- rounds of a loop over values -/
  | each (name : String) (values : List String) (body : Script)
  | waitUntil (time : Nat)
  /-- write what the terminal gives until the end of input -/
  | copy (sink : Sink)
  /-- set a variable to a line that the terminal gives -/
  | readLine (name : String)
  /-- write and take on a status -/
  | conclude (sink : Sink) (out : Bytes) (status : Nat)
  /-- go back to these variables -/
  | restore (vars : Variables)
  /-- the end of a shell that was started by this one, which had these variables and streams -/
  | leave (vars : Variables) (streams : Streams)
  deriving Repr, DecidableEq

/-- How a process ends. -/
inductive Termination where
  | exit (code : Int32)
  | signal (n : Int32)
  deriving Repr, DecidableEq

/-- The exit code that whoever collects a process is told. Only signals that have a name are
    reported: of a process that another one has ended nothing is told, though it is gone. -/
def Termination.code? : Termination → Option Int32
  | .exit code => some code
  | .signal n => if Signal.isValid n then some (128 + n) else none

/-- A child process. -/
structure Child where
  pid : UInt32
  size : WindowSize := {}
  /-- the directory that it works in -/
  dir : Place := []
  /-- directories that are searched for programs before the usual ones -/
  path : List Place := []
  /-- the programs in the usual directories -/
  programs : List String := Program.names
  /-- its command line -/
  words : List String := []
  vars : Variables := []
  /-- the streams of its commands -/
  streams : Streams := {}
  agenda : List Task := []
  /-- the status of the last command -/
  status : Nat := 0
  /-- signals that it does not listen to -/
  deaf : List Int32 := []
  /-- the scripts that it runs on signals, and on 0 when it ends -/
  traps : List (Int32 × String) := []
  /-- the scripts that it has to run because of signals -/
  pending : List String := []
  stopped : Bool := false
  /-- signals that wait until it goes on -/
  held : List Int32 := []
  input : Discipline := {}
  /-- what its terminal shows and nobody has read yet -/
  output : Bytes := []
  /-- how it ended -/
  ended : Option Termination := none
  deriving Repr, DecidableEq

namespace Child

/-- The number of possible exit statuses. -/
def statuses : Nat := 256

/-- The process ends. -/
def finish (c : Child) (t : Termination) : Child := { c with ended := some t, agenda := [] }

/-- The exit code that is told of the process, if it has ended and any is. -/
def code? (c : Child) : Option Int32 := c.ended.bind Termination.code?

/-! ## Signals -/

/-- A signal that does nothing to a process that leads its terminal: the ones that report
    something, and those by which a terminal stops its programs. -/
def isHarmless (signal : Int32) : Bool :=
  signal == 17 || signal == 23 || signal == 28 || signal == 20 || signal == 21 || signal == 22

/-- The signal that goes past all defences. -/
def killSignal : Int32 := 9

/-- The signal that stops a process. -/
def stopSignal : Int32 := 19

/-- The signal that makes a stopped process go on. -/
def continueSignal : Int32 := 18

/-- Go on after a stop: the signals that have waited are received. -/
def resume (c : Child) : Child :=
  match c.held with
  | [] => { c with stopped := false }
  | s :: _ => { c with stopped := false, held := [] }.finish (.signal s)

/-- A signal. -/
def receive (c : Child) (signal : Int32) : Child :=
  if c.ended.isSome then c
  else if signal = killSignal then c.finish (.signal signal)
  else if signal = continueSignal then c.resume
  else if signal = stopSignal then { c with stopped := true }
  else if isHarmless signal || c.deaf.contains signal then c
  else if c.stopped then { c with held := c.held ++ [signal] }
  else match c.traps.lookup signal with
    | some text => { c with pending := c.pending ++ [text] }
    | none => c.finish (.signal signal)

/-! ## Terminal -/

/-- The screen shows more. -/
def display (c : Child) (bs : Bytes) : Child := { c with output := c.output ++ bs }

/-- One key from the master of the terminal. -/
def press (c : Child) (b : UInt8) : Child :=
  if c.ended.isSome then c
  else
    let k := c.input.press b
    let c := { c with input := k.discipline }.display k.echo
    match k.signal with
    | none => c
    | some s => c.receive s

/-- Keys from the master of the terminal. -/
def type (c : Child) (bs : Bytes) : Child := bs.foldl press c

/-! ## From outside -/

/-- The time at which the process goes on by itself. -/
def wakes? (c : Child) : Option Nat :=
  if c.ended.isSome || c.stopped then none
  else match c.agenda with
    | .waitUntil t :: _ => some t
    | _ => none

/-- The command line as the process table shows it. -/
def commandLine (c : Child) : String := " ".intercalate (c.words.filter (!·.isEmpty))

/-- The name of the program as the process table keeps it: the last name of the first word, cut. -/
def shortName (c : Child) : String :=
  String.ofList (((Path.fileName? (c.words.headD "").toList).getD []).take 15)

/-- What the process table shows of a process: its command line, or only a name when it has ended
    and not been collected. -/
def shown (c : Child) : String :=
  if c.ended.isSome then "[" ++ c.shortName ++ "] <defunct>" else c.commandLine

/-- A new process that is about to become a program. -/
def start (pid : UInt32) (size : WindowSize) (dir : Place) (path : List Place)
    (programs : List String) (vars : Variables) (argv : List String) : Child :=
  { pid, size, dir, path, programs, vars, words := argv, agenda := [.become argv] }

end Child

end AgentSupervisor
