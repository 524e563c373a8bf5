import AgentSupervisor.Process.Child

/-!
# Programs and builtin commands of a shell

What a process does for one command: it opens the files that the command names, looks for the
program, and either becomes it, waits for it, or does itself what the shell knows.

* `openFiles` : redirections;
* `find`      : where a program is;
* `builtin`   : what the shell does itself.
-/

namespace AgentSupervisor.Child

/-! ## Streams -/

/-- Write to a stream. -/
def write (sink : Sink) (bs : Bytes) (c : Child) (disk : Disk) : Child × Disk :=
  match sink with
  | .terminal => (c.display (Discipline.shown bs), disk)
  | .nowhere => (c, disk)
  | .file place =>
    match disk.append place bs with
    | .ok disk => (c, disk)
    | .error _ => (c, disk)

/-- The value of a variable. The words of a shell count as variables too. -/
def value (c : Child) (name : List Char) : String :=
  if name = ['$'] then String.ofList (Text.decimal c.pid.toNat)
  else if name = ['?'] then String.ofList (Text.decimal c.status)
  else (c.vars.lookup (String.ofList name)).getD ""

/-- Give the words of a shell as variables: its name, the others by their numbers, how many they
    are, and all of them. -/
def withWords (vars : Variables) (name : String) (args : List String) : Variables :=
  let number (n : Nat) : String := String.ofList (Text.decimal n)
  let all := " ".intercalate args
  let fixed := [("0", name), ("#", number args.length), ("*", all), ("@", all)]
  let numbered := (args.zip (List.range args.length)).map fun a => (number (a.2 + 1), a.1)
  (fixed ++ numbered).foldl (fun vs v => vs.set v.1 v.2) vars

/-- What a shell says in front of a complaint: its name and the line. -/
def shellName (c : Child) : String := c.value ['0'] ++ ": 1: "

/-- A complaint of the shell. -/
def complain (sink : Sink) (what : String) (status : Nat) (c : Child) (disk : Disk) :
    Child × Disk :=
  write sink (Utf8.encode (c.shellName ++ what ++ "\n")) { c with status } disk

/-- Set variables, one after another. -/
def assign (c : Child) : List (String × ShellWord) → Child
  | [] => c
  | (name, w) :: as =>
    { c with vars := c.vars.set name (w.joined c.value) }.assign as

/-- The reason of a failure to open a file, as the shell gives it. -/
def reason (missing : String) (e : IoError) : String :=
  match e with
  | .notFound => missing
  | e => (e.message.splitOn " (os error").headD ""

/-- Open the files that redirections name. -/
def openFiles (c : Child) : List Redirect → Streams → Disk → Except String (Streams × Disk)
  | [], s, disk => .ok (s, disk)
  | .file stream atEnd w :: rs, s, disk =>
    let path := w.joined c.value
    let place := Place.ofPath c.dir path
    let sink := if place = Program.nullDevice then Sink.nowhere else .file place
    let opened := if place = Program.nullDevice then .ok disk
      else if atEnd then disk.touch place else disk.write place []
    match opened with
    | .error e => .error ("cannot create " ++ path ++ ": " ++ reason "Directory nonexistent" e)
    | .ok disk =>
      openFiles c rs (if stream = 1 then { s with out := sink }
        else if stream = 2 then { s with err := sink } else s) disk
  | .source w :: rs, s, disk =>
    let path := w.joined c.value
    let place := Place.ofPath c.dir path
    match if place = Program.nullDevice then .ok [] else disk.read place with
    | .error e => .error ("cannot open " ++ path ++ ": " ++ reason "No such file" e)
    | .ok bs => openFiles c rs { s with input := some bs } disk
  | .copy stream w :: rs, s, disk =>
    match stream, w.joined c.value with
    | 1, "2" => openFiles c rs { s with out := s.err } disk
    | 2, "1" => openFiles c rs { s with err := s.out } disk
    | _, _ => openFiles c rs s disk

/-- What a program sees. -/
def surroundings (c : Child) (s : Streams) (disk : Disk) : Surroundings :=
  { disk, dir := c.dir, size := c.size, input := s.input, shows := s.out == .terminal }

/-! ## Programs -/

/-- Where a program is looked for. -/
inductive Found where
  | program (name : String)
  /-- there is a file, but it is no program -/
  | refused
  | missing
  deriving Repr, DecidableEq

/-- The directories of programs. -/
def programDirs : List Place := [["usr", "bin"], ["bin"]]

/-- Look for a program. A path is taken as it is; a name is looked for in directories. -/
def find (c : Child) (disk : Disk) (program : String) : Found :=
  if program.toList.contains '/' then
    let place := Place.ofPath c.dir program
    if programDirs.contains place.dropLast && c.programs.contains (place.getLastD "") then
      .program (place.getLastD "")
    else if disk.isThere place then .refused else .missing
  else if c.programs.contains program then .program program
  else if !program.isEmpty && c.path.any fun p => disk.isFile (p ++ [program]) then .refused
  else .missing

/-- What an effect leads to. -/
def carryOut (now : Nat) (s : Streams) (e : Effect) (c : Child) (disk : Disk) : Child × Disk :=
  match e with
  | .done out complaint status =>
    let (c, disk) := write s.out out { c with status } disk
    write s.err (Utf8.encode complaint) c disk
  | .sleep time => ({ c with agenda := .waitUntil (now + time) :: c.agenda }, disk)
  | .copy => ({ c with agenda := .copy s.out :: c.agenda }, disk)

/-- Run a script. -/
def script (text : String) (c : Child) (disk : Disk) : Child × Disk :=
  match Script.read text with
  | .ok s => ({ c with agenda := .run s :: c.agenda }, disk)
  | .error e => complain c.streams.err e.message 2 c disk

/-- Start a shell with its words. Without a script it reads its terminal and does nothing. -/
def shell (s : Streams) (name : String) (args : List String) (c : Child) (disk : Disk) :
    Child × Disk :=
  let c := { c with streams := s }
  let complainAtOnce (what : String) : Child × Disk :=
    write s.err (Utf8.encode (name ++ ": 0: " ++ what ++ "\n")) { c with status := 2 } disk
  match args with
  | "-c" :: text :: args =>
    script text { c with vars := withWords c.vars (args.headD name) args.tail } disk
  | ["-c"] => complainAtOnce "-c requires an argument"
  | path :: args =>
    match disk.read (Place.ofPath c.dir path) with
    | .ok bs => script (Utf8.lossyString bs) { c with vars := withWords c.vars path args } disk
    | .error _ => complainAtOnce ("cannot open " ++ path ++ ": No such file")
  | [] => ({ c with agenda := .copy .nowhere :: c.agenda }, disk)

/-- Run a program that has been found under a name. -/
def launch (now : Nat) (s : Streams) (name path : String) (args : List String) (c : Child)
    (disk : Disk) : Child × Disk :=
  match Program.run (c.surroundings s disk) name args with
  | some e => carryOut now s e c disk
  | none => shell s path args c disk

/-! ## Builtin commands -/

/-- The tasks from the end of the shell in progress on; none when it is the process itself. -/
def fromLeave : List Task → List Task
  | [] => []
  | .leave vars streams :: ts => .leave vars streams :: ts
  | _ :: ts => fromLeave ts

/-- The shell ends. -/
def exit (c : Child) (status : Nat) : Child := { c with status, agenda := fromLeave c.agenda }

/-- The status that an argument of `exit` says. -/
def exitStatus? (s : String) : Option Nat := (Text.digits? s.toList).map (· % statuses)

/-- End the shell by a command. -/
def exitBy (s : Streams) (args : List String) (c : Child) (disk : Disk) : Child × Disk :=
  match args with
  | [] => (c.exit c.status, disk)
  | a :: _ =>
    match exitStatus? a with
    | some n => (c.exit n, disk)
    | none =>
      let (c, disk) := complain s.err ("exit: Illegal number: " ++ a) 2 c disk
      (c.exit 2, disk)

/-- The largest number of a signal, with or without a name. -/
def lastSignal : Int := 64

/-- The signal that a word names for the shell. -/
def signalOf? (word : String) : Option Int :=
  (Signal.ofText? word).filter fun n => 0 ≤ n && n ≤ lastSignal

/-- The signal and the processes that the arguments of `kill` name. -/
def killArguments? : List String → Option (Int × List String)
  | "-s" :: n :: pids => (signalOf? n).map (·, pids)
  | a :: pids =>
    match a.toList with
    | '-' :: n => (signalOf? (String.ofList n)).map (·, pids)
    | _ => some (15, a :: pids)
  | [] => none

/-- Is it this process that is named? -/
def isMe (c : Child) (pid : String) : Bool :=
  pid == "0" || pid == String.ofList (Text.decimal c.pid.toNat)

/-- Send a signal. -/
def kill (s : Streams) (args : List String) (c : Child) (disk : Disk) : Child × Disk :=
  match killArguments? args with
  | none => complain s.err "kill: Illegal option" 2 c disk
  | some (n, pids) =>
    if pids.all c.isMe then
      let c := { c with status := 0 }
      (if n = 0 then c else c.receive (Int32.ofInt n), disk)
    else complain s.err "kill: No such process\n" 1 c disk

/-- The signals that words name; the end of the shell counts as number 0. -/
def trapSignals (words : List String) : List Int32 :=
  words.filterMap fun w => if w = "EXIT" then some 0 else (signalOf? w).map Int32.ofInt

/-- Say what signals lead to: nothing, a script, or what they usually do. -/
def trap (args : List String) (c : Child) : Child :=
  match args with
  | [] => { c with status := 0 }
  | action :: words =>
    let signals := trapSignals words
    let deaf := c.deaf.filter (!signals.contains ·)
    let traps := c.traps.filter (!signals.contains ·.1)
    if action = "" then { c with status := 0, deaf := signals ++ deaf, traps }
    else if action = "-" then { c with status := 0, deaf, traps }
    else { c with status := 0, deaf, traps := signals.map (·, action) ++ traps }

/-- Become another program, or end if there is none. Without a program only the streams
    change. -/
def become (now : Nat) (s : Streams) (argv : List String) (c : Child) (disk : Disk) :
    Child × Disk :=
  match argv with
  | [] => ({ c with status := 0, streams := s }, disk)
  | program :: args =>
    let c := { c with agenda := fromLeave c.agenda }
    match c.find disk program with
    | .missing => complain s.err ("exec: " ++ program ++ ": not found") 127 c disk
    | .refused => complain s.err ("exec: " ++ program ++ ": Permission denied") 126 c disk
    | .program name =>
      launch now s name program args
        (if c.agenda.isEmpty then { c with words := argv, traps := [] } else c) disk

/-- Set variables that are written out in arguments. -/
def exportAll (c : Child) : List String → Child
  | [] => { c with status := 0 }
  | a :: as =>
    match a.splitOn "=" with
    | name :: v :: vs =>
      { c with vars := c.vars.set name ("=".intercalate (v :: vs)) }.exportAll as
    | _ => c.exportAll as

/-- The innermost loop that tasks belong to, and what follows it. -/
def loopOf? : List Task → Option (Task × List Task)
  | [] | .leave .. :: _ => none
  | .round g condition body :: ts => some (.round g condition body, ts)
  | .each name values body :: ts => some (.each name values body, ts)
  | _ :: ts => loopOf? ts

/-- End the innermost loop, or only its round. -/
def leaveLoop (onlyRound : Bool) (c : Child) : Child :=
  match loopOf? c.agenda with
  | none => { c with status := 0 }
  | some (t, ts) => { c with status := 0, agenda := if onlyRound then t :: ts else ts }

/-- A line that is read, without its line feed and the blanks around it. -/
def lineText (bs : Bytes) : String := Text.trim (Utf8.lossyString bs)

/-- Set a variable to a line of what is read, or wait for one from the terminal. -/
def readLine (s : Streams) (name : String) (c : Child) : Child :=
  match s.input with
  | none => { c with agenda := .readLine name :: c.agenda }
  | some bs =>
    let line := bs.takeWhile (· != Lines.lineFeed)
    { c with
      status := if line.length < bs.length then 0 else 1
      vars := c.vars.set name (lineText line) }

/-- What the shell does itself. -/
def builtin (now : Nat) (s : Streams) (name : String) (args : List String) (c : Child)
    (disk : Disk) : Option (Child × Disk) :=
  match name with
  | ":" | "wait" | "set" => some ({ c with status := 0 }, disk)
  | "echo" => some (carryOut now s (Program.echo true args) c disk)
  | "exit" => some (exitBy s args c disk)
  | "exec" => some (become now s args c disk)
  | "kill" => some (kill s args c disk)
  | "trap" => some (trap args c, disk)
  | "export" => some (c.exportAll args, disk)
  | "read" => some (c.readLine s ((args.filter (· != "-r")).headD "REPLY"), disk)
  | "eval" => some (script (" ".intercalate args) c disk)
  | "break" => some (c.leaveLoop false, disk)
  | "continue" => some (c.leaveLoop true, disk)
  | _ => none

/-- Programs that the shell knows itself, so that no process is started for them. -/
def isInner (name : String) : Bool :=
  name == "true" || name == "false" || name == "printf" || name == "test" || name == "["

/-- Run a program that the shell knows itself. Its complaints come first and are the shell's. -/
def inner (now : Nat) (s : Streams) (name : String) (args : List String) (c : Child)
    (disk : Disk) : Child × Disk :=
  match Program.run { c.surroundings s disk with inShell := true } name args with
  | some (.done out complaint status) =>
    let complaint := if complaint.isEmpty then "" else c.shellName ++ complaint
    let (c, disk) := write s.err (Utf8.encode complaint) c disk
    carryOut now s (.done out "" status) c disk
  | _ => launch now s name name args c disk

end AgentSupervisor.Child
