import AgentSupervisor.Process.Exec

/-!
# Steps of a process

A step takes one thing off the agenda, or is impossible because the process waits for its
terminal or for a time, has been stopped or has ended. A process whose agenda is empty ends with
the status of its last command. One that remains a copy of the supervisor takes no step as a
program: it stays what it is until a signal ends it.

* `perform` : one thing off the agenda;
* `step`    : one step;
* `settle`  : steps until the process waits or ends.
-/

namespace AgentSupervisor.Child

/-! ## Commands -/

/-- Run a command with its streams open. A program that the shell starts last of all takes its
    place. -/
def command (now : Nat) (s : Streams) (argv : List String) (c : Child) (disk : Disk) :
    Child × Disk :=
  match argv with
  | [] => ({ c with status := 0 }, disk)
  | name :: args =>
    match builtin now s name args c disk with
    | some r => r
    | none =>
      match c.find disk name with
      | .missing => complain s.err (name ++ ": not found") 127 c disk
      | .refused => complain s.err (name ++ ": Permission denied") 126 c disk
      | .program program =>
        if isInner name then inner now s program args c disk
        else if c.agenda.isEmpty && c.traps.isEmpty then
          launch now s program name args { c with words := argv } disk
        else if program = "sh" then
          shell s name args { c with agenda := .leave c.vars c.streams :: c.agenda } disk
        else launch now s program name args c disk

/-- Run a simple command. -/
def simple (now : Nat) (k : Simple) (c : Child) (disk : Disk) : Child × Disk :=
  match c.openFiles k.redirects c.streams disk with
  | .error complaint => complain c.streams.err complaint 2 c disk
  | .ok (s, disk) =>
    let (as, words) := Simple.assignments k.words
    let argv := words.flatMap fun w => w.fields c.value
    let c' := if as.isEmpty || argv.isEmpty || c.agenda.isEmpty then c
      else { c with agenda := .restore c.vars :: c.agenda }
    command now s argv (c'.assign as) disk

/-- What a stage of a pipeline leads to: what it writes, its status and how long it takes. -/
structure Staged where
  out : Bytes := []
  status : Nat := 0
  time : Nat := 0
  child : Child
  disk : Disk

/-- What the program of a stage does, if there is one. -/
def stageEffect (s : Streams) (name : String) (args : List String) (c : Child) (disk : Disk) :
    Option Effect :=
  if name = "echo" then some (Program.echo true args)
  else match c.find disk name with
    | .program program =>
      let input := some (s.input.getD [])
      Program.run { c.surroundings s disk with input, inShell := isInner program } program args
    | _ => none

/-- A stage of a pipeline with its streams open. What goes to no sink goes to the next stage. -/
def stageWith (s : Streams) (argv : List String) (c : Child) (disk : Disk) : Staged :=
  match if argv.head? = some "exec" then argv.tail else argv with
  | [] => { child := c, disk }
  | name :: args =>
    match stageEffect s name args c disk with
    | some (.done out complaint status) =>
      let (c, disk) := write s.err (Utf8.encode complaint) c disk
      match s.out with
      | .nowhere => { out, status, child := c, disk }
      | sink =>
        let (child, disk) := write sink out c disk
        { status, child, disk }
    | some (.sleep time) => { time, child := c, disk }
    | some .copy => { child := c, disk }
    | none =>
      let (child, disk) := complain s.err (name ++ ": not found") 127 c disk
      { status := 127, child, disk }

/-- A stage of a pipeline, which reads what the one before it has written. -/
def stage (k : Simple) (input : Option Bytes) (c : Child) (disk : Disk) : Staged :=
  match c.openFiles k.redirects { out := .nowhere, err := c.streams.err, input } disk with
  | .error complaint =>
    let (child, disk) := complain c.streams.err complaint 2 c disk
    { status := 2, child, disk }
  | .ok (s, disk) => stageWith s (k.words.flatMap fun w => w.fields c.value) c disk

/-- Run commands that are joined by pipes. `out` is what the one before has written. -/
def pipeline (now : Nat) (out : Option Bytes) (status time : Nat) :
    List Simple → Child → Disk → Child × Disk
  | [], c, disk =>
    let tasks := [Task.conclude c.streams.out (out.getD []) status]
    let tasks := if time = 0 then tasks else .waitUntil (now + time) :: tasks
    ({ c with agenda := tasks ++ c.agenda }, disk)
  | k :: ks, c, disk =>
    let t := c.stage k out disk
    t.child.pipeline now (some t.out) t.status (max time t.time) ks t.disk

/-- One thing off the agenda. -/
def perform (now : Nat) (t : Task) (c : Child) (disk : Disk) : Option (Child × Disk) :=
  match t with
  | .run .nothing => some (c, disk)
  | .run (.seq a b) => some ({ c with agenda := .run a :: .run b :: c.agenda }, disk)
  | .run (.both a b) => some ({ c with agenda := .run a :: .ifFine b :: c.agenda }, disk)
  | .run (.either a b) => some ({ c with agenda := .run a :: .ifNot b :: c.agenda }, disk)
  | .run (.invert s) => some ({ c with agenda := .run s :: .invert :: c.agenda }, disk)
  | .run (.branch s yes no) =>
    some ({ c with agenda := .run s :: .choose yes no :: c.agenda }, disk)
  | .run (.loop g condition body) =>
    some ({ c with agenda := .run condition :: .decide g condition body 0 :: c.agenda }, disk)
  | .run (.each name values body) =>
    let values := values.flatMap fun w => w.fields c.value
    some ({ c with status := 0, agenda := .each name values body :: c.agenda }, disk)
  | .run (.nested s) =>
    some ({ c with agenda := .run s :: .leave c.vars c.streams :: c.agenda }, disk)
  | .run (.pipeline [k]) => some (c.simple now k disk)
  | .run (.pipeline ks) => some (c.pipeline now none 0 0 ks disk)
  | .become argv =>
    if (c.mishapAs? disk argv).isNone then some (c.become now {} argv disk) else none
  | .ifFine s => some (if c.status = 0 then { c with agenda := .run s :: c.agenda } else c, disk)
  | .ifNot s => some (if c.status = 0 then c else { c with agenda := .run s :: c.agenda }, disk)
  | .invert => some ({ c with status := if c.status = 0 then 1 else 0 }, disk)
  | .choose yes no =>
    some (if c.status = 0 then { c with agenda := .run yes :: c.agenda }
      else { c with status := 0, agenda := .run no :: c.agenda }, disk)
  | .round g condition body =>
    let decision := Task.decide g condition body c.status
    some ({ c with agenda := .run condition :: decision :: c.agenda }, disk)
  | .decide g condition body last =>
    some (if (c.status == 0) == g then
        { c with agenda := .run body :: .round g condition body :: c.agenda }
      else { c with status := last }, disk)
  | .each _ [] _ => some (c, disk)
  | .each name (v :: vs) body =>
    some ({ c with
      vars := c.vars.set name v
      agenda := .run body :: .each name vs body :: c.agenda }, disk)
  | .waitUntil time => if time ≤ now then some ({ c with status := 0 }, disk) else none
  | .copy sink =>
    match c.input.take? with
    | none => none
    | some ([], input) => some ({ c with input, status := 0 }, disk)
    | some (bs, input) =>
      some (write sink bs { c with input, agenda := .copy sink :: c.agenda } disk)
  | .readLine name =>
    match c.input.take? with
    | none => none
    | some (bs, input) =>
      some ({ c with
        input
        status := if bs.isEmpty then 1 else 0
        vars := c.vars.set name (lineText bs) }, disk)
  | .conclude sink out status => some (write sink out { c with status } disk)
  | .restore vars => some ({ c with vars }, disk)
  | .leave vars streams => some ({ c with vars, streams }, disk)

/-- Is the process waiting for a program that it has started? -/
def isBusy (c : Child) : Bool :=
  match c.agenda with
  | .waitUntil _ :: _ | .copy _ :: _ | .readLine _ :: _ => true
  | _ => false

/-- Run a script in between; the status of the last command stays. -/
def interrupt (text : String) (c : Child) (disk : Disk) : Child × Disk :=
  script text { c with agenda := .conclude .nowhere [] c.status :: c.agenda } disk

/-- The end, unless a script is to be run first. -/
def conclude (c : Child) (disk : Disk) : Child × Disk :=
  match c.traps.lookup 0 with
  | none => (c.finish (.exit (Int32.ofNat (c.status % statuses))), disk)
  | some text => { c with traps := [] }.interrupt text disk

/-- One step, if the process can make one. -/
def step (now : Nat) (c : Child) (disk : Disk) : Option (Child × Disk) :=
  if c.ended.isSome || c.stopped then none
  else if !c.pending.isEmpty && !c.isBusy then
    some ({ c with pending := c.pending.tail }.interrupt (c.pending.headD "") disk)
  else match c.agenda with
    | [] => some (c.conclude disk)
    | t :: agenda => perform now t { c with agenda } disk

/-- Steps until the process waits or ends, at most `steps` of them. -/
def settle (now : Nat) : (steps : Nat) → Child → Disk → Child × Disk
  | 0, c, disk => (c, disk)
  | steps + 1, c, disk =>
    match c.step now disk with
    | none => (c, disk)
    | some (c, disk) => settle now steps c disk

end AgentSupervisor.Child
