import AgentSupervisor.Process.Builtin

/-!
# Becoming a program

Between its start and its first step a process is a copy of the supervisor. It takes on its
environment and becomes its program, and then nothing of the supervisor is left in it. If either
of the two does not work, it goes on as a copy: one whose environment cannot be set panics, and
one whose program cannot be run comes back from the start with an error, which the supervisor
itself never sees.

The system takes no word and no variable of more than a certain length. That there is a limit on
all of them together is left out, because a session has few of them.

* `ExecError` : why a program cannot be run;
* `Mishap`    : why a process remains a copy of the supervisor;
* `mishap?`   : whether a process does.
-/

namespace AgentSupervisor

/-- Why a program cannot be run. -/
inductive ExecError where
  /-- a word or a variable is too long -/
  | tooLong
  | notFound
  | refused
  deriving Repr, DecidableEq

/-- What an operator is told. -/
def ExecError.message : ExecError → String
  | .tooLong => "E2BIG: Argument list too long"
  | .notFound => "ENOENT: No such file or directory"
  | .refused => "EACCES: Permission denied"

/-- Why a new process remains a copy of the supervisor. -/
inductive Mishap where
  /-- a variable cannot be set -/
  | panics
  /-- its program cannot be run -/
  | fails (e : ExecError)
  deriving Repr, DecidableEq

namespace Child

/-- The bytes that the system takes for one word or one variable, with the NUL byte at its end. -/
def wordLimit : Nat := 131072

/-- Is a text short enough for a word? -/
def isShort (s : String) : Bool := (Utf8.encode s).length < wordLimit

/-- A variable as the system takes it. -/
def assignment (v : String × String) : String := v.1 ++ "=" ++ v.2

/-- Why a process cannot run the program of these words, if it cannot. Without words it runs
    none. -/
def execError? (disk : Disk) (argv : List String) (c : Child) : Option ExecError :=
  match argv with
  | [] => none
  | program :: _ =>
    if argv.all isShort && c.vars.all (isShort <| assignment ·) then
      match c.find disk program with
      | .program _ => none
      | .refused => some .refused
      | .missing => some .notFound
    else some .tooLong

/-- Why a process remains a copy of the supervisor when it is to become the program of these
    words, if it does. The environment comes first. -/
def mishapAs? (disk : Disk) (argv : List String) (c : Child) : Option Mishap :=
  if c.vars.areSettable then (c.execError? disk argv).map .fails else some .panics

/-- Why a process remains a copy of the supervisor, if it has not become a program yet and never
    will. -/
def mishap? (disk : Disk) (c : Child) : Option Mishap :=
  match c.agenda with
  | .become argv :: _ => c.mishapAs? disk argv
  | _ => none

end Child

end AgentSupervisor
