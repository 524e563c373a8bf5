import AgentSupervisor.Process.Script

/-!
# Expansion of words

How the words of a command become the arguments of a program: variables are put in, what an
unquoted variable holds is cut at blanks, and the pieces are joined.

* `ShellWord.fields`  : the arguments that a word becomes;
* `ShellWord.joined`  : a word as one text.
-/

namespace AgentSupervisor

/-- The variables of a shell. -/
abbrev Variables := List (String × String)

namespace Variables

/-- Give a variable a value. -/
def set (vs : Variables) (name value : String) : Variables :=
  (name, value) :: vs.filter fun v => v.1 != name

/-- Can a process have a variable in its environment? Its name is not empty and has no equals
    sign, and there is no NUL character in its name or its value. -/
def isSettable (name value : String) : Bool :=
  !name.isEmpty && !name.toList.contains '=' && !name.toList.contains '\x00' &&
    !value.toList.contains '\x00'

/-- Can a process have these variables in its environment? -/
def areSettable (vs : Variables) : Bool := vs.all fun v => isSettable v.1 v.2

end Variables

/-- The value of a variable, or what stands for it while it is empty. -/
def valueOr (value : List Char → String) (name orElse : List Char) : List Char :=
  let v := value name
  if v.isEmpty then orElse else v.toList

/-- Arguments in the making: the finished ones and the one in progress, backwards. -/
structure Fields where
  finished : List String := []
  current : Option (List Char) := none
  deriving Repr, DecidableEq

namespace Fields

/-- Add characters to the argument in progress. -/
def add (f : Fields) (cs : List Char) : Fields :=
  { f with current := some (cs.reverse ++ f.current.getD []) }

/-- End the argument in progress. -/
def finish (f : Fields) : Fields :=
  match f.current with
  | none => f
  | some cs => { finished := String.ofList cs.reverse :: f.finished, current := none }

/-- A character at which values are cut. -/
def isSeparator (c : Char) : Bool := c == ' ' || c == '\t' || c == '\n'

/-- Add a character of a value that is cut at blanks. -/
def addCut (f : Fields) (c : Char) : Fields := if isSeparator c then f.finish else f.add [c]

/-- Add a piece. -/
def addPiece (value : List Char → String) (f : Fields) : Piece → Fields
  | .text cs _ => f.add cs
  | .variable name orElse quoted =>
    let cs := valueOr value name orElse
    if quoted then f.add cs else cs.foldl addCut f

end Fields

namespace ShellWord

/-- The arguments that a word becomes. -/
def fields (value : List Char → String) (w : ShellWord) : List String :=
  (w.foldl (Fields.addPiece value) {}).finish.finished.reverse

/-- A word as one text. -/
def joined (value : List Char → String) (w : ShellWord) : String :=
  String.ofList (w.flatMap fun
    | .text cs _ => cs
    | .variable name orElse _ => valueOr value name orElse)

/-- The variable and the value that a word sets. `name` is what stands before, backwards. -/
def assignmentFrom (name : List Char) : ShellWord → Option (String × ShellWord)
  | .text ['='] false :: value =>
    if name.isEmpty then none else some (String.ofList name.reverse, value)
  | .text [c] false :: rest =>
    if Scanner.isNameStart c || (Scanner.isNameChar c && !name.isEmpty) then
      assignmentFrom (c :: name) rest
    else none
  | _ => none

/-- The variable and the value that a word sets, if it sets one. -/
def assignment? (w : ShellWord) : Option (String × ShellWord) := assignmentFrom [] w

end ShellWord

namespace Simple

/-- The variables that a command sets, in order, and the words after them. -/
def assignments : List ShellWord → List (String × ShellWord) × List ShellWord
  | [] => ([], [])
  | w :: ws =>
    match w.assignment? with
    | none => ([], w :: ws)
    | some a =>
      let (as, rest) := assignments ws
      (a :: as, rest)

end Simple

end AgentSupervisor
