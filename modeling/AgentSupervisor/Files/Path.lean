/-!
# Paths as text

Joining paths and taking the last name of one. A path is text; its names are parted by
slashes, and empty names and single dots say nothing.
-/

namespace AgentSupervisor.Path

/-- A path that begins at the root. -/
def isAbsolute (p : String) : Bool := p.toList.head? == some '/'

/-- A path below another one. A slash is put between the two unless the first is empty or ends
    in one, and an absolute second path stands alone. -/
def join (dir name : String) : String :=
  if isAbsolute name || dir.isEmpty then name
  else if dir.toList.getLast? == some '/' then dir ++ name
  else dir ++ "/" ++ name

/-- The parts of a text between slashes. `current` is the part in progress, backwards. -/
def splitFrom (current : List Char) : List Char → List (List Char)
  | [] => [current.reverse]
  | c :: cs => if c = '/' then current.reverse :: splitFrom [] cs else splitFrom (c :: current) cs

/-- The names of a path, without those that say nothing. -/
def names (cs : List Char) : List (List Char) :=
  (splitFrom [] cs).filter fun n => !n.isEmpty && n != ['.']

/-- The last name of a path. A path that ends by going up has none. -/
def fileName? (cs : List Char) : Option (List Char) :=
  match (names cs).getLast? with
  | none => none
  | some n => if n = ['.', '.'] then none else some n

end AgentSupervisor.Path
