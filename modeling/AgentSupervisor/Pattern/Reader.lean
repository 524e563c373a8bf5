import AgentSupervisor.Pattern.Basic

/-!
# The text of patterns

Reading a pattern from its text: alternatives, groups, the anchors, the full stop, classes,
repetition with `*`, `+` and `?`, and escapes. Braces, nested classes and letters without a
meaning have to be escaped or are refused, and so is anything left open.

* `read? cs`    : the pattern of a text, or `none` when the text is broken;
* `quoteText cs` : the text of the pattern that matches `cs` itself.
-/

namespace AgentSupervisor.Pattern

/-! ## Escapes -/

/-- A character that may be escaped to stand for itself: ASCII, and neither a letter nor a
    digit nor an angle bracket. -/
def isEscapable (c : Char) : Bool :=
  c.toNat < 0x80 && !c.isAlphanum && c != '<' && c != '>'

/-- The control character of an escaped letter. -/
def controlEscape (c : Char) : Option Char :=
  if c = 'n' then some '\n'
  else if c = 't' then some '\t'
  else if c = 'r' then some '\r'
  else if c = 'f' then some '\x0c'
  else if c = 'v' then some '\x0b'
  else if c = 'a' then some '\x07'
  else none

/-- The class item of an escaped character. -/
def escapedItem (c : Char) : Option ClassItem :=
  if c = 's' then some .blank
  else if c = 'S' then some .nonblank
  else match controlEscape c with
    | some d => some (.range d d)
    | none => if isEscapable c then some (.range c c) else none

/-- The pattern of an escaped character. -/
def escaped (c : Char) : Option Pattern :=
  match escapedItem c with
  | some (.range d _) => some (.char d)
  | some item => some (.oneOf false [item])
  | none => none

/-! ## Classes -/

/-- One member of a class without its range, and the text after it. -/
def classAtom : List Char → Option (ClassItem × List Char)
  | '\\' :: c :: r => (escapedItem c).map fun i => (i, r)
  | '\\' :: [] => none
  | '[' :: _ => none
  | c :: r => some (.range c c, r)
  | [] => none

/-- The members of a class up to its closing bracket. -/
def classItems : (fuel : Nat) → List Char → Option (List ClassItem × List Char)
  | 0, _ => none
  | _ + 1, ']' :: r => some ([], r)
  | fuel + 1, cs =>
    match classAtom cs with
    | none => none
    | some (.range low _, '-' :: ']' :: r) => some ([.range low low, .range '-' '-'], r)
    | some (.range low _, '-' :: r) =>
      match classAtom r with
      | some (.range high _, r') =>
        if low ≤ high then
          (classItems fuel r').map fun p => (.range low high :: p.1, p.2)
        else none
      | _ => none
    | some (item, r) => (classItems fuel r).map fun p => (item :: p.1, p.2)

/-- A class after its opening bracket. A closing bracket in first place is a member. -/
def classBody (cs : List Char) : Option (Pattern × List Char) :=
  let (negated, r) : Bool × List Char := match cs with
    | '^' :: t => (true, t)
    | t => (false, t)
  match r with
  | ']' :: t =>
    (classItems (t.length + 1) t).map fun p => (.oneOf negated (.range ']' ']' :: p.1), p.2)
  | t => (classItems (t.length + 1) t).map fun p => (.oneOf negated p.1, p.2)

/-! ## Expressions -/

/-- Any character but a line feed. -/
def anyChar : Pattern := .oneOf true [.range '\n' '\n']

/-- Apply the repetition marks that follow. A question mark after a mark asks for the shortest
    match, which does not change whether there is one. -/
def repeated (p : Pattern) : List Char → Pattern × List Char
  | '*' :: '?' :: r => repeated (.star p) r
  | '*' :: r => repeated (.star p) r
  | '+' :: '?' :: r => repeated p.plus r
  | '+' :: r => repeated p.plus r
  | '?' :: '?' :: r => repeated p.optional r
  | '?' :: r => repeated p.optional r
  | r => (p, r)

mutual

/-- Alternatives up to a closing parenthesis or the end. -/
def alternatives : (fuel : Nat) → List Char → Option (Pattern × List Char)
  | 0, _ => none
  | fuel + 1, cs =>
    match sequence fuel cs with
    | some (p, '|' :: r) => (alternatives fuel r).map fun q => (.alt p q.1, q.2)
    | other => other

/-- Pieces one after another. -/
def sequence : (fuel : Nat) → List Char → Option (Pattern × List Char)
  | 0, _ => none
  | _ + 1, [] => some (.empty, [])
  | fuel + 1, c :: r =>
    if c = '|' ∨ c = ')' then some (.empty, c :: r)
    else match piece fuel (c :: r) with
      | none => none
      | some (p, r') =>
        let (q, r'') := repeated p r'
        (sequence fuel r'').map fun s => (.seq q s.1, s.2)

/-- One character, class, anchor or group. -/
def piece : (fuel : Nat) → List Char → Option (Pattern × List Char)
  | 0, _ => none
  | fuel + 1, '(' :: '?' :: ':' :: r =>
    match alternatives fuel r with
    | some (p, ')' :: r') => some (p, r')
    | _ => none
  | fuel + 1, '(' :: r =>
    match alternatives fuel r with
    | some (p, ')' :: r') => some (p, r')
    | _ => none
  | _ + 1, '[' :: r => classBody r
  | _ + 1, '\\' :: c :: r => (escaped c).map fun p => (p, r)
  | _ + 1, '.' :: r => some (anyChar, r)
  | _ + 1, '^' :: r => some (.atStart, r)
  | _ + 1, '$' :: r => some (.atEnd, r)
  | _ + 1, c :: r =>
    if c = '*' ∨ c = '+' ∨ c = '?' ∨ c = '\x7b' ∨ c = '\\' then none else some (.char c, r)
  | _ + 1, [] => none

end

/-- The pattern of a text. Three units of fuel are spent on a character at the most. -/
def read? (cs : List Char) : Option Pattern :=
  match alternatives (3 * cs.length + 3) cs with
  | some (p, []) => some p
  | _ => none

/-- The pattern of a string. -/
def ofString? (s : String) : Option Pattern := read? s.toList

/-! ## Quoting -/

/-- The characters that have a meaning in the text of a pattern. -/
def specialChars : List Char :=
  ['\\', '.', '+', '*', '?', '(', ')', '|', '[', ']', '\x7b', '\x7d', '^', '$', '#', '&', '-', '~']

/-- A character with a backslash in front if it has a meaning. -/
def quoteChar (c : Char) : List Char := if specialChars.contains c then ['\\', c] else [c]

/-- The text of the pattern that matches the given characters. -/
def quoteText (cs : List Char) : List Char := cs.flatMap quoteChar

end AgentSupervisor.Pattern
