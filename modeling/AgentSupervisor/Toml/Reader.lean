import AgentSupervisor.Toml.Draft
import AgentSupervisor.Toml.Number
import AgentSupervisor.Toml.Quoted

/-!
# Reading TOML

Values, lines and documents of TOML 1.0. Lines end with a line feed, perhaps after a carriage
return; comments hold no control characters but tabs; arrays may run over lines and tables in
braces may not. At most `maxDepth` of the two may be open at a time.

* `parse? cs` : the table of a document, or `none` when the text is no TOML.
-/

namespace AgentSupervisor.Toml

/-! ## Gaps -/

/-- Drop blanks, line ends and comments in front. `inComment` tells that a comment is open. -/
def skipGaps (inComment : Bool) : List Char → Option (List Char)
  | [] => some []
  | '\n' :: r => skipGaps false r
  | '\r' :: '\n' :: r => skipGaps false r
  | c :: r =>
    if inComment then (if isText c then skipGaps true r else none)
    else if c = '#' then skipGaps true r
    else if isSpace c then skipGaps false r
    else some (c :: r)

/-- The text after the end of a line, where only blanks and a comment may still stand. -/
def endLine (cs : List Char) : Option (List Char) :=
  let r := match skipSpace cs with
    | '#' :: t => t.dropWhile isText
    | t => t
  if r.isEmpty then some [] else lineEnd? r

/-! ## Values -/

/-- The largest number of arrays and tables in braces that may be open at a time. -/
def maxDepth : Nat := 79

mutual

/-- One value and the text after it. `depth` more brackets and braces may be opened. -/
def value : (fuel depth : Nat) → List Char → Option (Toml × List Char)
  | 0, _, _ => none
  | fuel + 1, depth, cs =>
    match cs with
    | 't' :: 'r' :: 'u' :: 'e' :: r => some (.boolean true, r)
    | 'f' :: 'a' :: 'l' :: 's' :: 'e' :: r => some (.boolean false, r)
    | '[' :: r =>
      if depth = 0 then none else (items fuel (depth - 1) r).map fun p => (.array p.1, p.2)
    | '\x7b' :: r =>
      if depth = 0 then none
      else match skipSpace r with
        | '\x7d' :: r' => some (.table [], r')
        | _ => do
          let (ps, r') ← pairs fuel (depth - 1) r
          return (.table (← Draft.ofPairs? ps), r')
    | '"' :: _ => (string? cs).map fun p => (.string (String.ofList p.1), p.2)
    | '\'' :: _ => (string? cs).map fun p => (.string (String.ofList p.1), p.2)
    | _ => numberOrMoment cs

/-- The items of an array up to the closing bracket. -/
def items : (fuel depth : Nat) → List Char → Option (List Toml × List Char)
  | 0, _, _ => none
  | fuel + 1, depth, cs => do
    match ← skipGaps false cs with
    | ']' :: r => return ([], r)
    | r =>
      let (x, r1) ← value fuel depth r
      match ← skipGaps false r1 with
      | ',' :: r2 => (items fuel depth r2).map fun p => (x :: p.1, p.2)
      | ']' :: r2 => return ([x], r2)
      | _ => none

/-- The entries of a table in braces up to the closing brace. -/
def pairs : (fuel depth : Nat) → List Char → Option (List (List String × Toml) × List Char)
  | 0, _, _ => none
  | fuel + 1, depth, cs => do
    match ← key? cs with
    | (ks, '=' :: r) =>
      let (x, r1) ← value fuel depth (skipSpace r)
      match skipSpace r1 with
      | ',' :: r2 => (pairs fuel depth r2).map fun p => ((ks, x) :: p.1, p.2)
      | '\x7d' :: r2 => return ([(ks, x)], r2)
      | _ => none
    | _ => none

end

/-! ## Lines -/

/-- One line that says something, and the text after its end. -/
def statement (cs : List Char) : Option (Statement × List Char) := do
  match cs with
  | '[' :: '[' :: r =>
    match ← key? r with
    | (path, ']' :: ']' :: r') => return (.listHeader path, ← endLine r')
    | _ => none
  | '[' :: r =>
    match ← key? r with
    | (path, ']' :: r') => return (.header path, ← endLine r')
    | _ => none
  | _ =>
    match ← key? cs with
    | (keys, '=' :: r) =>
      let (v, r') ← value (2 * r.length + 2) maxDepth (skipSpace r)
      return (.entry keys v, ← endLine r')
    | _ => none

/-- The lines of a document that say something. A step takes one character at least. -/
def statements : (fuel : Nat) → List Char → Option (List Statement)
  | 0, _ => none
  | fuel + 1, cs =>
    match skipSpace cs with
    | [] => some []
    | '#' :: r => (endLine ('#' :: r)).bind (statements fuel)
    | '\n' :: r => statements fuel r
    | '\r' :: '\n' :: r => statements fuel r
    | r => do
      let (s, r') ← statement r
      return s :: (← statements fuel r')

/-- A document without the byte order mark it may begin with. -/
def dropMark : List Char → List Char
  | '\ufeff' :: r => r
  | r => r

/-- The table of a document. -/
def parse? (cs : List Char) : Option Entries :=
  let text := dropMark cs
  (statements (text.length + 1) text).bind Building.run

/-- The table of the document in a string. -/
def ofString? (s : String) : Option Entries := parse? s.toList

end AgentSupervisor.Toml
