import AgentSupervisor.Text.Numeral

/-!
# Strings and keys of TOML

The four kinds of string and the three kinds of key. In a string over several lines a line
feed right after the opening quotes is dropped, one or two quotes in a row stand for
themselves, and the closing run may hold up to two more quotes than it needs. Each reader gets
the text after the opening quotes and gives the string with the text after the closing ones.
-/

namespace AgentSupervisor.Toml

open AgentSupervisor.Text (hexValue)

/-- A blank within a line. -/
def isSpace (c : Char) : Bool := c == ' ' || c == '\t'

/-- Drop the blanks in front, up to the end of the line. -/
def skipSpace (cs : List Char) : List Char := cs.dropWhile isSpace

/-- A character that a line of text may hold as it is: no control character but a tab. -/
def isText (c : Char) : Bool := c == '\t' || (0x20 ≤ c.toNat && c.toNat ≠ 0x7F)

/-! ## Escapes -/

/-- The character of a code point, if it is one. -/
def charOf? (n : Nat) : Option Char := if h : n.isValidChar then some ⟨n.toUInt32, by
    simpa [UInt32.isValidChar, Nat.toUInt32, Nat.mod_eq_of_lt
      (show n < 4294967296 by rcases h with h | ⟨_, h⟩ <;> omega)] using h⟩ else none

/-- The character of a row of hexadecimal digits. -/
def hexChar? (ds : List Char) : Option Char := do
  let vs ← ds.mapM hexValue
  charOf? (vs.foldl (fun n v => 16 * n + v) 0)

/-- The character of an escape of one letter. -/
def letterEscape (c : Char) : Option Char :=
  if c = 'b' then some '\x08'
  else if c = 't' then some '\t'
  else if c = 'n' then some '\n'
  else if c = 'f' then some '\x0c'
  else if c = 'r' then some '\r'
  else if c = '"' then some '"'
  else if c = '\\' then some '\\'
  else none

/-- The character of an escape, and the text after it. The backslash is already read. -/
def escape? : List Char → Option (Char × List Char)
  | 'u' :: a :: b :: c :: d :: r => (hexChar? [a, b, c, d]).map fun x => (x, r)
  | 'U' :: a :: b :: c :: d :: e :: f :: g :: h :: r =>
    (hexChar? [a, b, c, d, e, f, g, h]).map fun x => (x, r)
  | c :: r => (letterEscape c).map fun x => (x, r)
  | [] => none

theorem escape?_shorter {cs : List Char} {p : Char × List Char} (h : escape? cs = some p) :
    p.2.length < cs.length := by
  unfold escape? at h
  split at h
  · obtain ⟨x, _, rfl⟩ := Option.map_eq_some_iff.mp h; simp only [List.length_cons]; omega
  · obtain ⟨x, _, rfl⟩ := Option.map_eq_some_iff.mp h; simp only [List.length_cons]; omega
  · obtain ⟨x, _, rfl⟩ := Option.map_eq_some_iff.mp h; simp only [List.length_cons]; omega
  · simp at h

/-! ## Strings on one line -/

/-- A basic string. -/
def basic (cs : List Char) : Option (List Char × List Char) :=
  match cs with
  | [] => none
  | '"' :: r => some ([], r)
  | '\\' :: r =>
    match h : escape? r with
    | none => none
    | some p =>
      have : p.2.length < r.length := escape?_shorter h
      (basic p.2).map fun q => (p.1 :: q.1, q.2)
  | c :: r => if isText c then (basic r).map fun q => (c :: q.1, q.2) else none
termination_by cs.length

/-- A literal string. -/
def literal : List Char → Option (List Char × List Char)
  | [] => none
  | '\'' :: r => some ([], r)
  | c :: r => if isText c then (literal r).map fun q => (c :: q.1, q.2) else none

/-! ## Strings over several lines -/

/-- Drop a line end in front. -/
def dropLineEnd : List Char → List Char
  | '\n' :: r => r
  | '\r' :: '\n' :: r => r
  | r => r

/-- A line end in front, and the text after it. -/
def lineEnd? : List Char → Option (List Char)
  | '\n' :: r => some r
  | '\r' :: '\n' :: r => some r
  | _ => none

/-- Drop blanks and line ends in front. -/
def skipLines : List Char → List Char
  | '\n' :: r => skipLines r
  | '\r' :: '\n' :: r => skipLines r
  | c :: r => if isSpace c then skipLines r else c :: r
  | [] => []

/-- The text after a backslash that joins two lines: blanks, a line end, and all blanks and
    line ends after it. -/
def joined? (cs : List Char) : Option (List Char) := (lineEnd? (skipSpace cs)).map skipLines

theorem skipLines_length (cs : List Char) : (skipLines cs).length ≤ cs.length := by
  fun_induction skipLines cs <;> grind

theorem joined?_shorter {cs r : List Char} (h : joined? cs = some r) :
    r.length < cs.length := by
  obtain ⟨t, ht, rfl⟩ := Option.map_eq_some_iff.mp h
  have h1 : (skipSpace cs).length ≤ cs.length :=
    (List.dropWhile_suffix _).length_le
  have h2 : t.length < (skipSpace cs).length := by
    revert ht
    unfold lineEnd?
    split <;> grind
  have h3 := skipLines_length t
  omega

/-- The end of a string at a run of its quotes: the quotes of the run that belong to the
    string, and the text after the run. At most five quotes belong to the run. -/
def closing (quote : Char) : List Char → Option (List Char × List Char)
  | a :: b :: c :: d :: e :: r =>
    if a = quote ∧ b = quote ∧ c = quote then
      if d = quote ∧ e = quote then some ([quote, quote], r)
      else if d = quote then some ([quote], e :: r)
      else some ([], d :: e :: r)
    else none
  | [a, b, c, d] =>
    if a = quote ∧ b = quote ∧ c = quote then
      if d = quote then some ([quote], []) else some ([], [d])
    else none
  | [a, b, c] => if a = quote ∧ b = quote ∧ c = quote then some ([], []) else none
  | _ => none

/-- A basic string over several lines, after its first line end. -/
def basicLines (cs : List Char) : Option (List Char × List Char) :=
  match cs with
  | [] => none
  | '\\' :: r =>
    match hj : joined? r with
    | some r' =>
      have : r'.length < r.length := joined?_shorter hj
      basicLines r'
    | none =>
      match h : escape? r with
      | none => none
      | some p =>
        have : p.2.length < r.length := escape?_shorter h
        (basicLines p.2).map fun q => (p.1 :: q.1, q.2)
  | '\n' :: r => (basicLines r).map fun q => ('\n' :: q.1, q.2)
  | '\r' :: '\n' :: r => (basicLines r).map fun q => ('\n' :: q.1, q.2)
  | '"' :: r =>
    match closing '"' ('"' :: r) with
    | some q => some q
    | none => (basicLines r).map fun q => ('"' :: q.1, q.2)
  | c :: r => if isText c then (basicLines r).map fun q => (c :: q.1, q.2) else none
termination_by cs.length

/-- A literal string over several lines, after its first line end. -/
def literalLines : List Char → Option (List Char × List Char)
  | [] => none
  | '\n' :: r => (literalLines r).map fun q => ('\n' :: q.1, q.2)
  | '\r' :: '\n' :: r => (literalLines r).map fun q => ('\n' :: q.1, q.2)
  | '\'' :: r =>
    match closing '\'' ('\'' :: r) with
    | some q => some q
    | none => (literalLines r).map fun q => ('\'' :: q.1, q.2)
  | c :: r => if isText c then (literalLines r).map fun q => (c :: q.1, q.2) else none

/-- A string of any kind. -/
def string? : List Char → Option (List Char × List Char)
  | '"' :: '"' :: '"' :: r => basicLines (dropLineEnd r)
  | '"' :: r => basic r
  | '\'' :: '\'' :: '\'' :: r => literalLines (dropLineEnd r)
  | '\'' :: r => literal r
  | _ => none

/-! ## Keys -/

/-- A character of a key without quotes. -/
def isBare (c : Char) : Bool :=
  ('A' ≤ c && c ≤ 'Z') || ('a' ≤ c && c ≤ 'z') || ('0' ≤ c && c ≤ '9') || c == '-' || c == '_'

/-- One key. -/
def simpleKey? : List Char → Option (List Char × List Char)
  | '"' :: r => basic r
  | '\'' :: r => literal r
  | r =>
    let ds := r.takeWhile isBare
    if ds.isEmpty then none else some (ds, r.dropWhile isBare)

/-- The largest number of keys with dots between them. -/
def maxKeys : Nat := 79

/-- Keys with dots between them, blanks allowed around each, and the text after them. -/
def dottedKey : (fuel : Nat) → List Char → Option (List String × List Char)
  | 0, _ => none
  | fuel + 1, cs => do
    let (k, r) ← simpleKey? (skipSpace cs)
    match skipSpace r with
    | '.' :: r' =>
      let (ks, r'') ← dottedKey fuel r'
      return (String.ofList k :: ks, r'')
    | r' => return ([String.ofList k], r')

/-- A key of one part or more. -/
def key? (cs : List Char) : Option (List String × List Char) := dottedKey maxKeys cs

end AgentSupervisor.Toml
