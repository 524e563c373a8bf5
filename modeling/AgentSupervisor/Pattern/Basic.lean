import AgentSupervisor.Text.Blank

/-!
# Patterns over text

Regular patterns with the two anchors of the whole text. `Matches` says from which `Cursor` to
which a match leads, a cursor being the text that is left and whether any of it has been read.
The matcher reads the text once and keeps the patterns that may be left to match.

* `accepts p s`    : some part of `s` matches `p`;
* `acceptsAny ps s` : one of several patterns is accepted.
-/

namespace AgentSupervisor

/-- One member of a character class. -/
inductive ClassItem where
  /-- the characters from `low` to `high` -/
  | range (low high : Char)
  /-- white space -/
  | blank
  /-- anything but white space -/
  | nonblank
  deriving Repr, DecidableEq

/-- Is the character a member? -/
def ClassItem.has (c : Char) : ClassItem → Bool
  | .range low high => low ≤ c && c ≤ high
  | .blank => Text.isBlank c
  | .nonblank => !Text.isBlank c

/-- A regular pattern. -/
inductive Pattern where
  /-- the empty text -/
  | empty
  /-- one given character -/
  | char (c : Char)
  /-- one character of a class, or one outside it -/
  | oneOf (negated : Bool) (items : List ClassItem)
  /-- the beginning of the text -/
  | atStart
  /-- the end of the text -/
  | atEnd
  | seq (first second : Pattern)
  | alt (left right : Pattern)
  /-- any number of times -/
  | star (body : Pattern)
  deriving Repr, DecidableEq

namespace Pattern

/-- A place in a text: whether it is the beginning, and the text that is left. -/
structure Cursor where
  first : Bool
  rest : List Char
  deriving Repr, DecidableEq

/-- One or more times. -/
def plus (p : Pattern) : Pattern := .seq p (.star p)

/-- Once or not at all. -/
def optional (p : Pattern) : Pattern := .alt p .empty

/-- The characters of a text one after another. -/
def literal (cs : List Char) : Pattern := cs.foldr (fun c p => .seq (.char c) p) .empty

/-- Does a class with its negation mark take this character? -/
def classHas (negated : Bool) (items : List ClassItem) (c : Char) : Bool :=
  (items.any (ClassItem.has c)) != negated

/-! ## The relation -/

/-- A match of the pattern leads from the first cursor to the second. -/
inductive Matches : Pattern → Cursor → Cursor → Prop where
  | empty (s : Cursor) : Matches .empty s s
  | char (c : Char) (b : Bool) (r : List Char) : Matches (.char c) ⟨b, c :: r⟩ ⟨false, r⟩
  | oneOf (n : Bool) (is : List ClassItem) (c : Char) (b : Bool) (r : List Char)
      (h : classHas n is c = true) : Matches (.oneOf n is) ⟨b, c :: r⟩ ⟨false, r⟩
  | atStart (r : List Char) : Matches .atStart ⟨true, r⟩ ⟨true, r⟩
  | atEnd (b : Bool) : Matches .atEnd ⟨b, []⟩ ⟨b, []⟩
  | seq {p q : Pattern} {s t u : Cursor} : Matches p s t → Matches q t u → Matches (.seq p q) s u
  | left {p q : Pattern} {s t : Cursor} : Matches p s t → Matches (.alt p q) s t
  | right {p q : Pattern} {s t : Cursor} : Matches q s t → Matches (.alt p q) s t
  | none (p : Pattern) (s : Cursor) : Matches (.star p) s s
  | more {p : Pattern} {s t u : Cursor} :
      Matches p s t → Matches (.star p) t u → Matches (.star p) s u

/-! ## The matcher -/

/-- Does the pattern match nothing at all, at a place that may be the beginning of the text and
    may be its end? -/
def nullable (first last : Bool) : Pattern → Bool
  | .empty | .star _ => true
  | .char _ | .oneOf .. => false
  | .atStart => first
  | .atEnd => last
  | .seq p q => p.nullable first last && q.nullable first last
  | .alt p q => p.nullable first last || q.nullable first last

/-- What may be left to match when a character has been read. -/
def after (first : Bool) (c : Char) : Pattern → List Pattern
  | .empty | .atStart | .atEnd => []
  | .char d => if d = c then [.empty] else []
  | .oneOf negated items => if classHas negated items c then [.empty] else []
  | .seq p q =>
    (p.after first c).map (.seq · q) ++ if p.nullable first false then q.after first c else []
  | .alt p q => p.after first c ++ q.after first c
  | .star p => (p.after first c).map (.seq · (.star p))

/-- Does a match of one of the live patterns begin here, or one of `p` begin here or later? -/
def search (p : Pattern) (first : Bool) (live : List Pattern) : List Char → Bool
  | [] => (p :: live).any (nullable first true)
  | c :: r =>
    let all := (p :: live).eraseDups
    all.any (nullable first false) || p.search false (all.flatMap (after first c)) r

/-- Some part of the text matches. -/
def accepts (p : Pattern) (s : String) : Bool := p.search true [] s.toList

/-- One of the patterns is accepted. -/
def acceptsAny (ps : List Pattern) (s : String) : Bool := ps.any fun p => p.accepts s

end Pattern

end AgentSupervisor
