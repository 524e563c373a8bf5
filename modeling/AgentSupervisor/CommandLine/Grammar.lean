/-!
# Grammar of command lines

A program has options, positional words and subcommands, which have the same in turn. Options
are read under these rules.

* `--long value`, `--long=value`, `-s value`, `-svalue` and `-s=value` give a value; flags of
  one letter may share a hyphen. Names are not abbreviated.
* An option may be given once at each level. An option that stands at several levels takes its
  value from the deepest one, and a value on the line counts before one from the environment.
* A value that begins with a hyphen must be joined with `=`, unless the option takes any word.
* `--` ends the options; a lone hyphen is a word like any other.
* Help and version are given as soon as they are reached, and any fault before them comes first.
  A value that is parted from its option is only looked at when the next word is read, and at a
  level that has a subcommand when that subcommand has been read.
-/

namespace AgentSupervisor.CommandLine

/-- What an option does. -/
inductive Action where
  /-- it takes a value that passes a check; with `anyWord` also one that begins with a hyphen -/
  | value (anyWord : Bool) (check : String → Bool)
  | flag
  | help
  | version

/-- An option. -/
structure Switch where
  /-- the name under which its value is found -/
  key : String
  long : Option String := none
  short : Option Char := none
  action : Action
  /-- the variable that gives its value when the line does not -/
  envName : Option String := none

/-- A positional word. -/
structure Positional where
  key : String
  required : Bool
  deriving Repr, DecidableEq

/-- What a program or subcommand takes. -/
inductive Grammar where
  | mk (name : String) (switches : List Switch) (positionals : List Positional)
    (subcommands : List Grammar)

namespace Grammar

/-- The name of a subcommand. -/
def name : Grammar → String
  | .mk n _ _ _ => n

/-- The options at a level. -/
def switches : Grammar → List Switch
  | .mk _ s _ _ => s

/-- The positional words at a level. -/
def positionals : Grammar → List Positional
  | .mk _ _ p _ => p

/-- The subcommands at a level. -/
def subcommands : Grammar → List Grammar
  | .mk _ _ _ g => g

/-- The subcommand of a name. -/
def subcommand? (g : Grammar) (w : String) : Option Grammar :=
  g.subcommands.find? fun s => s.name == w

end Grammar

/-- Why there is nothing to do. -/
inductive Refusal where
  | help
  | version
  /-- the line breaks the grammar -/
  | usage
  deriving Repr, DecidableEq

/-- Where a value comes from. -/
inductive Source where
  | environment
  | line
  deriving Repr, DecidableEq

/-- The value of an option or a positional word; a flag has an empty one. -/
structure Setting where
  key : String
  value : String
  source : Source
  deriving Repr, DecidableEq

/-- What one level of the line says. -/
structure Level where
  name : String
  settings : List Setting
  deriving Repr, DecidableEq

/-! ## Words -/

/-- The kinds of words before `--`. -/
inductive Word where
  | escape
  | long (name : List Char) (value : Option (List Char))
  | short (letters : List Char)
  | plain
  deriving Repr, DecidableEq

/-- What may follow an equals sign. -/
def afterEquals : List Char → Option (List Char)
  | [] => none
  | _ :: r => some r

/-- The kind of a word. -/
def Word.ofChars : List Char → Word
  | ['-', '-'] => .escape
  | '-' :: '-' :: r => .long (r.takeWhile (· != '=')) (afterEquals (r.dropWhile (· != '=')))
  | '-' :: c :: r => .short (c :: r)
  | _ => .plain

/-! ## One level -/

/-- What has been read of a level. -/
structure Reading where
  settings : List Setting := []
  /-- how many positional words there were -/
  words : Nat := 0
  /-- an option whose value is parted from it, and that value once it is there -/
  pending : Option (Switch × Option String) := none
  /-- after `--` -/
  escaped : Bool := false

namespace Reading

/-- Has an option or a word been given? -/
def has (r : Reading) (key : String) : Bool := r.settings.any fun s => s.key == key

/-- Set an option, unless it has been set before or its value fails the check. -/
def set (r : Reading) (s : Switch) (value : String) (source : Source) : Except Refusal Reading :=
  match s.action with
  | .help => .error .help
  | .version => .error .version
  | .flag =>
    if r.has s.key then .error .usage
    else .ok { r with settings := r.settings ++ [⟨s.key, "", source⟩] }
  | .value _ check =>
    if r.has s.key || !check value then .error .usage
    else .ok { r with settings := r.settings ++ [⟨s.key, value, source⟩] }

/-- Settle the option that is pending. -/
def settle (r : Reading) : Except Refusal Reading :=
  match r.pending with
  | none => .ok r
  | some (_, none) => .error .usage
  | some (s, some v) => { r with pending := none }.set s v .line

/-- Is a word wanted as the value of an option? -/
def wanting? (r : Reading) : Option Switch :=
  match r.pending with
  | some (s, none) => some s
  | _ => none

/-- Does the option that wants a value take any word? -/
def wantsAny (r : Reading) : Bool :=
  match r.wanting? with
  | some ⟨_, _, _, .value anyWord _, _⟩ => anyWord
  | _ => false

/-- Give an option with a value that is joined to it. -/
def joined (r : Reading) (s : Switch) (value : List Char) : Except Refusal Reading := do
  (← r.settle).set s (String.ofList value) .line

/-- Give an option whose value is still to come. -/
def opened (r : Reading) (s : Switch) : Except Refusal Reading := do
  return { ← r.settle with pending := some (s, none) }

/-- Give a long option. -/
def long (g : Grammar) (r : Reading) (name : List Char) (value : Option (List Char)) :
    Except Refusal Reading :=
  match g.switches.find? fun s => s.long == some (String.ofList name) with
  | none => .error .usage
  | some s =>
    match s.action, value with
    | .value .., some v => r.joined s v
    | .value .., none => r.opened s
    | _, some _ => .error .usage
    | _, none => r.joined s []

/-- Give the short options of one word. -/
def short (g : Grammar) (r : Reading) : List Char → Except Refusal Reading
  | [] => .ok r
  | c :: cs =>
    match g.switches.find? fun s => s.short == some c with
    | none => .error .usage
    | some s =>
      match s.action, cs with
      | .value .., [] => r.opened s
      | .value .., '=' :: v => r.joined s v
      | .value .., v => r.joined s v
      | _, _ => do (← r.joined s []).short g cs

/-- Take a positional word. -/
def word (g : Grammar) (r : Reading) (w : String) : Except Refusal Reading :=
  match g.positionals[r.words]? with
  | none => .error .usage
  | some p => do
    let r ← r.settle
    return { r with words := r.words + 1, settings := r.settings ++ [⟨p.key, w, .line⟩] }

/-- Take any word that is no subcommand. -/
def take (g : Grammar) (r : Reading) (w : String) : Except Refusal Reading :=
  if r.escaped then r.word g w
  else
    let plain : Except Refusal Reading :=
      match r.wanting? with
      | some s => .ok { r with pending := some (s, some w) }
      | none => r.word g w
    if r.wantsAny then plain
    else match Word.ofChars w.toList with
      | .escape => .ok { r with escaped := true }
      | .long name value => r.long g name value
      | .short letters => r.short g letters
      | .plain => plain

/-- Set an option from the environment, if the line does not set it. -/
def fill (lookup : String → Option String) (r : Reading) (s : Switch) : Except Refusal Reading :=
  if r.has s.key then .ok r
  else match s.envName.bind lookup with
    | none => .ok r
    | some v => r.set s v .environment

/-- The end of a level: everything that is required has to be there. -/
def finish (g : Grammar) (lookup : String → Option String) (r : Reading) (hasSubcommand : Bool) :
    Except Refusal Level := do
  let r ← r.settle
  let r ← g.switches.foldlM (fill lookup) r
  if g.positionals.any (fun p => p.required && !r.has p.key) then .error .usage
  else if !g.subcommands.isEmpty && !hasSubcommand then .error .usage
  else return ⟨g.name, r.settings⟩

end Reading

/-! ## The whole line -/

/-- The answer to words after the word `help`: they have to lead to a subcommand. -/
def helpOn : Grammar → List String → Refusal
  | _, [] => .help
  | g, w :: ws =>
    match g.subcommand? w with
    | some s => helpOn s ws
    | none => if w == "help" && !g.subcommands.isEmpty && ws.isEmpty then .help else .usage

/-- Read the words of a level and of those below it. -/
def levels (lookup : String → Option String) (g : Grammar) (r : Reading) :
    List String → Except Refusal (List Level)
  | [] => do return [← r.finish g lookup false]
  | w :: ws =>
    if r.escaped || r.wanting?.isSome then do levels lookup g (← r.take g w) ws
    else match g.subcommand? w with
      | some s => do
        let deeper ← levels lookup s {} ws
        return (← r.finish g lookup true) :: deeper
      | none =>
        if w == "help" && !g.subcommands.isEmpty then .error (helpOn g ws)
        else do levels lookup g (← r.take g w) ws

/-- Of the settings of one key at a level and below it, the one that counts. -/
def stronger (above below : Option Setting) : Option Setting :=
  match above, below with
  | some a, some b => if a.source = .line ∧ b.source = .environment then some a else some b
  | a, none => a
  | none, b => b

/-- The value of a key, over all levels. -/
def value? (ls : List Level) (key : String) : Option String :=
  (ls.foldl (fun s l => stronger s (l.settings.find? fun t => t.key == key)) none).map
    Setting.value

/-- Is a flag set at any level? -/
def isSet (ls : List Level) (key : String) : Bool := (value? ls key).isSome

end AgentSupervisor.CommandLine
