import AgentSupervisor.Process.Token

/-!
# Shell scripts

The commands that a script spells: simple commands with their redirections, joined by pipes, by
`&&` and `||`, and by semicolons or line ends; conditions, loops and groups of them.

* `Script.read` : the commands of a script, or what is wrong with it.
-/

namespace AgentSupervisor

/-- Where a stream of a command leads. -/
inductive Redirect where
  /-- to a file, at its end or in place of its content -/
  | file (stream : Nat) (atEnd : Bool) (path : ShellWord)
  /-- from a file -/
  | source (path : ShellWord)
  /-- to where another stream leads -/
  | copy (stream : Nat) (path : ShellWord)
  deriving Repr, DecidableEq

/-- A program with its words. -/
structure Simple where
  words : List ShellWord := []
  redirects : List Redirect := []
  deriving Repr, DecidableEq

/-- What a shell is to do. -/
inductive Script where
  | nothing
  /-- commands, each reading what the one before it writes -/
  | pipeline (stages : List Simple)
  | both (a b : Script)
  | either (a b : Script)
  | seq (a b : Script)
  /-- with the other outcome -/
  | invert (s : Script)
  | branch (condition yes no : Script)
  /-- again and again, as long as the condition goes well, or as long as it does not -/
  | loop (whileFine : Bool) (condition body : Script)
  /-- once for every value of a variable -/
  | each (name : String) (values : List ShellWord) (body : Script)
  /-- in a shell of its own -/
  | nested (s : Script)
  deriving Repr, DecidableEq

namespace Script

/-! ## Tokens by name -/

/-- A word without quotes and variables, as one text. -/
def literal? : ShellWord → Option (List Char)
  | [] => some []
  | .text cs false :: w => (literal? w).map (cs ++ ·)
  | _ => none

/-- The text of the token in front: of an operator, or of a word without quotes. -/
def heading : List Token → String
  | .operator o :: _ => o
  | .word w :: _ => String.ofList ((literal? w).getD [])
  | _ => ""

/-- The words that end a list of commands. -/
def closers : List String := ["then", "elif", "else", "fi", "do", "done", "\x7d"]

/-- The words that begin something else than a simple command. -/
def openers : List String := ["if", "while", "until", "for", "\x7b", "!"]

/-- A name between quotation marks. -/
def quoted (s : String) : String := String.ofList ('"' :: s.toList ++ ['"'])

/-- The token in front as a complaint names it. -/
def called : List Token → String
  | [] => "end of file"
  | .operator "newline" :: _ => "newline"
  | .operator o :: _ => quoted o
  | ts => if closers.contains (heading ts) || openers.contains (heading ts) then
      quoted (heading ts) else "word"

/-- The token in front is in the wrong place. -/
def wrong (ts : List Token) : ScriptError := .unexpected (called ts) none

/-- The tokens after a wanted one. -/
def expect (s : String) (ts : List Token) : Except ScriptError (List Token) :=
  if heading ts = s then .ok ts.tail else .error (.unexpected (called ts) (some (quoted s)))

/-- The tokens after the line ends in front. -/
def skipLines (ts : List Token) : List Token := ts.dropWhile (· == .operator "newline")

/-! ## Simple commands -/

/-- Is it the operator of a redirection? -/
def isRedirection (o : String) : Bool := o == ">" || o == ">>" || o == "<" || o == ">&"

/-- The redirection of an operator, for a stream if one is named. -/
def redirect (o : String) (stream : Option Nat) (path : ShellWord) : Redirect :=
  if o = "<" then .source path
  else if o = ">&" then .copy (stream.getD 1) path
  else .file (stream.getD 1) (o == ">>") path

/-- The rest of a simple command, and the tokens after it. -/
def simpleOf (k : Simple) : List Token → Except ScriptError (Simple × List Token)
  | [] => .ok (k, [])
  | .word w :: ts => simpleOf { k with words := k.words ++ [w] } ts
  | .stream n :: .operator o :: .word w :: ts =>
    simpleOf { k with redirects := k.redirects ++ [redirect o (some n) w] } ts
  | .operator o :: .word w :: ts =>
    if isRedirection o then
      simpleOf { k with redirects := k.redirects ++ [redirect o none w] } ts
    else .ok (k, .operator o :: .word w :: ts)
  | .operator o :: ts =>
    if isRedirection o then .error (wrong ts) else .ok (k, .operator o :: ts)
  | .stream _ :: ts => .error (wrong ts.tail)

/-- A simple command, and the tokens after it. -/
def simple (ts : List Token) : Except ScriptError (Simple × List Token) := do
  let (k, rest) ← simpleOf {} ts
  if k = {} then throw (wrong rest)
  return (k, rest)

/-- The commands that a pipe leads to. `left` bounds how many. -/
def stagesOf : (left : Nat) → List Token → Except ScriptError (List Simple × List Token)
  | 0, ts => .ok ([], ts)
  | left + 1, ts =>
    if heading ts = "|" then do
      let (k, ts) ← simple (skipLines ts.tail)
      let (ks, ts) ← stagesOf left ts
      return (k :: ks, ts)
    else .ok ([], ts)

/-- The words up to the end of a command, and the tokens from there on. -/
def wordsOf : List Token → List ShellWord × List Token
  | .word w :: ts => let (ws, rest) := wordsOf ts; (w :: ws, rest)
  | ts => ([], ts)

/-! ## Lists, conditions and loops -/

/-- One after another. -/
def andThen (a : Script) : Script → Script
  | .nothing => a
  | b => .seq a b

/-- Nothing more belongs to a list of commands. -/
def atEnd (ts : List Token) : Bool :=
  ts.isEmpty || heading ts == ")" || closers.contains (heading ts)

mutual

/-- A list of commands, which may be empty, and the tokens after it. -/
def listOf : (fuel : Nat) → List Token → Except ScriptError (Script × List Token)
  | 0, ts => .error (wrong ts)
  | fuel + 1, ts =>
    let ts := skipLines ts
    if atEnd ts then .ok (.nothing, ts)
    else do
      let (a, ts) ← pipelineOf fuel ts
      let (a, ts) ← joinedOf fuel a ts
      if heading ts = ";" ∨ heading ts = "newline" then
        let (b, ts) ← listOf fuel ts.tail
        return (a.andThen b, ts)
      return (a, ts)

/-- A list of commands that is not empty. -/
def someOf : (fuel : Nat) → List Token → Except ScriptError (Script × List Token)
  | 0, ts => .error (wrong ts)
  | fuel + 1, ts => do
    let (s, rest) ← listOf fuel ts
    if s = .nothing then throw (wrong rest)
    return (s, rest)

/-- What is joined to a command by `&&` and `||`. -/
def joinedOf : (fuel : Nat) → Script → List Token → Except ScriptError (Script × List Token)
  | 0, _, ts => .error (wrong ts)
  | fuel + 1, a, ts =>
    if heading ts = "&&" then do
      let (b, ts) ← pipelineOf fuel (skipLines ts.tail)
      joinedOf fuel (.both a b) ts
    else if heading ts = "||" then do
      let (b, ts) ← pipelineOf fuel (skipLines ts.tail)
      joinedOf fuel (.either a b) ts
    else .ok (a, ts)

/-- Commands that are joined by pipes, a condition, a loop or a group. -/
def pipelineOf : (fuel : Nat) → List Token → Except ScriptError (Script × List Token)
  | 0, ts => .error (wrong ts)
  | fuel + 1, ts =>
    match heading ts with
    | "!" => do
      let (s, ts) ← pipelineOf fuel ts.tail
      return (.invert s, ts)
    | "(" => do
      let (s, ts) ← someOf fuel ts.tail
      return (.nested s, ← expect ")" ts)
    | "\x7b" => do
      let (s, ts) ← someOf fuel ts.tail
      return (s, ← expect "\x7d" ts)
    | "if" => branchOf fuel ts.tail
    | "while" => do
      let (condition, body, ts) ← loopOf fuel ts.tail
      return (.loop true condition body, ts)
    | "until" => do
      let (condition, body, ts) ← loopOf fuel ts.tail
      return (.loop false condition body, ts)
    | "for" => eachOf fuel ts.tail
    | o => do
      if closers.contains o then throw (wrong ts)
      let (k, ts) ← simple ts
      let (ks, ts) ← stagesOf fuel ts
      return (.pipeline (k :: ks), ts)

/-- A condition with its branches, after the word that begins it. -/
def branchOf : (fuel : Nat) → List Token → Except ScriptError (Script × List Token)
  | 0, ts => .error (wrong ts)
  | fuel + 1, ts => do
    let (condition, ts) ← someOf fuel ts
    let (yes, ts) ← someOf fuel (← expect "then" ts)
    match heading ts with
    | "elif" =>
      let (no, ts) ← branchOf fuel ts.tail
      return (.branch condition yes no, ts)
    | "else" =>
      let (no, ts) ← someOf fuel ts.tail
      return (.branch condition yes no, ← expect "fi" ts)
    | _ => return (.branch condition yes .nothing, ← expect "fi" ts)

/-- The condition and the body of a loop. -/
def loopOf : (fuel : Nat) → List Token → Except ScriptError (Script × Script × List Token)
  | 0, ts => .error (wrong ts)
  | fuel + 1, ts => do
    let (condition, ts) ← someOf fuel ts
    let (body, ts) ← someOf fuel (← expect "do" ts)
    return (condition, body, ← expect "done" ts)

/-- A loop over values, after the word that begins it. -/
def eachOf : (fuel : Nat) → List Token → Except ScriptError (Script × List Token)
  | 0, ts => .error (wrong ts)
  | fuel + 1, ts => do
    let name := heading ts
    if name.isEmpty then throw (wrong ts)
    let (values, ts) := if heading ts.tail = "in" then wordsOf (ts.drop 2) else ([], ts.tail)
    let ts := skipLines (if heading ts = ";" then ts.tail else ts)
    let (body, ts) ← someOf fuel (← expect "do" ts)
    return (.each name values body, ← expect "done" ts)

end

/-- The commands of a script. -/
def read (text : String) : Except ScriptError Script := do
  let tokens ← Token.ofText text.toList
  let (s, rest) ← listOf (4 * tokens.length + 4) tokens
  if !rest.isEmpty then throw (wrong rest)
  return s

end Script

end AgentSupervisor
