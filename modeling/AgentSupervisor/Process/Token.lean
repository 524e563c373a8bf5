import AgentSupervisor.Text.Numeral

/-!
# Tokens of shell scripts

The text that a shell is given, cut into words, operators and the numbers before redirections. A
word is made of pieces, some of them quoted, and of variables that are put in when the command
runs.

* `Scanner.step` : one more character of a script;
* `Token.ofText` : the tokens of a script, or what is wrong with it.
-/

namespace AgentSupervisor

/-- A piece of a word. A quoted piece is never split. -/
inductive Piece where
  | text (cs : List Char) (quoted : Bool)
  /-- a variable, and what stands for it while it is empty -/
  | variable (name : List Char) (orElse : List Char) (quoted : Bool)
  deriving Repr, DecidableEq

/-- A word before its variables are put in. -/
abbrev ShellWord := List Piece

/-- What is wrong with a script. -/
inductive ScriptError where
  /-- a quote is left open -/
  | openQuote
  /-- a token in the wrong place, and the one that is wanted there -/
  | unexpected (token : String) (wanted : Option String)
  deriving Repr, DecidableEq

/-- What the shell says. -/
def ScriptError.message : ScriptError → String
  | .openQuote => "Syntax error: Unterminated quoted string"
  | .unexpected token none => "Syntax error: " ++ token ++ " unexpected"
  | .unexpected token (some wanted) =>
    "Syntax error: " ++ token ++ " unexpected (expecting " ++ wanted ++ ")"

/-- A token of a script. -/
inductive Token where
  | word (w : ShellWord)
  /-- a number that stands right before a redirection -/
  | stream (n : Nat)
  | operator (s : String)
  deriving Repr, DecidableEq

/-- Where the scanner is. -/
inductive ScanMode where
  | bare
  /-- between single quotes -/
  | single
  /-- between double quotes -/
  | double
  /-- after a backslash -/
  | escape (within : Bool)
  /-- after a dollar sign -/
  | dollar (within : Bool)
  /-- in the name of a variable, backwards -/
  | name (cs : List Char) (within : Bool)
  /-- in the name of a variable between braces, backwards -/
  | brace (cs : List Char) (within : Bool)
  /-- in what stands for a variable that is empty, backwards -/
  | orElse (name cs : List Char) (within : Bool)
  /-- after the first character of an operator -/
  | operator (c : Char)
  | comment
  /-- at something that is no part of a script -/
  | broken (token : String)
  deriving Repr, DecidableEq

/-- A scanner: the tokens so far and the word in progress, both backwards. -/
structure Scanner where
  tokens : List Token := []
  word : Option ShellWord := none
  mode : ScanMode := .bare
  deriving Repr, DecidableEq

namespace Scanner

/-- A character that may begin the name of a variable. -/
def isNameStart (c : Char) : Bool := c.isAlpha || c == '_'

/-- A character of the name of a variable. -/
def isNameChar (c : Char) : Bool := isNameStart c || Text.isDigit c

/-- A character that names a variable on its own. -/
def isSpecialName (c : Char) : Bool :=
  Text.isDigit c || c == '$' || c == '?' || c == '#' || c == '!' || c == '@' || c == '*'

/-- Add a piece to the word in progress. -/
def addPiece (s : Scanner) (p : Piece) : Scanner := { s with word := some (p :: s.word.getD []) }

/-- Add a character to the word in progress. -/
def addChar (s : Scanner) (quoted : Bool) (c : Char) : Scanner := s.addPiece (.text [c] quoted)

/-- The mode outside or inside double quotes. -/
def outer (within : Bool) : ScanMode := if within then .double else .bare

/-- Add a variable. -/
def addVariable (s : Scanner) (name orElse : List Char) (within : Bool) : Scanner :=
  { s.addPiece (.variable name orElse within) with mode := outer within }

/-- End the word in progress. -/
def endWord (s : Scanner) : Scanner :=
  match s.word with
  | none => s
  | some w => { s with tokens := .word w.reverse :: s.tokens, word := none }

/-- The digit that a word consists of. -/
def digitOf? : ShellWord → Option Nat
  | [.text [c] false] => if Text.isDigit c then some (Text.digitValue c) else none
  | _ => none

/-- End the word in progress before a redirection: a digit alone names a stream. -/
def endStream (s : Scanner) : Scanner :=
  match s.word.bind digitOf? with
  | some n => { s with tokens := .stream n :: s.tokens, word := none }
  | none => s.endWord

/-- Add an operator. -/
def addOperator (s : Scanner) (o : String) : Scanner :=
  { s with tokens := .operator o :: s.tokens, mode := .bare }

/-- A character outside quotes. -/
def bareStep (s : Scanner) (c : Char) : Scanner :=
  if c = ' ' ∨ c = '\t' then s.endWord
  else if c = '\n' then s.endWord.addOperator "newline"
  else if c = '\'' then { s.addPiece (.text [] true) with mode := .single }
  else if c = '"' then { s.addPiece (.text [] true) with mode := .double }
  else if c = '\\' then { s with mode := .escape false }
  else if c = '$' then { s with mode := .dollar false }
  else if c = '#' ∧ s.word.isNone then { s with mode := .comment }
  else if c = '<' ∨ c = '>' then { s.endStream with mode := .operator c }
  else if c = '&' ∨ c = '|' ∨ c = ';' then { s.endWord with mode := .operator c }
  else if c = '(' ∨ c = ')' then s.endWord.addOperator (String.ofList [c])
  else if c = Char.ofNat 96 then { s with mode := .broken (String.ofList ['"', c, '"']) }
  else s.addChar false c

/-- A character between double quotes. -/
def doubleStep (s : Scanner) (c : Char) : Scanner :=
  if c = '"' then { s with mode := .bare }
  else if c = '\\' then { s with mode := .escape true }
  else if c = '$' then { s with mode := .dollar true }
  else if c = Char.ofNat 96 then { s with mode := .broken (String.ofList ['"', c, '"']) }
  else { s.addChar true c with mode := .double }

/-- A character outside or inside double quotes. -/
def outerStep (s : Scanner) (within : Bool) (c : Char) : Scanner :=
  if within then doubleStep { s with mode := .double } c else bareStep { s with mode := .bare } c

/-- A character after a backslash. Between double quotes most backslashes are kept. -/
def escapeStep (s : Scanner) (within : Bool) (c : Char) : Scanner :=
  let s := { s with mode := outer within }
  if c = '\n' then s
  else if within && !(c == '$' || c == '"' || c == '\\' || c.toNat == 96) then
    (s.addChar true '\\').addChar true c
  else s.addChar true c

/-- A character after a dollar sign. -/
def dollarStep (s : Scanner) (within : Bool) (c : Char) : Scanner :=
  if isNameStart c then { s with mode := .name [c] within }
  else if isSpecialName c then s.addVariable [c] [] within
  else if c = '{' then { s with mode := .brace [] within }
  else if c = '(' then { s with mode := .broken "\"(\"" }
  else (s.addChar within '$').outerStep within c

/-- A character in the name of a variable between braces. -/
def braceStep (s : Scanner) (cs : List Char) (within : Bool) (c : Char) : Scanner :=
  if c = '}' then
    if cs.isEmpty then { s with mode := .broken "\"\x7d\"" } else s.addVariable cs.reverse [] within
  else if isNameChar c || (cs.isEmpty && isSpecialName c) then
    { s with mode := .brace (c :: cs) within }
  else match cs, c with
    | ':' :: name, '-' => { s with mode := .orElse name.reverse [] within }
    | _ :: _, ':' => { s with mode := .brace (c :: cs) within }
    | _, _ => { s with mode := .broken "Bad substitution" }

/-- A character after the first one of an operator. -/
def operatorStep (s : Scanner) (first c : Char) : Scanner :=
  if c = first ∧ c ≠ '<' then s.addOperator (String.ofList [first, c])
  else if c = '&' ∧ (first = '>' ∨ first = '<') then s.addOperator ">&"
  else bareStep (s.addOperator (String.ofList [first])) c

/-- One more character of a script. -/
def step (s : Scanner) (c : Char) : Scanner :=
  match s.mode with
  | .bare => s.bareStep c
  | .single => if c = '\'' then { s with mode := .bare } else s.addChar true c
  | .double => s.doubleStep c
  | .escape within => s.escapeStep within c
  | .dollar within => s.dollarStep within c
  | .name cs within =>
    if isNameChar c then { s with mode := .name (c :: cs) within }
    else (s.addVariable cs.reverse [] within).outerStep within c
  | .brace cs within => s.braceStep cs within c
  | .orElse name cs within =>
    if c = '}' then s.addVariable name cs.reverse within
    else { s with mode := .orElse name (c :: cs) within }
  | .operator first => s.operatorStep first c
  | .comment => if c = '\n' then s.addOperator "newline" else s
  | .broken _ => s

/-- The tokens at the end of a script. -/
def finish (s : Scanner) : Except ScriptError (List Token) :=
  match s.mode with
  | .bare | .comment => .ok s.endWord.tokens.reverse
  | .escape false => .ok (s.addChar true '\\').endWord.tokens.reverse
  | .dollar false => .ok (s.addChar false '$').endWord.tokens.reverse
  | .name cs false => .ok (s.addVariable cs.reverse [] false).endWord.tokens.reverse
  | .operator c => .ok (s.addOperator (String.ofList [c])).tokens.reverse
  | .broken token => .error (.unexpected token none)
  | _ => .error .openQuote

end Scanner

/-- The tokens of a script. -/
def Token.ofText (cs : List Char) : Except ScriptError (List Token) :=
  (cs.foldl Scanner.step {}).finish

end AgentSupervisor
