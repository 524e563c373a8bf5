import AgentSupervisor.Files.Disk
import AgentSupervisor.Process.Format
import AgentSupervisor.Text.Lines

/-!
# Programs

What the small programs do that sessions are tried out with: each takes its words and what it
can see, and either is done at once with some output and an exit status, or sleeps, or goes on
reading its terminal.

* `Program.run` : a program by its name.
-/

namespace AgentSupervisor

/-- The rows and columns of a terminal. -/
structure WindowSize where
  rows : UInt16 := 24
  cols : UInt16 := 80
  deriving Repr, DecidableEq

/-- What a program can see. -/
structure Surroundings where
  disk : Disk
  /-- the directory that it works in -/
  dir : Place
  size : WindowSize
  /-- what a pipe or a file gives it to read; without one it reads its terminal -/
  input : Option Bytes := none
  /-- does its output go to the terminal? -/
  shows : Bool := true
  /-- does a shell do it itself? -/
  inShell : Bool := false

/-- What a program does. -/
inductive Effect where
  /-- it is done: output, complaints and exit status -/
  | done (out : Bytes) (complaint : String) (status : Nat)
  /-- it ends after so many milliseconds -/
  | sleep (time : Nat)
  /-- it writes what it reads from its terminal -/
  | copy
  deriving Repr, DecidableEq

namespace Program

/-- The program is done and went well. -/
def fine (out : Bytes) : Effect := .done out "" 0

/-- The program is done and says nothing. -/
def quiet (status : Nat) : Effect := .done [] "" status

/-- The program complains. -/
def complain (name what : String) (status : Nat) : Effect :=
  .done [] (name ++ ": " ++ what ++ "\n") status

/-- The program complains and says where there is help. -/
def advise (name what : String) : Effect :=
  complain name (what ++ "\nTry '" ++ name ++ " --help' for more information.") 1

/-- A word between single quotes. -/
def quoted (s : String) : String := "'" ++ s ++ "'"

/-- Texts with blanks between them. -/
def spaced (words : List String) : List Char := ([' '].intercalate (words.map String.toList))

/-! ## Output -/

/-- Write the words and a line feed. With `escapes` the words may hold escapes. -/
def echo (escapes : Bool) (words : List String) : Effect :=
  let (silent, words) := match words with
    | "-n" :: r => (true, r)
    | r => (false, r)
  let (bs, ended) :=
    if escapes then Format.unescapeFrom none (spaced words)
    else (Utf8.encodeChars (spaced words), false)
  fine (if silent || ended then bs else bs ++ [Lines.lineFeed])

/-- What is wrong with the arguments of a format. -/
def formatErrors (inShell : Bool) (r : Format.Rendering) : List String :=
  let bad := r.bad.map fun a =>
    if inShell then a ++ ": expected numeric value" else quoted a ++ ": expected a numeric value"
  let unknown := r.unknown.toList.map fun c =>
    if inShell then String.ofList ['%', c] ++ ": invalid directive"
    else String.ofList ['%', c] ++ ": invalid conversion specification"
  bad ++ unknown

/-- Write arguments under a format. -/
def printf (inShell : Bool) : List String → Effect
  | [] => if inShell then complain "printf" "usage: printf format [arg ...]" 2
    else advise "printf" "missing operand"
  | format :: args =>
    let r := Format.render (!inShell) format args
    let errors := formatErrors inShell r
    .done r.out (String.join (errors.map fun e => "printf: " ++ e ++ "\n"))
      (if errors.isEmpty then 0 else if inShell && r.unknown.isSome then 2 else 1)

/-- The numbers from one to another in steps. `left` bounds how many. -/
def countUp (step : Int) (last : Int) : (left : Nat) → Int → List Int
  | 0, _ => []
  | left + 1, n =>
    if (0 < step && last < n) || (step < 0 && n < last) then []
    else n :: countUp step last left (n + step)

/-- The numbers of a sequence. -/
def sequence (first step last : Int) : List Int :=
  if step = 0 then [] else countUp step last ((last - first) / step + 1).toNat first

/-- A number as an argument. -/
def integer? (s : String) : Option Int := if s.isEmpty then none else Format.numberOf? s

/-- Write numbers with a separator and a line feed at the end. -/
def writeNumbers (separator : String) (ns : List Int) : Effect :=
  if ns.isEmpty then quiet 0
  else fine (Utf8.encodeChars (separator.toList.intercalate (ns.map Text.decimalInt) ++ ['\n']))

/-- Write a sequence of numbers. -/
def seqWith (separator : String) (args : List String) : Effect :=
  match args.mapM integer? with
  | some [last] => writeNumbers separator (sequence 1 1 last)
  | some [first, last] => writeNumbers separator (sequence first 1 last)
  | some [first, step, last] =>
    if step = 0 then advise "seq" ("invalid Zero increment value: " ++ quoted (args.getD 1 ""))
    else writeNumbers separator (sequence first step last)
  | some [] => advise "seq" "missing operand"
  | some _ => advise "seq" ("extra operand " ++ quoted (args.getD 3 ""))
  | none =>
    let wrong := (args.find? fun a => (integer? a).isNone).getD ""
    advise "seq" ("invalid floating point argument: " ++ quoted wrong)

/-- Write a sequence of numbers, one a line unless a separator is given. -/
def seq : List String → Effect
  | "-s" :: separator :: args => seqWith separator args
  | args => seqWith "\n" args

/-! ## Input -/

/-- The file that is always empty and swallows everything. -/
def nullDevice : Place := ["dev", "null"]

/-- The content of files, one after another, and the complaints about those that cannot be
    read. `told` is what a complaint says of a file. -/
def readAll (w : Surroundings) (told : String → String) : List String → Bytes × String
  | [] => ([], "")
  | f :: fs =>
    let (bs, complaints) := readAll w told fs
    let place := Place.ofPath w.dir f
    match if place = nullDevice then .ok [] else w.disk.read place with
    | .ok content => (content ++ bs, complaints)
    | .error e =>
      let reason := (e.message.splitOn " (os error").headD ""
      (bs, told f ++ ": " ++ reason ++ "\n" ++ complaints)

/-- What a program reads that is given names of files. -/
def readFiles (w : Surroundings) (told : String → String) (files : List String)
    (k : Bytes → Bytes) : Effect :=
  let (bs, complaints) := readAll w told files
  .done (k bs) complaints (if complaints.isEmpty then 0 else 1)

/-- Write what is read. -/
def cat (w : Surroundings) : List String → Effect
  | [] | ["-"] =>
    match w.input with
    | some bs => fine bs
    | none => .copy
  | files => readFiles w ("cat: " ++ ·) files id

/-- The lines of a stream with their line feeds. -/
def linesOf (bs : Bytes) : List Bytes :=
  (Lines.split bs).map fun l => if l.2 then l.1 ++ [Lines.lineFeed] else l.1

/-- The last lines. -/
def lastLines (n : Nat) (bs : Bytes) : Bytes :=
  let ls := linesOf bs
  (ls.drop (ls.length - n)).flatten

/-- The lines from a number on. -/
def linesFrom (n : Nat) (bs : Bytes) : Bytes := ((linesOf bs).drop (n - 1)).flatten

/-- What a number of lines means: the last so many, or with a plus all from there on. -/
def tailBy? (s : String) : Option (Bytes → Bytes) :=
  match s.toList with
  | '+' :: cs => (Text.digits? cs).map linesFrom
  | '-' :: cs => (Text.digits? cs).map lastLines
  | cs => (Text.digits? cs).map lastLines

/-- Write a part of what is read. -/
def tailWith (w : Surroundings) (k : Bytes → Bytes) : List String → Effect
  | [] | ["-"] => fine (k (w.input.getD []))
  | files => readFiles w (fun f => "tail: cannot open " ++ quoted f ++ " for reading") files k

/-- Complain about a number of lines. -/
def wrongLines (n : String) : Effect :=
  complain "tail" ("invalid number of lines: " ++ quoted n) 1

/-- Write the last lines. -/
def tail (w : Surroundings) : List String → Effect
  | "-n" :: n :: files =>
    match tailBy? n with
    | some k => tailWith w k files
    | none => wrongLines n
  | arg :: files =>
    match arg.toList with
    | '-' :: 'n' :: n =>
      match tailBy? (String.ofList n) with
      | some k => tailWith w k files
      | none => wrongLines (String.ofList n)
    | '-' :: c :: cs =>
      match Text.digits? (c :: cs) with
      | some n => tailWith w (lastLines n) files
      | none => complain "tail" "invalid option" 1
    | _ => tailWith w (lastLines 10) (arg :: files)
  | [] => tailWith w (lastLines 10) []

/-! ## Conditions -/

/-- Does a test of one word hold? -/
def test1? (w : Surroundings) (operator word : String) : Option Bool :=
  let place := Place.ofPath w.dir word
  match operator with
  | "-n" => some (!word.isEmpty)
  | "-z" => some word.isEmpty
  | "-t" => some (match word with
    | "0" => w.input.isNone
    | "1" => w.shows
    | "2" => true
    | _ => false)
  | "-e" => some (w.disk.isThere place)
  | "-f" => some (w.disk.isFile place)
  | "-d" => some (match w.disk.find place with
    | .ok (some .directory) => true
    | _ => false)
  | "-s" => some (match w.disk.read place with
    | .ok bs => !bs.isEmpty
    | .error _ => false)
  | "-r" | "-w" => some (w.disk.isThere place)
  | "!" => some word.isEmpty
  | _ => none

/-- Does a comparison of two numbers hold? -/
def compare? (operator : String) (a b : Int) : Option Bool :=
  match operator with
  | "-eq" => some (a == b)
  | "-ne" => some (a != b)
  | "-lt" => some (a < b)
  | "-le" => some (a ≤ b)
  | "-gt" => some (b < a)
  | "-ge" => some (b ≤ a)
  | _ => none

/-- Does a test of two words hold? -/
def test2? (a operator b : String) : Option Bool :=
  match operator with
  | "=" => some (a == b)
  | "!=" => some (a != b)
  | _ => do compare? operator (← integer? a) (← integer? b)

/-- Does a test hold that is not put together from others, if it is one? -/
def simpleTest? (w : Surroundings) : List String → Option Bool
  | [] => some false
  | [a] => some (!a.isEmpty)
  | [o, a] => test1? w o a
  | ["!", o, a] => (test1? w o a).map (!·)
  | [a, o, b] => test2? a o b
  | ["!", a, o, b] => (test2? a o b).map (!·)
  | _ => none

/-- Cut words at an operator. -/
def cutAt (operator : String) : List String → List (List String)
  | [] => [[]]
  | a :: as =>
    match cutAt operator as with
    | part :: parts => if a = operator then [] :: part :: parts else (a :: part) :: parts
    | [] => [[a]]

/-- Does a test hold, if it is one? -/
def test? (w : Surroundings) (args : List String) : Option Bool :=
  if args.length < 5 then simpleTest? w args
  else do
    let ways ← (cutAt "-o" args).mapM fun way => do
      let parts ← (cutAt "-a" way).mapM (simpleTest? w)
      return parts.all id
    return ways.any id

/-- What is wrong with a test. -/
def testError : List String → String
  | [a, o, b] =>
    if (compare? o 0 0).isSome then
      "Illegal number: " ++ if (integer? a).isSome then b else a
    else a ++ ": unexpected operator"
  | a :: _ => a ++ ": unexpected operator"
  | [] => "argument expected"

/-- A test as an exit status. -/
def test (w : Surroundings) (name : String) (args : List String) : Effect :=
  match test? w args with
  | some true => quiet 0
  | some false => quiet 1
  | none => complain name (testError args) 2

/-- A test between brackets. -/
def bracket (w : Surroundings) (args : List String) : Effect :=
  if args.getLast? = some "]" then test w "[" args.dropLast
  else complain "[" (if w.inShell then "missing ]" else "missing ']'") 2

/-! ## Time and terminal -/

/-- The thousandths that the digits after the point say. -/
def thousandths (cs : List Char) : Nat :=
  Text.natOfDigits ((cs ++ ['0', '0', '0']).take 3)

/-- The milliseconds of a number of seconds. -/
def seconds? (cs : List Char) : Option Nat :=
  let whole := cs.takeWhile Text.isDigit
  match cs.drop whole.length with
  | [] => (Text.digits? whole).map (· * 1000)
  | '.' :: fraction =>
    if fraction.all Text.isDigit && !(whole.isEmpty && fraction.isEmpty) then
      some (Text.natOfDigits whole * 1000 + thousandths fraction)
    else none
  | _ => none

/-- The milliseconds of a time with its unit. -/
def duration? (s : String) : Option Nat :=
  let cs := s.toList
  match cs.getLast? with
  | some 's' => seconds? cs.dropLast
  | some 'm' => (seconds? cs.dropLast).map (· * 60)
  | some 'h' => (seconds? cs.dropLast).map (· * 3600)
  | some 'd' => (seconds? cs.dropLast).map (· * 86400)
  | _ => seconds? cs

/-- Sleep for some times in all. -/
def sleep (args : List String) : Effect :=
  match args.mapM duration? with
  | none =>
    let wrong := (args.find? fun a => (duration? a).isNone).getD ""
    advise "sleep" ("invalid time interval " ++ quoted wrong)
  | some [] => advise "sleep" "missing operand"
  | some times => .sleep (times.foldl (· + ·) 0)

/-- Say the size of the terminal. -/
def stty (w : Surroundings) : List String → Effect
  | ["size"] =>
    if w.input.isSome then complain "stty" "standard input: Inappropriate ioctl for device" 1
    else fine (Utf8.encodeChars
      (Text.decimal w.size.rows.toNat ++ ' ' :: Text.decimal w.size.cols.toNat ++ ['\n']))
  | _ => quiet 0

/-! ## All programs -/

/-- The names of the programs. -/
def names : List String :=
  ["sh", "sleep", "true", "false", "cat", "seq", "printf", "stty", "echo", "tail", "test", "["]

/-- The names of all programs that are installed, those that are only looked for included. -/
def installed : List String :=
  names ++ ["awk", "basename", "bash", "cp", "cut", "date", "dash", "dd", "df", "dirname", "du",
    "env", "expr", "find", "grep", "head", "id", "kill", "ln", "ls", "mkdir", "mv", "nohup", "od",
    "printenv", "ps", "pwd", "rm", "rmdir", "sed", "sort", "tee", "timeout", "touch", "tr", "tty",
    "uname", "uniq", "wc", "whoami", "xargs", "yes"]

/-- What the program of a name does. `none` when there is no such program, or when it is the
    shell. -/
def run (w : Surroundings) (name : String) (args : List String) : Option Effect :=
  match name with
  | "true" => some (quiet 0)
  | "false" => some (quiet 1)
  | "echo" => some (match args with
    | "-e" :: args => echo true args
    | args => echo false args)
  | "printf" => some (printf w.inShell args)
  | "seq" => some (seq args)
  | "cat" => some (cat w args)
  | "tail" => some (tail w args)
  | "test" => some (test w "test" args)
  | "[" => some (bracket w args)
  | "sleep" => some (sleep args)
  | "stty" => some (stty w args)
  | _ => none

end Program

end AgentSupervisor
