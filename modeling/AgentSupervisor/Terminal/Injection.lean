import AgentSupervisor.Files.Error
import AgentSupervisor.Text.Utf8

/-!
# Typing into terminals

A message is typed as its text, a pause, and the Enter key. A terminal may take part of what it
is offered, refuse for the moment, be interrupted or fail. A refusal is waited out up to
`maxStalls` times in a row; whatever the terminal takes starts the count anew, and so does the
Enter key.

A terminal is given by the answers to the writes to come; when they are used up it takes
everything.

* `next`   : what one answer leads to;
* `typeAll` : writing until everything is taken or the writing fails;
* `inject` : a whole message.
-/

namespace AgentSupervisor

/-- What a terminal answers to one write. -/
inductive WriteAnswer where
  /-- it takes up to so many bytes -/
  | takes (n : Nat)
  /-- it cannot take anything now -/
  | refuses
  /-- a signal came first -/
  | interrupted
  | fails (e : IoError)
  deriving Repr, DecidableEq

/-- Why a message was not typed. -/
inductive InjectError where
  | io (e : IoError)
  /-- the terminal refused for too long -/
  | stalled
  deriving Repr, DecidableEq

/-- What an operator is told. -/
def InjectError.message : InjectError → String
  | .io e => "failed to write to PTY: " ++ e.message
  | .stalled => "PTY input buffer stayed full"

/-- A terminal: its answers to the writes to come. -/
abbrev Terminal := List WriteAnswer

/-- How writing went: what was taken, the time slept in milliseconds, the number of writes, and
    the terminal afterwards. -/
structure Typing where
  outcome : Except InjectError Unit
  accepted : Bytes := []
  slept : Nat := 0
  writes : Nat := 0
  terminal : Terminal

namespace Typing

/-- What was taken, slept and written before. -/
def after (accepted : Bytes) (slept writes : Nat) (t : Typing) : Typing :=
  { t with
    accepted := accepted ++ t.accepted
    slept := slept + t.slept
    writes := writes + t.writes }

end Typing

namespace Terminal

/-- The Enter key. -/
def enter : UInt8 := 13

/-- The milliseconds between the text and the Enter key. -/
def settleDelay : Nat := 50

/-- The milliseconds to wait after a refusal. -/
def stallDelay : Nat := 5

/-- How many refusals in a row are waited out. -/
def maxStalls : Nat := 200

/-- What one answer leads to. -/
inductive Next where
  /-- go on with these bytes and this count of refusals, after a wait -/
  | more (rest : Bytes) (stalls wait : Nat)
  | stop (e : InjectError)
  deriving Repr, DecidableEq

/-- What an answer leads to when `bs` is offered after `stalls` refusals in a row. -/
def next (bs : Bytes) (stalls : Nat) : WriteAnswer → Next
  | .takes 0 => .stop (.io .writeZero)
  | .takes n => .more (bs.drop n) 0 0
  | .refuses => if stalls < maxStalls then .more bs (stalls + 1) stallDelay else .stop .stalled
  | .interrupted => .more bs stalls 0
  | .fails e => .stop (.io e)

/-- The bytes that an answer takes. -/
def taken (bs : Bytes) : WriteAnswer → Bytes
  | .takes n => bs.take n
  | _ => []

/-- Write until everything is taken or the writing fails. -/
def typeAll : Terminal → (stalls : Nat) → Bytes → Typing
  | terminal, _, [] => { outcome := .ok (), terminal }
  | [], _, bs => { outcome := .ok (), accepted := bs, writes := 1, terminal := [] }
  | a :: terminal, stalls, b :: bs =>
    match next (b :: bs) stalls a with
    | .stop e => { outcome := .error e, writes := 1, terminal }
    | .more rest stalls wait =>
      (typeAll terminal stalls rest).after (taken (b :: bs) a) wait 1

/-- Type a text and press Enter. -/
def inject (settle : Nat) (terminal : Terminal) (text : Bytes) : Typing :=
  let first := terminal.typeAll 0 text
  match first.outcome with
  | .error _ => first
  | .ok () =>
    (first.terminal.typeAll 0 [enter]).after first.accepted (first.slept + settle) first.writes

/-- Type messages one after another. -/
def injectAll (settle : Nat) : Terminal → List Bytes → List Typing
  | _, [] => []
  | terminal, m :: ms =>
    let t := terminal.inject settle m
    t :: injectAll settle t.terminal ms

end Terminal

end AgentSupervisor
