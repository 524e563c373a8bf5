import AgentSupervisor.Health.PidFile
import AgentSupervisor.Health.Policy
import AgentSupervisor.Health.Verdict
import AgentSupervisor.Pattern.Basic

/-!
# Health checks

A new process writes its PID file a little while after it starts, so a check looks several
times with a wait between two looks. It ends at the first look that finds a number or fails,
or that finds nothing where there was an unfinished file before. A number is judged by the
process table: the process has to exist and, if its command line can be read, to match one of
the patterns.
-/

namespace AgentSupervisor

/-- The verdict of a check, and how many looks it took. -/
structure Report where
  health : Health
  attempts : UInt32
  deriving Repr, DecidableEq

/-- What is known of a process that exists: its command line, if that can be read. -/
abbrev ProcessTable := UInt32 → Option (Option String)

namespace Health

/-- The verdict on a process number. -/
def judge (table : ProcessTable) (patterns : List Pattern) (pid : UInt32) : Health :=
  match table pid with
  | none => .crashed
  | some none => .alive pid
  | some (some line) => if Pattern.acceptsAny patterns line then .alive pid else .crashed

/-- How the looks at a PID file ended. -/
inductive Ending (ε : Type) where
  /-- a look failed -/
  | failed (e : ε)
  /-- a look found a number -/
  | pid (p : UInt32)
  /-- the file was there and went away -/
  | vanished
  /-- there was never a number -/
  | exhausted
  deriving Repr, DecidableEq

/-- The looks at a PID file: how they ended, how many there were, and the time slept between
    them in milliseconds. -/
structure Looks (ε : Type) where
  ending : Ending ε
  reads : Nat
  slept : Nat
  deriving Repr, DecidableEq

/-- Look up to `left` more times, after `made` looks. The look of number `k` is `read k`, the
    first being number 1. `seen` tells whether an unfinished file has been seen. -/
def look {ε : Type} (read : Nat → Except ε PidRead) (delay : Nat) :
    (left made slept : Nat) → (seen : Bool) → Looks ε
  | 0, made, slept, _ => ⟨.exhausted, made, slept⟩
  | left + 1, made, slept, seen =>
    let wait := if left = 0 then 0 else delay
    match read (made + 1) with
    | .error e => ⟨.failed e, made + 1, slept⟩
    | .ok (.found p) => ⟨.pid p, made + 1, slept⟩
    | .ok .incomplete => look read delay left (made + 1) (slept + wait) true
    | .ok .missing =>
      if seen then ⟨.vanished, made + 1, slept⟩
      else look read delay left (made + 1) (slept + wait) false

/-- The looks that a policy allows. -/
def looks {ε : Type} (read : Nat → Except ε PidRead) (policy : RetryPolicy) : Looks ε :=
  look read policy.delay.toNat policy.attempts 0 0 false

/-- The report on looks at a PID file. -/
def reportOf {ε : Type} (table : ProcessTable) (patterns : List Pattern) (l : Looks ε) :
    Except ε Report :=
  match l.ending with
  | .failed e => .error e
  | .pid p => .ok ⟨judge table patterns p, UInt32.ofNat l.reads⟩
  | .vanished => .ok ⟨.crashed, UInt32.ofNat l.reads⟩
  | .exhausted => .ok ⟨.unknown, UInt32.ofNat l.reads⟩

/-- A whole check. -/
def check {ε : Type} (read : Nat → Except ε PidRead) (table : ProcessTable)
    (patterns : List Pattern) (policy : RetryPolicy) : Except ε Report :=
  reportOf table patterns (looks read policy)

end Health

end AgentSupervisor
