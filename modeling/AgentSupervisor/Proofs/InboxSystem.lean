import Mathlib.Logic.Relation
import AgentSupervisor.Proofs.InboxStore
import AgentSupervisor.Proofs.Ledger

/-!
# Processes that share an inbox

Any number of processes make calls on one inbox, and their steps interleave: a call, taking the
lock or giving it up, reading the log, looking at its tail, one write, letting go of the lock.
Producers and readers share the lock, so between the read and the write of one producer others
may write.

* `InboxSystem.Step`          : one step of one process;
* `InboxStore.perform_reaches` : what a call does on a disk, a process does alone in such steps.
-/

namespace AgentSupervisor

open Ledger (Op Done Event)

/-- What an operation is told, and the time that it read. -/
structure InboxReply where
  now : UInt64
  answer : InboxAnswer
  deriving DecidableEq

/-- An operation on the inbox. -/
abbrev InboxOp (Pid : Type) := Op Pid InboxCall

/-- An operation on the inbox that knows its answer. -/
abbrev InboxDone (Pid : Type) := Done Pid InboxCall InboxReply

/-- How far a process is with its operation. -/
inductive InboxPhase (Pid : Type) where
  | idle
  /-- it asks for the lock -/
  | called (op : InboxOp Pid)
  | locked (op : InboxOp Pid)
  /-- it has read the log and knows its answer and what to change -/
  | decided (d : InboxDone Pid) (c : Change)
  /-- it has looked whether its record needs a line feed of its own before it -/
  | checked (d : InboxDone Pid) (r : Record) (feed : Bool)
  /-- nothing is left but to let go of the lock -/
  | finished (d : InboxDone Pid)

namespace InboxPhase

variable {Pid : Type}

/-- How the process holds the lock. -/
def held : InboxPhase Pid → Option LockMode
  | .idle => none
  | .called _ => none
  | .locked op => some (InboxStore.mode op.call)
  | .decided d _ => some (InboxStore.mode d.op.call)
  | .checked d _ _ => some (InboxStore.mode d.op.call)
  | .finished d => some (InboxStore.mode d.op.call)

end InboxPhase

/-- The bytes of the log, the processes, and what has been seen of them. -/
structure InboxSystem (Pid : Type) where
  log : Bytes
  phase : Pid → InboxPhase Pid
  history : List (Event Pid InboxCall InboxReply)

namespace InboxSystem

variable {Pid : Type} [DecidableEq Pid]

/-- No process has made a call. -/
def start (log : Bytes) : InboxSystem Pid := ⟨log, fun _ => .idle, []⟩

/-- One process gets further. -/
def move (s : InboxSystem Pid) (p : Pid) (φ : InboxPhase Pid) : InboxSystem Pid :=
  { s with phase := Function.update s.phase p φ }

/-- Something is seen. -/
def see (s : InboxSystem Pid) (e : Event Pid InboxCall InboxReply) : InboxSystem Pid :=
  { s with history := s.history ++ [e] }

/-- One step of one process. -/
inductive Step : InboxSystem Pid → InboxSystem Pid → Prop where
  | call {s : InboxSystem Pid} (p : Pid) (c : InboxCall) (hp : s.phase p = .idle) :
      Step s ((s.move p (.called ⟨s.history.length, p, c⟩)).see
        (.begin ⟨s.history.length, p, c⟩))
  /-- an exclusive lock keeps all others out -/
  | lock {s : InboxSystem Pid} (p : Pid) (op : InboxOp Pid) (hp : s.phase p = .called op)
      (hfree : ∀ q m, (s.phase q).held = some m →
        m = .shared ∧ InboxStore.mode op.call = .shared) :
      Step s (s.move p (.locked op))
  | giveUp {s : InboxSystem Pid} (p : Pid) (op : InboxOp Pid) (hp : s.phase p = .called op) :
      Step s ((s.move p .idle).see (.giveUp op))
  /-- the log is read and nothing is to be changed -/
  | pass {s : InboxSystem Pid} (p : Pid) (op : InboxOp Pid) (now : UInt64) (snapshot : Snapshot)
      (hp : s.phase p = .locked op) (hread : Snapshot.ofLog s.log = .ok snapshot)
      (hc : (snapshot.respond now op.call).2 = .keep) :
      Step s (s.move p (.finished ⟨op, ⟨now, (snapshot.respond now op.call).1⟩⟩))
  /-- the log is read and something is to be changed -/
  | decide {s : InboxSystem Pid} (p : Pid) (op : InboxOp Pid) (now : UInt64)
      (snapshot : Snapshot) (hp : s.phase p = .locked op)
      (hread : Snapshot.ofLog s.log = .ok snapshot)
      (hc : (snapshot.respond now op.call).2 ≠ .keep) :
      Step s (s.move p (.decided ⟨op, ⟨now, (snapshot.respond now op.call).1⟩⟩
        (snapshot.respond now op.call).2))
  | check {s : InboxSystem Pid} (p : Pid) (d : InboxDone Pid) (r : Record)
      (hp : s.phase p = .decided d (.append r)) :
      Step s (s.move p (.checked d r (Lines.endsOpen s.log)))
  /-- the record is appended in one write -/
  | write {s : InboxSystem Pid} (p : Pid) (d : InboxDone Pid) (r : Record) (feed : Bool)
      (hp : s.phase p = .checked d r feed) :
      Step s { s.move p (.finished d) with
        log := s.log ++ ((if feed then [Lines.lineFeed] else []) ++ Change.line r) }
  /-- the new log takes the place of the old one -/
  | replace {s : InboxSystem Pid} (p : Pid) (d : InboxDone Pid) (kept : List Message)
      (hp : s.phase p = .decided d (.replace kept)) :
      Step s { s.move p (.finished d) with log := Change.fresh kept }
  | release {s : InboxSystem Pid} (p : Pid) (d : InboxDone Pid) (hp : s.phase p = .finished d) :
      Step s ((s.move p .idle).see (.respond d))

/-- Steps lead from one state to another. -/
abbrev Reaches : InboxSystem Pid → InboxSystem Pid → Prop := Relation.ReflTransGen Step

/-! ## A process alone -/

theorem move_phase (s : InboxSystem Pid) (p : Pid) (φ : InboxPhase Pid) :
    (s.move p φ).phase p = φ := Function.update_self ..

theorem move_move (s : InboxSystem Pid) (p : Pid) (φ ψ : InboxPhase Pid) :
    (s.move p φ).move p ψ = s.move p ψ := by
  simp only [move, Function.update_idem]

/-- Once it has the lock, a process alone makes the change that it decides on. -/
theorem reaches_finished {s : InboxSystem Pid} {p : Pid} {op : InboxOp Pid} {snapshot : Snapshot}
    (hp : s.phase p = .locked op) (hread : Snapshot.ofLog s.log = .ok snapshot) (now : UInt64) :
    Reaches s { s.move p (.finished ⟨op, ⟨now, (snapshot.respond now op.call).1⟩⟩) with
      log := (snapshot.respond now op.call).2.apply s.log } := by
  generalize hd : (⟨op, ⟨now, (snapshot.respond now op.call).1⟩⟩ : InboxDone Pid) = d
  by_cases hc : (snapshot.respond now op.call).2 = .keep
  · have hpass := Step.pass p op now snapshot hp hread hc
    rw [hd] at hpass
    rw [hc]
    exact .single hpass
  · have hdecide := Step.decide p op now snapshot hp hread hc
    rw [hd] at hdecide
    refine .head hdecide ?_
    generalize (snapshot.respond now op.call).2 = c at hc
    cases c with
    | keep => exact absurd rfl hc
    | append r =>
      have hcheck := Step.check (s := s.move p (.decided d (.append r))) p d r (move_phase ..)
      have hwrite := Step.write (s := s.move p (.checked d r (Lines.endsOpen s.log))) p d r _
        (move_phase ..)
      rw [move_move] at hcheck hwrite
      exact .head hcheck (.single hwrite)
    | replace kept =>
      have hreplace := Step.replace (s := s.move p (.decided d (.replace kept))) p d kept
        (move_phase ..)
      rw [move_move] at hreplace
      exact .single hreplace

end InboxSystem

/-- **What a call does on a disk, a process does alone in such steps**: with the same answer, and
    the same log after it. -/
theorem InboxStore.perform_reaches {Pid : Type} [DecidableEq Pid] {store : InboxStore}
    {st : Storage} {inbox : InboxId} {s : InboxSystem Pid} {p : Pid} {call : InboxCall}
    {a : InboxAnswer} (h : store.Holds st.disk inbox s.log) (hon : call.On inbox)
    (ha : (store.perform inbox st call).1 = .ok a) (hp : s.phase p = .idle)
    (hfree : ∀ q, (s.phase q).held = none) :
    ∃ log' now, store.Holds (store.perform inbox st call).2.disk inbox log' ∧
      InboxSystem.Reaches s { s with
        log := log'
        history := s.history ++ [.begin ⟨s.history.length, p, call⟩] ++
          [.respond ⟨⟨s.history.length, p, call⟩, ⟨now, a⟩⟩] } := by
  obtain ⟨log', hlog', hmeets⟩ := perform_meets h call hon
  generalize store.perform inbox st call = r at ha hlog' hmeets
  cases hmeets with
  | tooLong _ _ _ => cases ha
  | locked _ _ => cases ha
  | unreadable _ _ _ => cases ha
  | answered snapshot st' hread =>
    cases ha
    refine ⟨_, UInt64.ofNat st'.now, hlog', ?_⟩
    generalize UInt64.ofNat st'.now = now
    generalize hop : (⟨s.history.length, p, call⟩ : InboxOp Pid) = op
    have hcall : op.call = call := by rw [← hop]
    subst hcall
    generalize hs₁ : (s.move p (.called op)).see (.begin op) = s₁
    have hfirst : InboxSystem.Step s s₁ := by
      rw [← hs₁, ← hop]
      exact .call p op.call hp
    have hheld : ∀ q m, (s₁.phase q).held ≠ some m := by
      intro q m
      rw [← hs₁]
      show (Function.update s.phase p _ q).held ≠ some m
      by_cases hqp : q = p
      · rw [hqp, Function.update_self]
        simp [InboxPhase.held]
      · rw [Function.update_of_ne hqp, hfree]
        simp
    have hlock : InboxSystem.Step s₁ (s₁.move p (.locked op)) :=
      .lock p op (by rw [← hs₁]; exact InboxSystem.move_phase ..)
        fun q m hm => absurd hm (hheld q m)
    have hlog : s₁.log = s.log := by rw [← hs₁]; rfl
    have hchange := InboxSystem.reaches_finished (s := s₁.move p (.locked op))
      (InboxSystem.move_phase ..) (hlog ▸ hread) now
    refine .head hfirst (.head hlock (hchange.tail ?_))
    have hrelease := InboxSystem.Step.release
      (s := { (s₁.move p (.locked op)).move p
          (.finished ⟨op, ⟨now, (snapshot.respond now op.call).1⟩⟩) with
        log := (snapshot.respond now op.call).2.apply (s₁.move p (.locked op)).log })
      p _ (InboxSystem.move_phase ..)
    convert hrelease using 1
    subst hs₁
    have hidle : Function.update s.phase p .idle = s.phase := by
      rw [← hp, Function.update_eq_self]
    simp only [InboxSystem.move, InboxSystem.see, Function.update_idem, hidle]

end AgentSupervisor
