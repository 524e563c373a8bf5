import Mathlib.Data.List.Nodup
import Mathlib.Logic.Function.Basic

/-!
# Ledgers of concurrent operations

Any number of processes, each with at most one operation in flight. An operation is begun, then
takes effect at one moment, then is answered; or it is given up before it takes effect. The
ledger keeps the history that can be seen from outside and the order in which operations took
effect.

* `Ledger.Step`            : what can happen to a ledger;
* `Ledger.Step.consistent` : the order stays one that the history allows.
-/

namespace AgentSupervisor

namespace Ledger

/-- An operation, with the number of events that were seen before it. -/
structure Op (Pid Call : Type) where
  ticket : Nat
  pid : Pid
  call : Call
  deriving DecidableEq

/-- An operation that took effect. -/
structure Done (Pid Call Answer : Type) where
  op : Op Pid Call
  answer : Answer
  deriving DecidableEq

/-- What can be seen of an operation. -/
inductive Event (Pid Call Answer : Type) where
  | begin (op : Op Pid Call)
  | giveUp (op : Op Pid Call)
  | respond (d : Done Pid Call Answer)
  deriving DecidableEq

/-- The operation that an event is about. -/
def Event.op {Pid Call Answer : Type} : Event Pid Call Answer → Op Pid Call
  | .begin op => op
  | .giveUp op => op
  | .respond d => d.op

/-- How far a process is. -/
inductive Stage (Pid Call Answer : Type) where
  | idle
  | begun (op : Op Pid Call)
  /-- it took effect, and is not answered yet -/
  | settled (d : Done Pid Call Answer)

end Ledger

open Ledger in
/-- Processes, the history, and the operations that took effect, in order. -/
structure Ledger (Pid Call Answer : Type) where
  stage : Pid → Stage Pid Call Answer
  history : List (Event Pid Call Answer)
  order : List (Done Pid Call Answer)

namespace Ledger

variable {Pid Call Answer : Type}

/-- One event is seen before another. -/
def Before (h : List (Event Pid Call Answer)) (a b : Event Pid Call Answer) : Prop :=
  [a, b].Sublist h

theorem Before.mem_left {h : List (Event Pid Call Answer)} {a b : Event Pid Call Answer}
    (hab : Before h a b) : a ∈ h := hab.subset (by simp)

/-- What is newly seen is seen after all else. -/
theorem before_concat {h : List (Event Pid Call Answer)} {a b e : Event Pid Call Answer}
    (hab : Before (h ++ [e]) a b) : Before h a b ∨ b = e := by
  obtain ⟨l₁, l₂, heq, h₁, h₂⟩ := List.sublist_append_iff.mp hab
  rcases List.sublist_singleton.mp h₂ with rfl | rfl
  · rw [List.append_nil] at heq
    rw [← heq] at h₁
    exact .inl h₁
  · right
    have hlast := congrArg List.getLast? heq
    simpa using hlast

theorem tickets_concat {h : List (Event Pid Call Answer)} {e : Event Pid Call Answer}
    (hh : ∀ x ∈ h, x.op.ticket < h.length) (he : e.op.ticket ≤ h.length) :
    ∀ x ∈ h ++ [e], x.op.ticket < (h ++ [e]).length := by
  intro x hx
  rw [List.length_append, List.length_singleton]
  rcases List.mem_append.mp hx with hx | hx
  · have := hh x hx
    omega
  · rw [List.mem_singleton.mp hx]
    omega

variable [DecidableEq Pid]

theorem update_eq {f : Pid → Stage Pid Call Answer} {p q : Pid} {x y : Stage Pid Call Answer}
    (h : Function.update f p x q = y) : q = p ∧ x = y ∨ q ≠ p ∧ f q = y := by
  by_cases hq : q = p
  · subst hq
    rw [Function.update_self] at h
    exact .inl ⟨rfl, h⟩
  · rw [Function.update_of_ne hq] at h
    exact .inr ⟨hq, h⟩

theorem update_keep {f : Pid → Stage Pid Call Answer} {p q : Pid} {x y : Stage Pid Call Answer}
    (h : f q = y) (hp : f p ≠ y) : Function.update f p x q = y := by
  rw [Function.update_of_ne, h]
  rintro rfl
  exact hp h

/-- What can happen. -/
inductive Step : Ledger Pid Call Answer → Ledger Pid Call Answer → Prop where
  | begin {l : Ledger Pid Call Answer} (p : Pid) (c : Call) (hp : l.stage p = .idle) :
      Step l { l with
        stage := Function.update l.stage p (.begun ⟨l.history.length, p, c⟩)
        history := l.history ++ [.begin ⟨l.history.length, p, c⟩] }
  | giveUp {l : Ledger Pid Call Answer} (p : Pid) (op : Op Pid Call)
      (hp : l.stage p = .begun op) :
      Step l { l with
        stage := Function.update l.stage p .idle
        history := l.history ++ [.giveUp op] }
  | settle {l : Ledger Pid Call Answer} (p : Pid) (d : Done Pid Call Answer)
      (hp : l.stage p = .begun d.op) :
      Step l { l with
        stage := Function.update l.stage p (.settled d)
        order := l.order ++ [d] }
  | respond {l : Ledger Pid Call Answer} (p : Pid) (d : Done Pid Call Answer)
      (hp : l.stage p = .settled d) :
      Step l { l with
        stage := Function.update l.stage p .idle
        history := l.history ++ [.respond d] }

/-- The order is one that the history allows: each operation that took effect was begun, was not
    given up, is answered at most as it took effect, and none comes after one that was begun when
    it had been answered already. -/
structure Consistent (l : Ledger Pid Call Answer) : Prop where
  begun : ∀ p op, l.stage p = .begun op → op.pid = p ∧ .begin op ∈ l.history ∧
    .giveUp op ∉ l.history ∧ ∀ d ∈ l.order, d.op ≠ op
  settled : ∀ p d, l.stage p = .settled d → d.op.pid = p ∧ d ∈ l.order ∧ .respond d ∉ l.history
  listed : ∀ d ∈ l.order, .begin d.op ∈ l.history ∧ .giveUp d.op ∉ l.history ∧
    (.respond d ∈ l.history ∨ l.stage d.op.pid = .settled d)
  responded : ∀ d, .respond d ∈ l.history → d ∈ l.order
  nodup : (l.order.map Done.op).Nodup
  tickets : ∀ e ∈ l.history, e.op.ticket < l.history.length
  realtime : l.order.Pairwise fun d e => ¬ Before l.history (.respond e) (.begin d.op)

omit [DecidableEq Pid] in
theorem consistent_start : Consistent (⟨fun _ => .idle, [], []⟩ : Ledger Pid Call Answer) where
  begun := fun _ _ h => by cases h
  settled := fun _ _ h => by cases h
  listed := fun _ h => by cases h
  responded := fun _ h => by cases h
  nodup := List.nodup_nil
  tickets := fun _ h => by cases h
  realtime := .nil

theorem Consistent.begin {l : Ledger Pid Call Answer} (hl : l.Consistent) {p : Pid} (c : Call)
    (hp : l.stage p = .idle) :
    Consistent { l with
      stage := Function.update l.stage p (.begun ⟨l.history.length, p, c⟩)
      history := l.history ++ [.begin ⟨l.history.length, p, c⟩] } := by
  -- the ticket is new
  have hnew : ∀ e ∈ l.history, e.op ≠ ⟨l.history.length, p, c⟩ := by
    intro e he heq
    have := hl.tickets e he
    rw [heq] at this
    exact absurd this (Nat.lt_irrefl _)
  refine ⟨?_, ?_, ?_, ?_, hl.nodup, ?_, ?_⟩
  · intro q op hq
    rcases update_eq hq with ⟨rfl, h⟩ | ⟨-, hq⟩
    · cases h
      refine ⟨rfl, by simp, ?_, fun d hd => hnew _ (hl.listed d hd).1⟩
      simpa using fun h => hnew _ h rfl
    · obtain ⟨h1, h2, h3, h4⟩ := hl.begun q op hq
      exact ⟨h1, List.mem_append_left _ h2, by simpa using h3, h4⟩
  · intro q d hq
    rcases update_eq hq with ⟨rfl, h⟩ | ⟨hqp, hq⟩
    · cases h
    · obtain ⟨h1, h2, h3⟩ := hl.settled q d hq
      exact ⟨h1, h2, by simpa using h3⟩
  · intro d hd
    obtain ⟨h1, h2, h3⟩ := hl.listed d hd
    refine ⟨List.mem_append_left _ h1, by simpa using h2, ?_⟩
    exact h3.imp (List.mem_append_left _) fun h3 => update_keep h3 (by rw [hp]; simp)
  · intro d hd
    exact hl.responded d (by simpa using hd)
  · exact tickets_concat hl.tickets (Nat.le_refl _)
  · refine hl.realtime.imp_of_mem fun {d e} hd _ hde hbefore => ?_
    rcases before_concat hbefore with h | h
    · exact hde h
    · exact hnew _ (hl.listed d hd).1 (congrArg Event.op h)

theorem Consistent.giveUp {l : Ledger Pid Call Answer} (hl : l.Consistent) {p : Pid}
    {op : Op Pid Call} (hp : l.stage p = .begun op) :
    Consistent { l with
      stage := Function.update l.stage p .idle
      history := l.history ++ [.giveUp op] } := by
  obtain ⟨hpid, hbegun, -, hunlisted⟩ := hl.begun p op hp
  refine ⟨?_, ?_, ?_, ?_, hl.nodup, ?_, ?_⟩
  · intro q op' hq
    rcases update_eq hq with ⟨rfl, h⟩ | ⟨hqp, hq⟩
    · cases h
    · obtain ⟨h1, h2, h3, h4⟩ := hl.begun q op' hq
      have hne : op' ≠ op := by
        rintro rfl
        exact hqp (h1.symm.trans hpid)
      exact ⟨h1, List.mem_append_left _ h2, by simpa [hne] using h3, h4⟩
  · intro q d hq
    rcases update_eq hq with ⟨rfl, h⟩ | ⟨hqp, hq⟩
    · cases h
    · obtain ⟨h1, h2, h3⟩ := hl.settled q d hq
      exact ⟨h1, h2, by simpa using h3⟩
  · intro d hd
    obtain ⟨h1, h2, h3⟩ := hl.listed d hd
    refine ⟨List.mem_append_left _ h1, by simpa [hunlisted d hd] using h2, ?_⟩
    exact h3.imp (List.mem_append_left _) fun h3 => update_keep h3 (by rw [hp]; simp)
  · intro d hd
    exact hl.responded d (by simpa using hd)
  · exact tickets_concat hl.tickets (Nat.le_of_lt (hl.tickets (.begin op) hbegun))
  · refine hl.realtime.imp fun {d e} hde hbefore => ?_
    rcases before_concat hbefore with h | h
    · exact hde h
    · cases h

theorem Consistent.settle {l : Ledger Pid Call Answer} (hl : l.Consistent) {p : Pid}
    {d : Done Pid Call Answer} (hp : l.stage p = .begun d.op) :
    Consistent { l with
      stage := Function.update l.stage p (.settled d)
      order := l.order ++ [d] } := by
  obtain ⟨hpid, hbegun, hgiven, hunlisted⟩ := hl.begun p d.op hp
  have hunanswered : .respond d ∉ l.history := fun h => hunlisted d (hl.responded d h) rfl
  refine ⟨?_, ?_, ?_, ?_, ?_, hl.tickets, ?_⟩
  · intro q op hq
    rcases update_eq hq with ⟨rfl, h⟩ | ⟨hqp, hq⟩
    · cases h
    · obtain ⟨h1, h2, h3, h4⟩ := hl.begun q op hq
      refine ⟨h1, h2, h3, fun e he => ?_⟩
      rcases List.mem_append.mp he with he | he
      · exact h4 e he
      · rw [List.mem_singleton.mp he]
        rintro rfl
        exact hqp (h1.symm.trans hpid)
  · intro q e hq
    rcases update_eq hq with ⟨rfl, h⟩ | ⟨-, hq⟩
    · cases h
      exact ⟨hpid, by simp, hunanswered⟩
    · obtain ⟨h1, h2, h3⟩ := hl.settled q e hq
      exact ⟨h1, List.mem_append_left _ h2, h3⟩
  · intro e he
    rcases List.mem_append.mp he with he | he
    · obtain ⟨h1, h2, h3⟩ := hl.listed e he
      exact ⟨h1, h2, h3.imp_right fun h3 => update_keep h3 (by rw [hp]; simp)⟩
    · rw [List.mem_singleton.mp he]
      refine ⟨hbegun, hgiven, .inr ?_⟩
      show Function.update l.stage p _ d.op.pid = _
      rw [hpid, Function.update_self]
  · intro e he
    exact List.mem_append_left _ (hl.responded e he)
  · rw [List.map_append, List.nodup_append]
    refine ⟨hl.nodup, by simp, ?_⟩
    intro a ha b hb hab
    simp only [List.map_cons, List.map_nil, List.mem_singleton] at hb
    obtain ⟨e, he, rfl⟩ := List.mem_map.mp ha
    exact hunlisted e he (hab.trans hb)
  · rw [List.pairwise_append]
    refine ⟨hl.realtime, List.pairwise_singleton _ _, ?_⟩
    intro e _ f hf hbefore
    rw [List.mem_singleton.mp hf] at hbefore
    exact hunanswered hbefore.mem_left

theorem Consistent.respond {l : Ledger Pid Call Answer} (hl : l.Consistent) {p : Pid}
    {d : Done Pid Call Answer} (hp : l.stage p = .settled d) :
    Consistent { l with
      stage := Function.update l.stage p .idle
      history := l.history ++ [.respond d] } := by
  obtain ⟨hpid, hlisted, -⟩ := hl.settled p d hp
  refine ⟨?_, ?_, ?_, ?_, hl.nodup, ?_, ?_⟩
  · intro q op hq
    rcases update_eq hq with ⟨rfl, h⟩ | ⟨hqp, hq⟩
    · cases h
    · obtain ⟨h1, h2, h3, h4⟩ := hl.begun q op hq
      exact ⟨h1, List.mem_append_left _ h2, by simpa using h3, h4⟩
  · intro q e hq
    rcases update_eq hq with ⟨rfl, h⟩ | ⟨hqp, hq⟩
    · cases h
    · obtain ⟨h1, h2, h3⟩ := hl.settled q e hq
      have hne : e ≠ d := by
        rintro rfl
        exact hqp (h1.symm.trans hpid)
      exact ⟨h1, h2, by simpa [hne] using h3⟩
  · intro e he
    obtain ⟨h1, h2, h3⟩ := hl.listed e he
    refine ⟨List.mem_append_left _ h1, by simpa using h2, ?_⟩
    by_cases hed : e = d
    · exact .inl (by simp [hed])
    · exact h3.imp (List.mem_append_left _) fun h3 =>
        update_keep h3 (by rw [hp]; simpa using Ne.symm hed)
  · intro e he
    rcases List.mem_append.mp he with he | he
    · exact hl.responded e he
    · cases List.mem_singleton.mp he
      exact hlisted
  · exact tickets_concat hl.tickets (Nat.le_of_lt (hl.tickets (.begin d.op) (hl.listed d hlisted).1))
  · refine hl.realtime.imp fun {d e} hde hbefore => ?_
    rcases before_concat hbefore with h | h
    · exact hde h
    · cases h

/-- **The order stays one that the history allows.** -/
theorem Step.consistent {l l' : Ledger Pid Call Answer} (h : Step l l') (hl : l.Consistent) :
    l'.Consistent := by
  cases h with
  | begin p c hp => exact hl.begin c hp
  | giveUp p op hp => exact hl.giveUp hp
  | settle p d hp => exact hl.settle hp
  | respond p d hp => exact hl.respond hp

end Ledger

end AgentSupervisor
