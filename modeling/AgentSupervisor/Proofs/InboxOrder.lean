import AgentSupervisor.Proofs.InboxSystem

/-!
# The order of operations on a shared inbox

Whatever the interleaving, the operations on an inbox are answered as if they had been made one
at a time. An operation that changes nothing takes effect when it reads the log, another one when
it writes.

* `Queue.Replays`             : operations made one at a time;
* `InboxSystem.Plan`          : what keeps a decision right until it is carried out;
* `InboxSystem.Step.sound`    : every step keeps the log in step with the order;
* `InboxSystem.one_at_a_time` : the order, and what follows from it.
-/

namespace AgentSupervisor

open Ledger (Before Op Done Event Stage)
open Utf8 (encodeChars encodeChars_append)

variable {Pid : Type}

/-! ## One at a time -/

/-- The operations, made one at a time from a queue, are answered as they were and leave that
    queue. -/
inductive Queue.Replays : Queue → List (InboxDone Pid) → Queue → Prop where
  | nil (q : Queue) : Replays q [] q
  | cons {q q' r : Queue} {d : InboxDone Pid} {ds : List (InboxDone Pid)}
      (h : (d.answer.answer, q') = q.answer d.answer.now.toNat d.op.call) (hs : Replays q' ds r) :
      Replays q (d :: ds) r

namespace Queue.Replays

variable {q r : Queue} {ds es : List (InboxDone Pid)} {d : InboxDone Pid}

theorem concat {q' : Queue} (h : Replays q ds q')
    (hd : (d.answer.answer, r) = q'.answer d.answer.now.toNat d.op.call) :
    Replays q (ds ++ [d]) r := by
  induction h with
  | nil => exact .cons hd (.nil _)
  | cons h _ ih => exact .cons h (ih hd)

theorem append_inv (h : Replays q (ds ++ es) r) : ∃ q', Replays q ds q' ∧ Replays q' es r := by
  induction ds generalizing q with
  | nil => exact ⟨q, .nil q, h⟩
  | cons d ds ih =>
    cases h with
    | cons h hs =>
      obtain ⟨q', h1, h2⟩ := ih hs
      exact ⟨q', .cons h h1, h2⟩

end Queue.Replays

/-- Carrying out this operation prunes the message of this identity: it is acknowledged, or too
    old. -/
def Queue.Prunes (q : Queue) (d : InboxDone Pid) (id : MessageId) : Prop :=
  ∃ maxAge m, d.op.call = .prune maxAge ∧ m ∈ q.messages ∧ m.id = id ∧
    ¬ q.Lasts d.answer.now.toNat (maxAge % 2 ^ 64) m

/-- A known identity stays known unless its message is pruned. -/
theorem Queue.Knows.answer {q r : Queue} {id : MessageId} (hk : q.Knows id) {d : InboxDone Pid}
    (h : (d.answer.answer, r) = q.answer d.answer.now.toNat d.op.call) :
    r.Knows id ∨ q.Prunes d id := by
  have hr := congrArg Prod.snd h
  cases hcall : d.op.call with
  | enqueue m =>
    rw [hcall] at hr
    left
    show id ∈ r.messages.map Message.id
    rw [show r = q.enqueue m from hr, enqueue]
    split
    · exact hk
    · rw [List.map_append]
      exact List.mem_append_left _ hk
  | poll =>
    rw [hcall] at hr
    rw [show r = q from hr]
    exact .inl hk
  | acknowledge id' =>
    rw [hcall, Queue.answer] at hr
    split at hr
    · rw [show r = q.acknowledge id' from hr]
      exact .inl hk
    · rw [show r = q from hr]
      exact .inl hk
  | prune maxAge =>
    rw [hcall] at hr
    obtain ⟨m, hm, rfl⟩ := List.mem_map.mp hk
    by_cases hlasts : q.Lasts d.answer.now.toNat (maxAge % 2 ^ 64) m
    · left
      show m.id ∈ r.messages.map Message.id
      rw [show r = q.prune d.answer.now.toNat (maxAge % 2 ^ 64) from hr, prune]
      split
      · exact hk
      · exact List.mem_map_of_mem (List.mem_filter.mpr ⟨hm, by simpa using hlasts⟩)
    · exact .inr ⟨maxAge, m, hcall, hm, rfl, hlasts⟩

/-- Among the operations, made one at a time from a queue, there is one that prunes the message of
    this identity. -/
def Queue.Pruning (q : Queue) (ds : List (InboxDone Pid)) (id : MessageId) : Prop :=
  ∃ ds₁ d ds₂ q', ds = ds₁ ++ d :: ds₂ ∧ q.Replays ds₁ q' ∧ q'.Prunes d id

theorem Queue.Replays.knows {q r : Queue} {ds : List (InboxDone Pid)} (h : Queue.Replays q ds r)
    {id : MessageId} (hk : q.Knows id) : r.Knows id ∨ q.Pruning ds id := by
  induction h with
  | nil q => exact .inl hk
  | @cons q q' r d ds h _ ih =>
    rcases hk.answer h with hk' | hpruned
    · refine (ih hk').imp_right ?_
      rintro ⟨ds₁, e, ds₂, q'', rfl, hs, hpruned⟩
      exact ⟨d :: ds₁, e, ds₂, q'', rfl, .cons h hs, hpruned⟩
    · exact .inr ⟨[], d, ds, q, rfl, .nil q, hpruned⟩

/-- **Nothing that was enqueued is lost** unless it is pruned. -/
theorem Queue.Replays.enqueued {q r : Queue} {ds es : List (InboxDone Pid)} {d : InboxDone Pid}
    (h : Queue.Replays q (ds ++ d :: es) r) {m : Message} (hd : d.op.call = .enqueue m) :
    ∃ q', q.Replays (ds ++ [d]) q' ∧ q'.Knows m.id ∧ (r.Knows m.id ∨ q'.Pruning es m.id) := by
  obtain ⟨q₁, hbefore, h⟩ := h.append_inv
  cases h with
  | @cons _ q' _ _ _ h hs =>
    have hk : q'.Knows m.id := by
      have hr := congrArg Prod.snd h
      rw [hd] at hr
      show m.id ∈ q'.messages.map Message.id
      rw [show q' = q₁.enqueue m from hr, enqueue]
      split
      · rename_i hk
        exact hk
      · simp
    exact ⟨q', hbefore.concat h, hk, hs.knows hk⟩

/-- Each identity stands once in a queue, and answers keep it so. -/
theorem Queue.answer_nodup {q r : Queue} (hq : (q.messages.map Message.id).Nodup) {now : Nat}
    {call : InboxCall} {a : InboxAnswer} (h : (a, r) = q.answer now call) :
    (r.messages.map Message.id).Nodup ∧ ∀ ms, a = .pending ms → (ms.map Message.id).Nodup := by
  cases call with
  | enqueue m =>
    cases h
    refine ⟨?_, fun _ e => by cases e⟩
    rw [enqueue]
    split
    · exact hq
    · rename_i hk
      show ((q.messages ++ [m]).map Message.id).Nodup
      rw [List.map_append, List.map_singleton, ← List.concat_eq_append]
      exact hq.concat hk
  | poll =>
    cases h
    refine ⟨hq, fun ms e => ?_⟩
    cases e
    exact hq.sublist (List.filter_sublist.map _)
  | acknowledge id =>
    rw [Queue.answer] at h
    split at h <;> cases h <;> exact ⟨hq, fun _ e => by cases e⟩
  | prune maxAge =>
    cases h
    refine ⟨?_, fun _ e => by cases e⟩
    rw [prune]
    split
    · exact hq
    · exact hq.sublist (List.filter_sublist.map _)

theorem Queue.Replays.pending_nodup {q r : Queue} {ds : List (InboxDone Pid)}
    (h : Queue.Replays q ds r) (hq : (q.messages.map Message.id).Nodup) :
    ∀ d ∈ ds, ∀ ms, d.answer.answer = .pending ms → (ms.map Message.id).Nodup := by
  induction h with
  | nil => exact fun _ hd => by cases hd
  | cons h _ ih =>
    obtain ⟨hr, hms⟩ := Queue.answer_nodup hq h
    intro e he
    rcases List.mem_cons.mp he with rfl | he
    · exact hms
    · exact ih hr e he

/-! ## Phases -/

namespace InboxPhase

/-- How far a process is, seen from outside. -/
def stage : InboxPhase Pid → Stage Pid InboxCall InboxReply
  | .idle => .idle
  | .called op => .begun op
  | .locked op => .begun op
  | .decided d _ => .begun d.op
  | .checked d _ _ => .begun d.op
  | .finished d => .settled d

/-- The change that a process is about to make. -/
def plan : InboxPhase Pid → Option (InboxDone Pid × Change)
  | .decided d c => some (d, c)
  | .checked d r _ => some (d, .append r)
  | _ => none

theorem held_of_plan {φ : InboxPhase Pid} {d : InboxDone Pid} {c : Change}
    (h : φ.plan = some (d, c)) : φ.held = some (InboxStore.mode d.op.call) := by
  cases φ <;> cases h <;> rfl

end InboxPhase

namespace InboxSystem

/-- What keeps a decision right until it is carried out: it is still the queue's answer, it writes
    each identity once, and it acknowledges nothing a second time. -/
structure Plan (q : Queue) (d : InboxDone Pid) (c : Change) : Prop where
  tidy : c.Tidy
  answer : (d.answer.answer, q.after c) = q.answer d.answer.now.toNat d.op.call
  fresh : ∀ id at_, c = .append (.ack id at_) → id ∉ q.acked

/-- The plan is right for this queue, and under a shared lock for any. -/
def Planned (q : Queue) (d : InboxDone Pid) (c : Change) : Prop :=
  Plan q d c ∧ (InboxStore.mode d.op.call = .shared → ∀ q', Plan q' d c)

/-- Under a shared lock nothing is written but a message. -/
theorem respond_of_shared {snapshot : Snapshot} {now : UInt64} {call : InboxCall}
    (hm : InboxStore.mode call = .shared) (hc : (snapshot.respond now call).2 ≠ .keep) :
    ∃ m, call = .enqueue m ∧
      snapshot.respond now call = (.enqueued m.id, .append (.message m)) := by
  cases call with
  | enqueue m =>
    refine ⟨m, rfl, ?_⟩
    simp only [Snapshot.respond, Snapshot.enqueue] at hc ⊢
    split at hc
    · exact absurd rfl hc
    · rename_i hk
      simp only [hk]
      rfl
  | poll => exact absurd rfl hc
  | acknowledge id => cases hm
  | prune maxAge => cases hm

/-- A decision is right for the log that it was made from. -/
theorem planned_of_respond {text : List Char} {snapshot : Snapshot}
    (hread : Snapshot.ofLog (encodeChars text) = .ok snapshot) (op : InboxOp Pid) (now : UInt64)
    (hc : (snapshot.respond now op.call).2 ≠ .keep) :
    Planned (Queue.ofLog text) ⟨op, ⟨now, (snapshot.respond now op.call).1⟩⟩
      (snapshot.respond now op.call).2 := by
  have hq := Snapshot.toQueue_of_ofLog hread
  refine ⟨⟨Snapshot.respond_tidy hread now op.call, ?_, ?_⟩, fun hm q => ?_⟩
  · rw [← hq]
    exact Snapshot.respond_refines snapshot now op.call
  · intro id at_ hack
    rw [← hq]
    exact Snapshot.respond_fresh hack
  · obtain ⟨m, hcall, hr⟩ := respond_of_shared hm hc
    rw [hr]
    refine ⟨trivial, ?_, fun _ _ e => by cases e⟩
    show (_, _) = q.answer now.toNat op.call
    rw [hcall]
    rfl

/-! ## What every step keeps -/

/-- Who has the lock alone has it alone. -/
def Alone (phase : Pid → InboxPhase Pid) : Prop :=
  ∀ p q, p ≠ q → (phase p).held = some .exclusive → (phase q).held = none

/-- The identities that a text acknowledges, one for each record. -/
def acks (text : List Char) : List MessageId := (Record.ofLog text).filterMap Record.acked?

/-- The system as a ledger. -/
def ledger (s : InboxSystem Pid) (order : List (InboxDone Pid)) :
    Ledger Pid InboxCall InboxReply :=
  ⟨fun p => (s.phase p).stage, s.history, order⟩

/-- The log is a text whose queue is the one after the operations in order, the plans of all
    processes are right for it, and the order is one that the history allows. -/
structure Sound (text₀ : List Char) (s : InboxSystem Pid) (text : List Char)
    (order : List (InboxDone Pid)) : Prop where
  log : s.log = encodeChars text
  replays : (Queue.ofLog text₀).Replays order (Queue.ofLog text)
  acks : (acks text₀).Nodup → (InboxSystem.acks text).Nodup
  alone : Alone s.phase
  plans : ∀ p d c, (s.phase p).plan = some (d, c) → Planned (Queue.ofLog text) d c
  closed : ∀ p d r, s.phase p = .checked d r false → Record.Closed text
  ledger : (s.ledger order).Consistent

theorem sound_start (text : List Char) :
    Sound text (start (encodeChars text) : InboxSystem Pid) text [] where
  log := rfl
  replays := .nil _
  acks := id
  alone := fun _ _ _ h => by cases h
  plans := fun _ _ _ h => by cases h
  closed := fun _ _ _ h => by cases h
  ledger := Ledger.consistent_start

/-- One more record acknowledges nothing a second time if it is planned. -/
theorem Plan.acks_append {text : List Char} {d : InboxDone Pid} {r : Record}
    (h : Plan (Queue.ofLog text) d (.append r)) {feed : Bool}
    (hfeed : feed = false → Record.Closed text) (hacks : (acks text).Nodup) :
    (acks (text ++ ((if feed then ['\n'] else []) ++ (r.text ++ ['\n'])))).Nodup := by
  rw [acks, Record.ofLog_append hfeed, List.filterMap_append]
  cases r with
  | message m =>
    rw [show [Record.message m].filterMap Record.acked? = [] from rfl, List.append_nil]
    exact hacks
  | ack id at_ =>
    rw [show [Record.ack id at_].filterMap Record.acked? = [id] from rfl,
      ← List.concat_eq_append]
    have hfresh : id ∉ (Queue.ofLog text).acked := h.fresh id at_ rfl
    exact hacks.concat fun hmem => hfresh (List.mem_toFinset.mpr hmem)

/-- A log of messages only acknowledges nothing. -/
theorem acks_freshText (kept : List Message) : acks (Change.freshText kept) = [] := by
  rw [acks, Change.ofLog_freshText, List.filterMap_map]
  simp [Function.comp_def, Record.acked?]

variable [DecidableEq Pid]

theorem move_cases (s : InboxSystem Pid) (p q : Pid) (φ : InboxPhase Pid) :
    q = p ∧ (s.move p φ).phase q = φ ∨ q ≠ p ∧ (s.move p φ).phase q = s.phase q := by
  by_cases hq : q = p
  · exact .inl ⟨hq, by rw [hq]; exact move_phase ..⟩
  · exact .inr ⟨hq, Function.update_of_ne hq ..⟩

theorem ledger_move (s : InboxSystem Pid) (p : Pid) (φ : InboxPhase Pid)
    (order : List (InboxDone Pid)) :
    (s.move p φ).ledger order =
      { s.ledger order with stage := Function.update (s.ledger order).stage p φ.stage } := by
  have : (fun q => ((s.move p φ).phase q).stage) =
      Function.update (fun q => (s.phase q).stage) p φ.stage := by
    funext q
    rcases move_cases s p q φ with ⟨rfl, h⟩ | ⟨hq, h⟩
    · rw [h, Function.update_self]
    · rw [h, Function.update_of_ne hq]
  rw [ledger, this]
  rfl

omit [DecidableEq Pid] in
theorem ledger_see (s : InboxSystem Pid) (e : Event Pid InboxCall InboxReply)
    (order : List (InboxDone Pid)) :
    (s.see e).ledger order = { s.ledger order with history := s.history ++ [e] } := rfl

/-- A process that holds the lock as before, or lets go of it, leaves the others as they are. -/
theorem Alone.move {s : InboxSystem Pid} (h : Alone s.phase) {p : Pid} {φ : InboxPhase Pid}
    (hφ : φ.held = (s.phase p).held ∨ φ.held = none) : Alone (s.move p φ).phase := by
  intro a b hab hex
  rcases move_cases s p a φ with ⟨rfl, ha⟩ | ⟨-, ha⟩
  · rcases move_cases s a b φ with ⟨rfl, -⟩ | ⟨-, hb⟩
    · exact absurd rfl hab
    · rw [ha] at hex
      rw [hb]
      rcases hφ with hφ | hφ
      · exact h a b hab (hφ ▸ hex)
      · rw [hφ] at hex
        cases hex
  · rw [ha] at hex
    rcases move_cases s p b φ with ⟨rfl, hb⟩ | ⟨-, hb⟩
    · rw [hb]
      have hnone := h a b hab hex
      rcases hφ with hφ | hφ
      · rw [hφ, hnone]
      · exact hφ
    · rw [hb]
      exact h a b hab hex

/-- The lock is taken alone, or shared with those that share it. -/
theorem alone_lock {s : InboxSystem Pid} {p : Pid} {op : InboxOp Pid}
    (hfree : ∀ q m, (s.phase q).held = some m →
      m = .shared ∧ InboxStore.mode op.call = .shared) :
    Alone (s.move p (.locked op)).phase := by
  intro a b hab hex
  rcases move_cases s p a (.locked op) with ⟨rfl, ha⟩ | ⟨-, ha⟩
  · rcases move_cases s a b (.locked op) with ⟨rfl, -⟩ | ⟨-, hb⟩
    · exact absurd rfl hab
    · rw [ha] at hex
      rw [hb]
      cases hm : (s.phase b).held with
      | none => rfl
      | some m =>
        rw [show InboxPhase.held (.locked op) = some (InboxStore.mode op.call) from rfl,
          (hfree b m hm).2] at hex
        cases hex
  · rw [ha] at hex
    cases (hfree a _ hex).1

omit [DecidableEq Pid] in
/-- While one process holds the lock, every other one that has a plan shares it. -/
theorem Alone.shared {s : InboxSystem Pid} (h : Alone s.phase) {p q : Pid} (hpq : q ≠ p)
    (hp : (s.phase p).held ≠ none) {d : InboxDone Pid} {c : Change}
    (hq : (s.phase q).plan = some (d, c)) : InboxStore.mode d.op.call = .shared := by
  cases hm : InboxStore.mode d.op.call with
  | shared => rfl
  | exclusive =>
    have := h q p hpq (by rw [InboxPhase.held_of_plan hq, hm])
    exact absurd this hp

/-- A process that got further without taking effect. -/
theorem Sound.proceed {text₀ text : List Char} {s : InboxSystem Pid} {order : List (InboxDone Pid)}
    (h : Sound text₀ s text order) {p : Pid} {φ : InboxPhase Pid}
    (hstage : φ.stage = (s.phase p).stage) (halone : Alone (s.move p φ).phase)
    (hplan : ∀ d c, φ.plan = some (d, c) → Planned (Queue.ofLog text) d c)
    (hclosed : ∀ d r, φ = .checked d r false → Record.Closed text) :
    Sound text₀ (s.move p φ) text order where
  log := h.log
  replays := h.replays
  acks := h.acks
  alone := halone
  plans := by
    intro q d c hq
    rcases move_cases s p q φ with ⟨-, hφ⟩ | ⟨-, hφ⟩
    · exact hplan d c (hφ ▸ hq)
    · exact h.plans q d c (hφ ▸ hq)
  closed := by
    intro q d r hq
    rcases move_cases s p q φ with ⟨-, hφ⟩ | ⟨-, hφ⟩
    · exact hclosed d r (hφ.symm.trans hq)
    · exact h.closed q d r (hφ.symm.trans hq)
  ledger := by
    have hsame : (s.move p φ).ledger order = s.ledger order := by
      rw [ledger_move, hstage]
      show Ledger.mk (Function.update (s.ledger order).stage p ((s.ledger order).stage p)) _ _ = _
      rw [Function.update_eq_self]
    rw [hsame]
    exact h.ledger

/-- A process that is seen to begin or to end. -/
theorem Sound.seen {text₀ text : List Char} {s : InboxSystem Pid} {order : List (InboxDone Pid)}
    (h : Sound text₀ s text order) {p : Pid} {φ : InboxPhase Pid} (hφ : φ.held = none)
    {e : Event Pid InboxCall InboxReply}
    (hl : (((s.move p φ).see e).ledger order).Consistent) :
    Sound text₀ ((s.move p φ).see e) text order where
  log := h.log
  replays := h.replays
  acks := h.acks
  alone := h.alone.move (.inr hφ)
  plans := by
    intro q d c hq
    rcases move_cases s p q φ with ⟨-, hq'⟩ | ⟨-, hq'⟩
    · have hheld := InboxPhase.held_of_plan hq
      rw [show ((s.move p φ).see e).phase q = φ from hq', hφ] at hheld
      cases hheld
    · exact h.plans q d c (hq' ▸ hq)
  closed := by
    intro q d r hq
    rcases move_cases s p q φ with ⟨-, hq'⟩ | ⟨-, hq'⟩
    · rw [hq'.symm.trans hq] at hφ
      cases hφ
    · exact h.closed q d r (hq'.symm.trans hq)
  ledger := hl

/-- **An operation takes effect**: it is answered as the queue answers, and leaves a log that tells
    the queue after it. The plans of the others outlive it, since they share the lock with it. -/
theorem Sound.settle {text₀ text text' : List Char} {s : InboxSystem Pid}
    {order : List (InboxDone Pid)} (h : Sound text₀ s text order) {p : Pid} {d : InboxDone Pid}
    (hstage : (s.phase p).stage = .begun d.op)
    (hheld : (s.phase p).held = some (InboxStore.mode d.op.call))
    (hanswer : (d.answer.answer, Queue.ofLog text') =
      (Queue.ofLog text).answer d.answer.now.toNat d.op.call)
    (hacks : (InboxSystem.acks text).Nodup → (InboxSystem.acks text').Nodup)
    (hclosed : Record.Closed text → Record.Closed text') :
    Sound text₀ { s.move p (.finished d) with log := encodeChars text' } text' (order ++ [d]) where
  log := rfl
  replays := h.replays.concat hanswer
  acks := fun h₀ => hacks (h.acks h₀)
  alone := h.alone.move (.inl hheld.symm)
  plans := by
    intro q e c hq
    rcases move_cases s p q (.finished d) with ⟨-, hq'⟩ | ⟨hqp, hq'⟩
    · rw [show InboxPhase.plan _ = _ from congrArg InboxPhase.plan hq'] at hq
      cases hq
    · have hplan : (s.phase q).plan = some (e, c) := hq' ▸ hq
      have hshared := h.alone.shared hqp (by rw [hheld]; simp) hplan
      obtain ⟨-, hany⟩ := h.plans q e c hplan
      exact ⟨hany hshared _, hany⟩
  closed := by
    intro q e r hq
    rcases move_cases s p q (.finished d) with ⟨-, hq'⟩ | ⟨-, hq'⟩
    · cases hq'.symm.trans hq
    · exact hclosed (h.closed q e r (hq'.symm.trans hq))
  ledger := by
    have hsettle := (Ledger.Step.settle (l := s.ledger order) p d hstage).consistent h.ledger
    show ((s.move p (.finished d)).ledger (order ++ [d])).Consistent
    rw [ledger_move]
    exact hsettle

/-- **Every step keeps the log in step with the order.** -/
theorem Step.sound {text₀ text : List Char} {s s' : InboxSystem Pid}
    {order : List (InboxDone Pid)} (hstep : Step s s') (h : Sound text₀ s text order) :
    ∃ text' order', Sound text₀ s' text' order' := by
  cases hstep with
  | call p c hp =>
    have hstage : (s.ledger order).stage p = .idle := congrArg InboxPhase.stage hp
    have hbegin := (Ledger.Step.begin p c hstage).consistent h.ledger
    refine ⟨text, order, h.seen rfl ?_⟩
    rw [ledger_see, ledger_move]
    exact hbegin
  | lock p op hp hfree =>
    refine ⟨text, order, h.proceed ?_ (alone_lock hfree) (fun _ _ e => by cases e)
      (fun _ _ e => by cases e)⟩
    rw [hp]
    rfl
  | giveUp p op hp =>
    have hstage : (s.ledger order).stage p = .begun op := congrArg InboxPhase.stage hp
    have hgive := (Ledger.Step.giveUp p op hstage).consistent h.ledger
    refine ⟨text, order, h.seen rfl ?_⟩
    rw [ledger_see, ledger_move]
    exact hgive
  | pass p op now snapshot hp hread hc =>
    rw [h.log] at hread
    have hanswer := Snapshot.respond_refines snapshot now op.call
    rw [hc, Snapshot.toQueue_of_ofLog hread] at hanswer
    have hsound := h.settle (p := p) (d := ⟨op, ⟨now, (snapshot.respond now op.call).1⟩⟩)
      (by rw [hp]; rfl) (by rw [hp]; rfl) hanswer id id
    rw [← h.log] at hsound
    exact ⟨text, _, hsound⟩
  | decide p op now snapshot hp hread hc =>
    rw [h.log] at hread
    refine ⟨text, order, h.proceed ?_ (h.alone.move (.inl ?_)) ?_ (fun _ _ e => by cases e)⟩
    · rw [hp]
      rfl
    · rw [hp]
      rfl
    · intro d c hplan
      cases hplan
      exact planned_of_respond hread op now hc
  | check p d r hp =>
    refine ⟨text, order, h.proceed ?_ (h.alone.move (.inl ?_)) ?_ ?_⟩
    · rw [hp]
      rfl
    · rw [hp]
      rfl
    · intro e c hplan
      cases hplan
      exact h.plans p d (.append r) (by rw [hp]; rfl)
    · intro e r' heq
      have hopen : Lines.endsOpen s.log = false := (InboxPhase.checked.inj heq).2.2
      rw [h.log] at hopen
      exact Lines.closed_of_endsOpen hopen
  | write p d r feed hp =>
    obtain ⟨hplan, -⟩ := h.plans p d (.append r) (by rw [hp]; rfl)
    -- the text may have grown since the look at its tail, but by whole lines only
    have hfeed : feed = false → Record.Closed text := fun e => h.closed p d r (e ▸ hp)
    have hlog : s.log ++ ((if feed then [Lines.lineFeed] else []) ++ Change.line r) =
        encodeChars (text ++ ((if feed then ['\n'] else []) ++ (r.text ++ ['\n']))) := by
      rw [h.log, Change.feed_line_eq, encodeChars_append text]
    have hanswer := hplan.answer
    rw [Queue.after, ← Queue.ofLog_append hfeed r] at hanswer
    have hclosed : Record.Closed
        (text ++ ((if feed then ['\n'] else []) ++ (r.text ++ ['\n']))) := by
      rw [← List.append_assoc]
      exact Record.closed_line _ _
    have hsound := h.settle (by rw [hp]; rfl) (by rw [hp]; rfl) hanswer
      (hplan.acks_append hfeed) (fun _ => hclosed)
    rw [← hlog] at hsound
    exact ⟨_, _, hsound⟩
  | replace p d kept hp =>
    obtain ⟨hplan, -⟩ := h.plans p d (.replace kept) (by rw [hp]; rfl)
    have hanswer := hplan.answer
    rw [← Change.ofLog_replace _ hplan.tidy] at hanswer
    have hacks : (acks (Change.freshText kept)).Nodup := by
      rw [acks_freshText]
      exact List.nodup_nil
    have hsound := h.settle (by rw [hp]; rfl) (by rw [hp]; rfl) hanswer (fun _ => hacks)
      (fun _ => Change.closed_freshText kept)
    rw [← Change.fresh_eq] at hsound
    exact ⟨_, _, hsound⟩
  | release p d hp =>
    have hstage : (s.ledger order).stage p = .settled d := congrArg InboxPhase.stage hp
    have hrespond := (Ledger.Step.respond p d hstage).consistent h.ledger
    refine ⟨text, order, h.seen rfl ?_⟩
    rw [ledger_see, ledger_move]
    exact hrespond

theorem Reaches.sound {text : List Char} {s : InboxSystem Pid}
    (h : Reaches (start (encodeChars text)) s) : ∃ text' order, Sound text s text' order := by
  induction h with
  | refl => exact ⟨text, [], sound_start text⟩
  | tail _ hstep ih =>
    obtain ⟨text', order, hsound⟩ := ih
    exact hstep.sound hsound

/-! ## The order -/

/-- The operations could have been made one at a time in this order, from the first text to the
    second. -/
structure InOrder (text₀ text : List Char) (s : InboxSystem Pid) (order : List (InboxDone Pid)) :
    Prop where
  log : s.log = encodeChars text
  /-- the log can be read, and tells the queue that the operations leave -/
  folded : ∃ snapshot, Snapshot.ofLog s.log = .ok snapshot ∧ snapshot.toQueue = Queue.ofLog text
  replays : (Queue.ofLog text₀).Replays order (Queue.ofLog text)
  once : (order.map Done.op).Nodup
  begun : ∀ d ∈ order, .begin d.op ∈ s.history
  /-- what has been answered was answered so -/
  answered : ∀ d, .respond d ∈ s.history → d ∈ order
  /-- what has not is about to be -/
  ended : ∀ d ∈ order, .respond d ∈ s.history ∨ s.phase d.op.pid = .finished d
  /-- what was given up has no effect -/
  givenUp : ∀ op, .giveUp op ∈ s.history → ∀ d ∈ order, d.op ≠ op
  /-- none stands before one that was answered before it began -/
  realtime : order.Pairwise fun d e => ¬ Before s.history (.respond e) (.begin d.op)

omit [DecidableEq Pid] in
theorem Sound.inOrder {text₀ text : List Char} {s : InboxSystem Pid}
    {order : List (InboxDone Pid)} (h : Sound text₀ s text order) : InOrder text₀ text s order where
  log := h.log
  folded := by
    rw [h.log]
    exact Snapshot.ofLog_toQueue text
  replays := h.replays
  once := h.ledger.nodup
  begun := fun d hd => (h.ledger.listed d hd).1
  answered := h.ledger.responded
  ended := by
    intro d hd
    obtain ⟨-, -, hended⟩ := h.ledger.listed d hd
    refine hended.imp_right fun hstage => ?_
    have hphase : (s.phase d.op.pid).stage = .settled d := hstage
    generalize s.phase d.op.pid = φ at hphase
    cases φ <;> cases hphase
    rfl
  givenUp := by
    rintro op hgiven d hd rfl
    exact (h.ledger.listed d hd).2.1 hgiven
  realtime := h.ledger.realtime

/-- **Operations on a shared inbox are made as if one at a time**, whatever the interleaving, in
    an order that the history allows. No message that was enqueued is lost unless it is pruned, no
    identity is pending twice, and a log that started empty acknowledges each identity once. -/
theorem one_at_a_time {text : List Char} {s : InboxSystem Pid}
    (h : Reaches (start (encodeChars text)) s) :
    ∃ text' order, InOrder text text' s order ∧
      (∀ ds d es m, order = ds ++ d :: es → d.op.call = .enqueue m →
        ∃ q, (Queue.ofLog text).Replays (ds ++ [d]) q ∧ q.Knows m.id ∧
          ((Queue.ofLog text').Knows m.id ∨ q.Pruning es m.id)) ∧
      ((Queue.ofLog text').pending.map Message.id).Nodup ∧
      (∀ d ms, .respond d ∈ s.history → d.answer.answer = .pending ms →
        (ms.map Message.id).Nodup) ∧
      (text = [] → (acks text').Nodup) := by
  obtain ⟨text', order, hsound⟩ := h.sound
  refine ⟨text', order, hsound.inOrder, ?_, ?_, ?_, ?_⟩
  · rintro ds d es m rfl hcall
    exact hsound.replays.enqueued hcall
  · exact (Queue.ids_ofRecords_nodup _).sublist (List.filter_sublist.map _)
  · intro d ms hd hms
    have hids : ((Queue.ofLog text).messages.map Message.id).Nodup :=
      Queue.ids_ofRecords_nodup _
    exact hsound.replays.pending_nodup hids d (hsound.inOrder.answered d hd) ms hms
  · rintro rfl
    refine hsound.acks ?_
    rw [acks, Record.ofLog_nil]
    exact List.nodup_nil

/-- What two producers wrote that retried one message side by side, on a log that ends inside a
    line. -/
def retried (m : Message) : InboxSystem Bool :=
  let d (ticket : Nat) (p : Bool) : InboxDone Bool := ⟨⟨ticket, p, .enqueue m⟩, ⟨0, .enqueued m.id⟩⟩
  let tail := [Lines.lineFeed] ++ Change.line (.message m)
  ⟨encodeChars ['x'] ++ tail ++ tail, fun _ => .idle,
    [.begin (d 0 false).op, .begin (d 1 true).op, .respond (d 1 true), .respond (d 0 false)]⟩

/-- Both read the log before either writes. -/
theorem reaches_retried (m : Message) :
    Reaches (start (encodeChars ['x'])) (retried m) := by
  have hread : Snapshot.ofLog (encodeChars ['x']) = .ok {} := by decide +kernel
  refine .head (.call false (.enqueue m) rfl) (.head (.call true (.enqueue m) rfl) ?_)
  refine .head (.lock false _ rfl fun q _ h => by cases q <;> cases h) ?_
  refine .head (.lock true _ rfl fun q _ h => by cases q <;> cases h; exact ⟨rfl, rfl⟩) ?_
  refine .head (.decide false _ 0 {} rfl hread nofun) ?_
  refine .head (.decide true _ 0 {} rfl hread nofun) ?_
  refine .head (.check false _ _ rfl) (.head (.check true _ _ rfl) ?_)
  refine .head (.write false _ _ _ rfl) (.head (.write true _ _ _ rfl) ?_)
  refine .head (.release true _ rfl) (.head (.release false _ rfl) ?_)
  refine Eq.subst (motive := Reaches _) ?_ .refl
  refine congrArg (fun phase => InboxSystem.mk (retried m).log phase (retried m).history) ?_
  funext p
  cases p <;> rfl

theorem retried_one_at_a_time :
    let m : Message := ⟨⟨"1"⟩, ⟨"a"⟩, "x", 0, none⟩
    Reaches (start (encodeChars ['x'])) (retried m) ∧
      ∃ text' order, InOrder ['x'] text' (retried m) order ∧
        ((Queue.ofLog text').pending.map Message.id).Nodup := by
  intro m
  have h : Reaches (start (encodeChars ['x'])) (retried m) := reaches_retried m
  obtain ⟨text', order, horder, -, hpending, -⟩ := one_at_a_time h
  exact ⟨h, text', order, horder, hpending⟩

end InboxSystem

end AgentSupervisor
