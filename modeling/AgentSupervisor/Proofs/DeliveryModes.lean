import AgentSupervisor.Proofs.FailedDeliveries

/-!
# The two ways of delivery

A message goes the way that the mode of its session says. Into an inbox it goes without a look at
the health and without a byte for the terminal, and then the log tells it. Into a terminal it goes
without a change of any file, unless the check before it speaks against it.

* `InboxStore.snapshot_append`  : what a log says after one more message;
* `InboxStore.enqueue_logged`   : a message that is accepted is in the log;
* `Router.mode_respected`       : what a delivery comes to, mode by mode.
-/

namespace AgentSupervisor

open Terminal (enter)
open Utf8 (encodeChars)

/-! ## Messages that are accepted -/

namespace InboxStore

variable {store : InboxStore} {st : Storage} {inbox : InboxId} {disk disk' : Disk} {log : Bytes}

theorem log_of_snapshot {snapshot : Snapshot} (h : store.snapshot disk inbox = .ok snapshot) :
    ∃ text, store.log disk inbox = .ok (encodeChars text) ∧
      Snapshot.ofLog (encodeChars text) = .ok snapshot := by
  obtain ⟨log, hlog, hread⟩ := snapshot_eq_ok h
  obtain ⟨text, rfl⟩ := Snapshot.exists_text hread
  exact ⟨text, hlog, hread⟩

/-- **What a log says after one more message**: the same as before, and the message. -/
theorem snapshot_append {m : Message} {before : Snapshot}
    (h : store.change disk inbox (.append (.message m)) = .ok disk')
    (hbefore : store.snapshot disk inbox = .ok before) (hnew : before.contains m.id = false) :
    ∃ after, store.snapshot disk' inbox = .ok after ∧ after.messages = before.messages ++ [m] := by
  obtain ⟨text, hlog, hread⟩ := log_of_snapshot hbefore
  have hrespond : before.respond 0 (.enqueue m) = (.enqueued m.id, .append (.message m)) := by
    rw [Snapshot.respond, Snapshot.enqueue, hnew]
    rfl
  obtain ⟨text', htext', hanswer, -⟩ := Snapshot.respond_text hread 0 (.enqueue m)
  rw [hrespond] at htext' hanswer
  obtain ⟨after, hafter, hq⟩ := Snapshot.ofLog_toQueue text'
  refine ⟨after, ?_, ?_⟩
  · rw [InboxStore.snapshot, log_change h hlog, htext']
    exact hafter
  · have hunknown : ¬ (Queue.ofLog text).Knows m.id := by
      rw [← Snapshot.toQueue_of_ofLog hread, ← Snapshot.contains_iff, hnew]
      exact Bool.false_ne_true
    have hqueue : Queue.ofLog text' = (Queue.ofLog text).enqueue m := (Prod.mk.inj hanswer).2
    have hmessages := congrArg Queue.messages (hq.trans hqueue)
    rw [Queue.enqueue, if_neg hunknown, ← Snapshot.toQueue_of_ofLog hread] at hmessages
    exact hmessages

/-- What a log says before and after a message has been accepted. -/
structure Accepts (store : InboxStore) (m : Message) (disk disk' : Disk)
    (before after : Snapshot) : Prop where
  read : store.snapshot disk m.inbox = .ok before
  reread : store.snapshot disk' m.inbox = .ok after
  known : before.contains m.id = true → after = before
  new : before.contains m.id = false → after.messages = before.messages ++ [m]

theorem Accepts.contains {m : Message} {before after : Snapshot}
    (h : Accepts store m disk disk' before after) : after.contains m.id = true := by
  cases hknown : before.contains m.id with
  | true => rw [h.known hknown, hknown]
  | false => simp [Snapshot.contains, h.new hknown]

/-- **A message that is accepted is in the log**, whatever stands on the disk. -/
theorem enqueue_logged {m : Message} {i : MessageId} (h : (store.enqueue m st).1 = .ok i) :
    i = m.id ∧ ∃ before after,
      Accepts store m st.disk (store.enqueue m st).2.disk before after := by
  obtain ⟨locked, before, c, disk, hlock, hbefore, hdecide, hchange, hdisk⟩ := underLock_ok h
  have hsame : store.snapshot locked.disk m.inbox = store.snapshot st.disk m.inbox :=
    snapshot_of_lock hlock
  have hdisk' : (store.enqueue m st).2.disk = disk := hdisk
  have hc : before.enqueue m = (i, c) := Except.ok.inj hdecide
  rw [Snapshot.enqueue] at hc
  rw [hdisk']
  cases hknown : before.contains m.id with
  | true =>
    rw [hknown] at hc
    cases hc
    cases hchange
    exact ⟨rfl, before, before, hsame ▸ hbefore, hbefore, fun _ => rfl,
      fun hnew => absurd (hnew.symm.trans hknown) Bool.false_ne_true⟩
  | false =>
    rw [hknown] at hc
    cases hc
    obtain ⟨after, hafter, hmessages⟩ := snapshot_append hchange hbefore hknown
    exact ⟨rfl, before, after, hsame ▸ hbefore, hafter,
      fun hold => absurd (hknown.symm.trans hold) Bool.false_ne_true, fun _ => hmessages⟩

end InboxStore

/-! ## Mode by mode -/

namespace Router

variable {store : InboxStore} {settle : Nat} {session : Session} {message : String}
  {id : MessageId} {health : Option (Except IoError Report)} {terminal : Option Terminal}
  {st : Storage} {d : Delivery}

/-- What a delivery into an inbox comes to. -/
structure Queues (store : InboxStore) (session : Session) (message : String) (id : MessageId)
    (terminal : Option Terminal) (st : Storage) (d : Delivery) : Prop where
  untyped : d.typed = [] ∧ d.terminal = terminal
  queued : ∀ i, d.receipt.outcome = .queued i ↔
    (store.enqueue (envelope session message id (UInt64.ofNat st.now)) st).1 = .ok i
  failed : ∀ reason, d.receipt.outcome = .failed reason ↔ ∃ e, reason = e.message ∧
    (store.enqueue (envelope session message id (UInt64.ofNat st.now)) st).1 = .error e
  /-- the identity is that of the message, and the log has a message of that identity, which is
      this one unless there was one before -/
  logged : ∀ i, d.receipt.outcome = .queued i → i = id ∧ ∃ before after,
    store.snapshot st.disk session.inbox = .ok before ∧
    store.snapshot d.storage.disk session.inbox = .ok after ∧ after.contains i = true ∧
    (before.contains i = false → ∃ m, after.messages = before.messages ++ [m] ∧
      m.id = i ∧ m.payload = message ∧ m.sender = some "corral")

/-- The check before typing speaks against it. -/
def Refuses (health : Option (Except IoError Report)) : Prop :=
  (∃ e, health = some (.error e)) ∨ ∃ r, health = some (.ok r) ∧ r.health = .crashed

/-- What a delivery into a terminal comes to. -/
structure Types (message : String) (health : Option (Except IoError Report))
    (terminal : Option Terminal) (st : Storage) (d : Delivery) : Prop where
  storage : d.storage = st
  refused : Refuses health ∨ terminal = none →
    d.typed = [] ∧ d.terminal = terminal ∧ ∃ reason, d.receipt.outcome = .failed reason
  /-- what was taken is the beginning of the text with its Enter key, and the outcome says
      whether it is all of it -/
  typed : ¬ Refuses health → terminal ≠ none →
    d.typed <+: Utf8.encode message ++ [enter] ∧
    (d.receipt.outcome = .typed ↔ d.typed = Utf8.encode message ++ [enter]) ∧
    (d.receipt.outcome = .typed ∨ ∃ reason, d.receipt.outcome = .failed reason)

theorem bind_refusal?_eq_none : health.bind refusal? = none ↔ ¬ Refuses health := by
  rcases health with - | e | r
  · simp [Refuses]
  · simp [Refuses, refusal?]
  · by_cases hr : r.health = .crashed
    · simp [Refuses, refusal?, hr]
    · simp [Refuses, refusal?, hr]

theorem deliver_receipt (hd : deliver store settle session message id health terminal st = d) :
    d.receipt.session = session.name ∧ d.receipt.mode = session.mode := by
  subst hd
  unfold deliver deliverOn
  cases session.mode with
  | inbox =>
    simp only [queueOn]
    split <;> exact ⟨rfl, rfl⟩
  | terminal =>
    simp only
    split
    · exact ⟨rfl, rfl⟩
    · unfold type
      split <;> exact ⟨rfl, rfl⟩

theorem deliver_inbox (hmode : session.mode = .inbox) :
    deliver store settle session message id health terminal st =
      queueOn none store session message id terminal st := by
  rw [deliver, deliverOn, hmode]

theorem deliver_terminal (hmode : session.mode = .terminal) (h : ¬ Refuses health) :
    deliver store settle session message id health terminal st =
      type settle session message terminal st := by
  rw [deliver, deliverOn, hmode]
  simp only [bind_refusal?_eq_none.mpr h]

theorem deliver_refused (store : InboxStore) (settle : Nat) (message : String) (id : MessageId)
    (terminal : Option Terminal) (st : Storage) (hmode : session.mode = .terminal)
    (h : Refuses health) :
    ∃ reason, deliver store settle session message id health terminal st =
      ⟨⟨session.name, .terminal, .failed reason⟩, st, terminal, [], 0⟩ := by
  cases hr : health.bind refusal? with
  | none => exact absurd h (bind_refusal?_eq_none.mp hr)
  | some reason =>
    refine ⟨reason, ?_⟩
    rw [deliver, deliverOn, hmode]
    simp only [hr]

theorem queue_queues : Queues store session message id terminal st
    (queueOn none store session message id terminal st) := by
  have hlogged := @InboxStore.enqueue_logged store st
    (envelope session message id (UInt64.ofNat st.now))
  rw [queueOn, InboxStore.enqueueOn_none]
  generalize hr : store.enqueue (envelope session message id (UInt64.ofNat st.now)) st = r
    at hlogged ⊢
  obtain ⟨e | i, st'⟩ := r
  · exact ⟨⟨rfl, rfl⟩, by simp [hr], by simp [hr, eq_comm], by simp⟩
  · refine ⟨⟨rfl, rfl⟩, by simp [hr], by simp [hr], ?_⟩
    intro j hj
    cases hj
    obtain ⟨hid, before, after, h⟩ := hlogged rfl
    have hi : i = id := hid
    refine ⟨hi, before, after, h.read, h.reread, hid ▸ h.contains, fun hnew => ?_⟩
    exact ⟨_, h.new (hid ▸ hnew), hi.symm, rfl, rfl⟩

theorem type_types (h : ¬ Refuses health) :
    Types message health terminal st (type settle session message terminal st) := by
  cases terminal with
  | none => exact ⟨rfl, fun _ => ⟨rfl, rfl, _, rfl⟩, fun _ hne => absurd rfl hne⟩
  | some t =>
    obtain ⟨hst, htyped, -, hok⟩ := type_some
      (rfl : type settle session message (some t) st = _)
    have htypes := Terminal.inject_types settle t (Utf8.encode message)
    refine ⟨hst, fun hno => by simp [h] at hno, fun _ _ => ?_⟩
    rw [htyped, hok]
    cases ho : (t.inject settle (Utf8.encode message)).outcome with
    | ok u =>
      have hall := htypes.complete ho
      exact ⟨by rw [hall], by simp [hall], .inl rfl⟩
    | error e =>
      obtain ⟨hpart, hproper⟩ := htypes.partial ho
      refine ⟨hpart, by simp [hproper], .inr ⟨e.message, ?_⟩⟩
      rw [type]
      simp only [ho]

/-- **A delivery respects the mode of its session.** The receipt names the session and its mode.
    A message for an inbox is queued there exactly when the inbox accepts it, under the identity
    that was given, if one was; no byte is typed, and the health does not matter. A message for a
    terminal changes nothing that is stored. It fails and nothing is typed when the check before it
    fails or finds a crash, or when there is no terminal; otherwise it counts as typed exactly when
    the terminal took all of the text and the Enter key. -/
theorem mode_respected (store : InboxStore) (settle : Nat) (session : Session) (message : String)
    (given : Option MessageId) (fresh : MessageId) (gate : Option RetryPolicy)
    (check : RetryPolicy → Except IoError Report) (terminal : Option Terminal) (st : Storage) :
    ∃ d, deliver store settle session message (given.getD fresh) (gate.map check) terminal st = d ∧
      d.receipt.session = session.name ∧ d.receipt.mode = session.mode ∧
      (session.mode = .inbox →
        Queues store session message (given.getD fresh) terminal st d ∧
        ∀ health, deliver store settle session message (given.getD fresh) health terminal st = d) ∧
      (session.mode = .terminal → Types message (gate.map check) terminal st d) := by
  obtain ⟨hname, hmode⟩ := deliver_receipt
    (rfl : deliver store settle session message (given.getD fresh) (gate.map check) terminal st = _)
  refine ⟨_, rfl, hname, hmode, fun hinbox => ?_, fun hterminal => ?_⟩
  · rw [deliver_inbox hinbox]
    exact ⟨queue_queues, fun _ => deliver_inbox hinbox⟩
  · by_cases h : Refuses (gate.map check)
    · obtain ⟨reason, hd⟩ :=
        deliver_refused store settle message (given.getD fresh) terminal st hterminal h
      rw [hd]
      exact ⟨rfl, fun _ => ⟨rfl, rfl, reason, rfl⟩, fun hno => absurd h hno⟩
    · rw [deliver_terminal hterminal h]
      exact type_types h

/-- A session with an inbox. -/
def clerk : Session := { typist with mode := .inbox }

/-- The same message for a session with an inbox and for one with a terminal. -/
theorem mode_respected_go :
    let st : Storage := { disk := ⟨[(["q"], .directory)]⟩, now := 0 }
    (∃ d, deliver ⟨["q"]⟩ 50 clerk "go" ⟨"m1"⟩ none none st = d ∧ d.typed = [] ∧
      d.receipt.outcome = .queued ⟨"m1"⟩ ∧ ∃ after,
        (⟨["q"]⟩ : InboxStore).snapshot d.storage.disk ⟨"solo"⟩ = .ok after ∧
          after.contains ⟨"m1"⟩ = true) ∧
    ∃ d, deliver ⟨["q"]⟩ 50 typist "go" ⟨"m1"⟩ none (some [.takes 2, .takes 1]) st = d ∧
      d.storage = st ∧ d.receipt.outcome = .typed ∧ d.typed = Utf8.encode "go" ++ [enter] := by
  intro st
  have hqueued : (deliver ⟨["q"]⟩ 50 clerk "go" ⟨"m1"⟩ none none st).receipt.outcome =
      .queued ⟨"m1"⟩ := by decide +kernel
  have htyped : (deliver ⟨["q"]⟩ 50 typist "go" ⟨"m1"⟩ none (some [.takes 2, .takes 1])
      st).receipt.outcome = .typed := by decide +kernel
  constructor
  · obtain ⟨_, rfl, -, -, hinbox, -⟩ := mode_respected ⟨["q"]⟩ 50 clerk "go" (some ⟨"m1"⟩) ⟨"m2"⟩
      none (fun _ => .error .notFound) none st
    obtain ⟨h, -⟩ := hinbox rfl
    obtain ⟨-, before, after, -, hafter, hcontains, -⟩ := h.logged _ hqueued
    exact ⟨_, rfl, h.untyped.1, hqueued, after, hafter, hcontains⟩
  · obtain ⟨_, rfl, -, -, -, hterminal⟩ := mode_respected ⟨["q"]⟩ 50 typist "go" (some ⟨"m1"⟩)
      ⟨"m2"⟩ none (fun _ => .error .notFound) (some [.takes 2, .takes 1]) st
    have h := hterminal rfl
    obtain ⟨-, hall, -⟩ := h.typed (by simp [Refuses]) (Option.some_ne_none _)
    exact ⟨_, rfl, h.storage, htyped, hall.mp htyped⟩

end Router

end AgentSupervisor
