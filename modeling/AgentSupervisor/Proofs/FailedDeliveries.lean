import AgentSupervisor.Proofs.InboxCrash
import AgentSupervisor.Proofs.InboxFiles
import AgentSupervisor.Proofs.Typing

/-!
# Deliveries that fail

A delivery that fails leaves the inbox as it was, unless the storage fails while the message is
written: then a first part of it is in the log, up to all of it. It leaves the terminal as it was
when it fails before typing; when it fails while typing, the terminal has what it took until then,
and reads that as the beginning of the next message.

* `InboxStore.snapshot_underLock_error` : an operation that fails leaves the log;
* `InboxStore.enqueueOn_fault`          : what failing storage makes of a message;
* `Router.failed_delivery`              : what a failed delivery leaves behind;
* `Router.failed_after_typing`          : a message that is typed in part and spoils the next one.
-/

namespace AgentSupervisor

open Terminal (enter)

variable {store : InboxStore} {st : Storage} {inbox : InboxId}

/-! ## The inbox -/

namespace InboxStore

theorem snapshot_underLock_error {α : Type} {mode : LockMode}
    {decide : Snapshot → UInt64 → Except InboxError (α × Change)} {e : InboxError}
    (he : (store.underLock inbox mode decide st).1 = .error e) :
    store.snapshot (store.underLock inbox mode decide st).2.disk inbox =
      store.snapshot st.disk inbox :=
  snapshot_of_find (find_underLock_error (lock_off_log store inbox) he)

/-- A log with a part of what was to be written for a message at its end. `disk` is what was there
    before, `done` what storage that does not fail makes of it, and `left` what is there now. -/
structure Torn (store : InboxStore) (m : Message) (part log : Bytes) (disk done left : Disk) :
    Prop where
  before : store.log disk m.inbox = .ok log
  done : store.log done m.inbox = .ok (log ++ Change.tail log (.message m))
  left : store.log left m.inbox = .ok (log ++ part)

/-- What is written may fail part-way, but a log is opened in one way. -/
theorem cut_error_iff {f : Fault} {r : Record} {disk : Disk} {e : IoError} :
    store.cut f disk inbox (.append r) = .error e ↔
      store.change disk inbox (.append r) = .error e := by
  rw [cut, change]
  exact ⟨fun h => Disk.modify_error h rfl, fun h => Disk.modify_error h rfl⟩

theorem changeOn_error {f : Fault} {r : Record} {disk : Disk} {e : IoError}
    (hcut : store.cut f disk inbox (.append r) = .error e) :
    changeOn (some f) store disk inbox (.append r) = (.error e, disk) := by
  simp [changeOn, hcut, Option.filter]

theorem changeOn_ok {f : Fault} {r : Record} {disk left : Disk}
    (hcut : store.cut f disk inbox (.append r) = .ok left) :
    changeOn (some f) store disk inbox (.append r) = (.error f.error, left) := by
  simp [changeOn, hcut, Option.filter]

/-- **What failing storage makes of a message.** Either it does not come to writing, or what was
    taken of the message is left, and the operation fails that would have worked. -/
theorem enqueueOn_fault (f : Fault) (store : InboxStore) (m : Message) (st : Storage) :
    enqueueOn (some f) store m st = store.enqueue m st ∨
    ∃ log, (store.enqueue m st).1 = .ok m.id ∧
      (enqueueOn (some f) store m st).1 = .error (.io f.error) ∧
      (∃ snapshot, Snapshot.ofLog log = .ok snapshot) ∧
      Torn store m ((Change.tail log (.message m)).take f.taken) log st.disk
        (store.enqueue m st).2.disk (enqueueOn (some f) store m st).2.disk := by
  have henqueue : store.enqueue m st =
      store.underLock m.inbox .shared (fun snapshot _ => .ok (snapshot.enqueue m)) st := rfl
  rw [henqueue, underLock_eq]
  unfold enqueueOn underLockOn
  cases hl : st.lock (store.lockPlace m.inbox) .shared with
  | error e => exact .inl rfl
  | ok r =>
    obtain ⟨got, locked⟩ := r
    cases got with
    | false => exact .inl rfl
    | true =>
      simp only
      cases hs : store.snapshot locked.disk m.inbox with
      | error e => exact .inl rfl
      | ok snapshot =>
        simp only [Snapshot.enqueue]
        cases snapshot.contains m.id with
        | true => exact .inl rfl
        | false =>
          -- only here is anything written
          obtain ⟨log, hlog, hread⟩ := snapshot_eq_ok hs
          simp only [Bool.false_eq_true, if_false]
          cases hc : store.change locked.disk m.inbox (.append (.message m)) with
          | error e =>
            rw [changeOn_error (cut_error_iff.mpr hc)]
            exact .inl rfl
          | ok done =>
            cases hf : store.cut f locked.disk m.inbox (.append (.message m)) with
            | error e => cases hc.symm.trans (cut_error_iff.mp hf)
            | ok left =>
              rw [changeOn_ok hf]
              have hwas := (log_of_lock hl).1
              have hdone := log_modify (f := fun log => log ++ Change.tail log (.message m)) hc hlog
              have hleft := log_modify
                (f := fun log => log ++ (Change.tail log (.message m)).take f.taken) hf hlog
              exact .inr ⟨log, rfl, rfl, ⟨snapshot, hread⟩, hwas.symm.trans hlog, hdone, hleft⟩

/-- **What such a log says.** Nothing is left of the message when the part is
    cut between two characters before its end, all of it when no more than the last line feed is
    missing; and nothing can be read any more when the part is cut inside a character. -/
theorem Torn.snapshot {m : Message} {part log : Bytes} {disk done left : Disk}
    (h : Torn store m part log disk done left) {before : Snapshot}
    (hread : Snapshot.ofLog log = .ok before)
    (hpart : part <+: Change.tail log (.message m)) :
    (∀ cs, part = Utf8.encodeChars cs → store.snapshot left m.inbox =
      if Change.Whole log (.message m) part then store.snapshot done m.inbox
      else store.snapshot disk m.inbox) ∧
    ((∀ cs, part ≠ Utf8.encodeChars cs) → store.snapshot left m.inbox = .error .notUtf8) := by
  have hof {d : Disk} {log : Bytes} (hlog : store.log d m.inbox = .ok log) :
      store.snapshot d m.inbox = Snapshot.ofLog log := by
    rw [InboxStore.snapshot, hlog]
    rfl
  rw [hof h.left, hof h.done, hof h.before]
  obtain ⟨text, rfl⟩ := Snapshot.exists_text hread
  exact Snapshot.ofLog_torn hpart

end InboxStore

/-! ## The delivery -/

namespace Router

variable {settle : Nat} {session : Session} {message reason : String} {id : MessageId}
  {health : Option (Except IoError Report)} {terminal : Option Terminal} {d : Delivery}
  {fault : Option InboxStore.Fault}

theorem type_none (hd : type settle session message none st = d) :
    d.storage = st ∧ d.typed = [] ∧ d.terminal = none := by
  subst hd
  exact ⟨rfl, rfl, rfl⟩

/-- What is typed is what `inject` types, whether it succeeds or not. -/
theorem type_some {t : Terminal} (hd : type settle session message (some t) st = d) :
    d.storage = st ∧ d.typed = (t.inject settle (Utf8.encode message)).accepted ∧
      d.terminal = some (t.inject settle (Utf8.encode message)).terminal ∧
      (d.receipt.outcome = .typed ↔ (t.inject settle (Utf8.encode message)).outcome = .ok ()) := by
  subst hd
  rw [type]
  refine ⟨rfl, rfl, rfl, ?_⟩
  cases (t.inject settle (Utf8.encode message)).outcome with
  | ok u => simp
  | error e => simp

/-- What a delivery into an inbox comes to is what the inbox says. -/
theorem queueOn_outcome (hd : queueOn fault store session message id terminal st = d) {r}
    (hr : InboxStore.enqueueOn fault store
      (envelope session message id (UInt64.ofNat st.now)) st = r) :
    d.storage = r.2 ∧ d.typed = [] ∧ d.terminal = terminal ∧
      (∀ i, r.1 = .ok i → d.receipt.outcome = .queued i) ∧
      ∀ e, r.1 = .error e → d.receipt.outcome = .failed e.message := by
  subst hd
  unfold queueOn
  rw [hr]
  obtain ⟨_ | _, st'⟩ := r
  · exact ⟨rfl, rfl, rfl, by simp, by simp⟩
  · exact ⟨rfl, rfl, rfl, by simp, by simp⟩

/-- What a delivery that fails leaves of its message in an inbox whose storage fails. `u` is the
    same delivery on storage that does not. -/
structure Remains (store : InboxStore) (taken : Nat) (m : Message) (disk : Disk)
    (u d : Delivery) : Prop where
  /-- it fails in any case, and leaves nothing; or it would have worked -/
  either : (∃ reason, u.receipt.outcome = .failed reason) ∧
      store.snapshot d.storage.disk m.inbox = store.snapshot disk m.inbox ∨
    u.receipt.outcome = .queued m.id
  /-- what was taken is left of a message that would have been delivered: none of it when it is cut
      between two characters before its end, all of it when no more than the last line feed is
      missing, and nothing can be read any more when it is cut inside a character -/
  torn : u.receipt.outcome = .queued m.id → ∃ log part,
    part = (Change.tail log (.message m)).take taken ∧
    InboxStore.Torn store m part log disk u.storage.disk d.storage.disk ∧
    (∀ cs, part = Utf8.encodeChars cs → store.snapshot d.storage.disk m.inbox =
      if Change.Whole log (.message m) part then store.snapshot u.storage.disk m.inbox
      else store.snapshot disk m.inbox) ∧
    ((∀ cs, part ≠ Utf8.encodeChars cs) →
      store.snapshot d.storage.disk m.inbox = .error .notUtf8)

/-- A delivery into an inbox whose storage does not fail leaves the inbox alone when it fails. -/
theorem queue_failed (hd : queueOn none store session message id terminal st = d)
    (hf : d.receipt.outcome = .failed reason) :
    store.snapshot d.storage.disk session.inbox = store.snapshot st.disk session.inbox := by
  obtain ⟨hst, -, -, hok, -⟩ := queueOn_outcome hd rfl
  have hsnap := fun e => @InboxStore.snapshot_underLock_error store st session.inbox MessageId
    .shared (fun snapshot _ =>
      .ok (snapshot.enqueue (envelope session message id (UInt64.ofNat st.now)))) e
  have henqueue : store.underLock session.inbox .shared (fun snapshot _ =>
        .ok (snapshot.enqueue (envelope session message id (UInt64.ofNat st.now)))) st =
      InboxStore.enqueueOn none store (envelope session message id (UInt64.ofNat st.now)) st := rfl
  rw [henqueue] at hsnap
  generalize InboxStore.enqueueOn none store _ st = r at hst hok hsnap
  rw [hst]
  cases hr : r.1 with
  | error e => exact hsnap e hr
  | ok i =>
    rw [hok i hr] at hf
    cases hf

theorem queueOn_remains {f : InboxStore.Fault} {u : Delivery}
    (hd : queueOn (some f) store session message id terminal st = d)
    (hf : d.receipt.outcome = .failed reason)
    (hu : queueOn none store session message id terminal st = u) :
    Remains store f.taken (envelope session message id (UInt64.ofNat st.now)) st.disk u d := by
  obtain ⟨hst, -, -, hok, -⟩ := queueOn_outcome hd rfl
  obtain ⟨hust, -, -, huok, huerr⟩ := queueOn_outcome hu rfl
  have hqueued (reason : String) (hfailed : u.receipt.outcome = .failed reason) :=
    queue_failed hu hfailed
  rcases InboxStore.enqueueOn_fault f store (envelope session message id (UInt64.ofNat st.now)) st
    with hsame | ⟨log, hdone, -, ⟨before, hread⟩, htorn⟩
  · rw [InboxStore.enqueue] at hsame
    rw [hsame] at hst hok
    rw [hust] at hqueued
    generalize InboxStore.enqueueOn none store _ st = r at hst hok huok huerr hqueued
    cases hr : r.1 with
    | ok i =>
      rw [hok i hr] at hf
      cases hf
    | error e =>
      have hfailed := huerr e hr
      refine ⟨.inl ⟨⟨_, hfailed⟩, ?_⟩, fun hq => ?_⟩
      · rw [hst]
        exact hqueued _ hfailed
      · rw [hfailed] at hq
        cases hq
  · rw [InboxStore.enqueue] at hdone htorn
    rw [← hust, ← hst] at htorn
    exact ⟨.inr (huok _ hdone), fun _ => ⟨log, _, rfl, htorn,
      htorn.snapshot hread (List.take_prefix _ _)⟩⟩

/-- A message that is typed is typed with its Enter key. -/
theorem typed_of_deliver
    (hd : deliverOn fault store settle session message id health terminal st = d)
    (ht : d.receipt.outcome = .typed) : d.typed = Utf8.encode message ++ [enter] := by
  unfold deliverOn at hd
  split at hd
  · rw [queueOn] at hd
    split at hd
    · subst hd
      cases ht
    · subst hd
      cases ht
  · split at hd
    · subst hd
      cases ht
    · cases terminal with
      | none =>
        subst hd
        cases ht
      | some t =>
        obtain ⟨-, htyped, -, hok⟩ := type_some hd
        rw [htyped]
        exact (Terminal.inject_types ..).complete (hok.mp ht)

/-- What a delivery leaves of the storage, and of the terminal before anything is typed. -/
theorem deliverOn_untyped
    (hd : deliverOn fault store settle session message id health terminal st = d) :
    (session.mode = .terminal → d.storage = st) ∧
    (session.mode = .inbox ∨ health.bind refusal? ≠ none ∨ terminal = none →
      d.typed = [] ∧ d.terminal = terminal) := by
  unfold deliverOn at hd
  cases hmode : session.mode with
  | inbox =>
    rw [hmode] at hd
    obtain ⟨-, htyped, hterminal, -⟩ := queueOn_outcome hd rfl
    refine ⟨fun h => ?_, fun _ => ⟨htyped, hterminal⟩⟩
    cases h
  | terminal =>
    rw [hmode] at hd
    simp only at hd
    split at hd
    · subst hd
      exact ⟨fun _ => rfl, fun _ => ⟨rfl, rfl⟩⟩
    · rename_i hgate
      cases terminal with
      | none =>
        obtain ⟨hst, htyped, hterminal⟩ := type_none hd
        exact ⟨fun _ => hst, fun _ => ⟨htyped, hterminal⟩⟩
      | some t =>
        obtain ⟨hst, -⟩ := type_some hd
        exact ⟨fun _ => hst, fun h => by simp [hgate] at h⟩

/-- **What a failed delivery leaves behind.** The inbox is as before where messages are typed, and
    where the storage does not fail; where it fails, the inbox has what was taken of the message.
    The terminal is as before unless the failure came while typing. It then has a proper part of the
    message, none of it exactly when no answer took anything, and only in that case is the next
    message that is typed read by itself. -/
theorem failed_delivery
    (hd : deliverOn fault store settle session message id health terminal st = d)
    (hf : d.receipt.outcome = .failed reason) :
    (session.mode = .terminal ∨ fault = none →
      store.snapshot d.storage.disk session.inbox = store.snapshot st.disk session.inbox) ∧
    (∀ f u, fault = some f → session.mode = .inbox →
      deliver store settle session message id health terminal st = u →
      Remains store f.taken (envelope session message id (UInt64.ofNat st.now)) st.disk u d) ∧
    (session.mode = .inbox ∨ health.bind refusal? ≠ none ∨ terminal = none →
      d.typed = [] ∧ d.terminal = terminal) ∧
    ∀ t, terminal = some t → ∃ used t', t = used ++ t' ∧ d.terminal = some t' ∧
      d.typed <+: Utf8.encode message ++ [enter] ∧ d.typed ≠ Utf8.encode message ++ [enter] ∧
      (d.typed = [] ↔ ∀ a ∈ used, ¬ a.TakesSome) ∧
      ∀ fault' message' id' health' st' d',
        deliverOn fault' store settle session message' id' health' d.terminal st' = d' →
        d'.receipt.outcome = .typed →
        (d.typed ++ d'.typed = Utf8.encode message' ++ [enter] ↔ d.typed = []) := by
  obtain ⟨hstorage, huntyped⟩ := deliverOn_untyped hd
  refine ⟨fun h => ?_, fun f u hfault hmode hu => ?_, huntyped, ?_⟩
  · cases hmode : session.mode with
    | terminal => rw [hstorage hmode]
    | inbox =>
      obtain rfl : fault = none := by simpa [hmode] using h
      rw [deliverOn, hmode] at hd
      exact queue_failed hd hf
  · subst hfault
    rw [deliver] at hu
    rw [deliverOn, hmode] at hd hu
    exact queueOn_remains hd hf hu
  · have hnext : ∀ fault' message' id' health' st' d',
        deliverOn fault' store settle session message' id' health' d.terminal st' = d' →
        d'.receipt.outcome = .typed →
        (d.typed ++ d'.typed = Utf8.encode message' ++ [enter] ↔ d.typed = []) := by
      intro fault' message' id' health' st' d' hd' ht
      rw [typed_of_deliver hd' ht]
      exact List.append_left_eq_self
    rintro t rfl
    by_cases h : session.mode = .inbox ∨ health.bind refusal? ≠ none
    · obtain ⟨htyped, hterminal⟩ := huntyped (by simpa using h)
      exact ⟨[], t, rfl, hterminal, by simp [htyped], by simp [htyped], by simp [htyped], hnext⟩
    · obtain ⟨hmode, hgate⟩ := not_or.mp h
      have hmode : session.mode = .terminal := by
        cases hm : session.mode with
        | inbox => exact absurd hm hmode
        | terminal => rfl
      rw [deliverOn, hmode] at hd
      simp only [not_not.mp hgate] at hd
      obtain ⟨-, htyped, hterminal, hok⟩ := type_some hd
      obtain ⟨used, huses⟩ := Terminal.inject_uses settle t (Utf8.encode message)
      have htypes := Terminal.inject_types settle t (Utf8.encode message)
      cases ho : (t.inject settle (Utf8.encode message)).outcome with
      | ok u =>
        rw [hok.mpr ho] at hf
        cases hf
      | error e =>
        obtain ⟨hpart, hproper⟩ := htypes.partial ho
        refine ⟨used, _, huses.split, hterminal, ?_, ?_, ?_, hnext⟩
        · rw [htyped]
          exact hpart
        · rw [htyped]
          exact hproper
        · rw [htyped]
          exact huses.accepted_eq_nil ho

/-! ## Parts of messages -/

/-- A session with a terminal. -/
def typist : Session :=
  { name := "solo", agent := .claude, mode := .terminal, command := "claude", pidFile := "p"
    inbox := ⟨"solo"⟩, startedAt := 0, patterns := [] }

/-- The storage takes a message but cannot confirm that it is safe. The delivery has failed, and
    the message waits. -/
example :
    let d := deliverOn (some ⟨1000, .device⟩) ⟨["q"]⟩ 50 { typist with mode := .inbox } "go" ⟨"m1"⟩ none none
      { now := 0, disk := ⟨[(["q"], .directory)]⟩ }
    d.receipt.outcome = .failed "inbox I/O error: Input/output error (os error 5)" ∧
      ((⟨["q"]⟩ : InboxStore).poll ⟨"solo"⟩ d.storage).1.toOption.map (·.map Message.payload) =
        some ["go"] := by
  decide +kernel

/-- The terminal takes three bytes and fails; what it took comes before the next message. -/
theorem failed_after_typing :
    let d := deliver ⟨["q"]⟩ 50 typist "hello" ⟨"m1"⟩ none (some [.takes 3, .fails .device])
      { now := 0 }
    let d' := deliver ⟨["q"]⟩ 50 typist "next" ⟨"m2"⟩ none d.terminal d.storage
    d.receipt.outcome = .failed "failed to write to PTY: Input/output error (os error 5)" ∧
      d.typed = Utf8.encode "hel" ∧ d'.receipt.outcome = .typed ∧
      d.typed ++ d'.typed = Utf8.encode "helnext\r" := by
  decide +kernel

/-- The Enter key is refused, so the text of one message comes before the next one. -/
theorem failed_delivery_open_line :
    ∃ d, deliver ⟨["q"]⟩ 50 typist "go" ⟨"m1"⟩ none (some [.takes 2, .fails .device])
        { now := 0 } = d ∧
      d.receipt.outcome = .failed "failed to write to PTY: Input/output error (os error 5)" ∧
      d.typed = Utf8.encode "go" ∧ d.typed ≠ Utf8.encode "go" ++ [enter] ∧
      ∀ message' id' health' st' d',
        deliver ⟨["q"]⟩ 50 typist message' id' health' d.terminal st' = d' →
        d'.receipt.outcome = .typed → d.typed ++ d'.typed ≠ Utf8.encode message' ++ [enter] := by
  obtain ⟨d, hd⟩ : ∃ d, deliverOn none ⟨["q"]⟩ 50 typist "go" ⟨"m1"⟩ none
      (some [.takes 2, .fails .device]) { now := 0 } = d := ⟨_, rfl⟩
  have hf : d.receipt.outcome =
      .failed "failed to write to PTY: Input/output error (os error 5)" := by
    rw [← hd]
    decide +kernel
  have htyped : d.typed = Utf8.encode "go" := by
    rw [← hd]
    decide +kernel
  obtain ⟨-, -, -, hleft⟩ := failed_delivery hd hf
  obtain ⟨_, _, -, -, -, hproper, -, hnext⟩ := hleft _ rfl
  refine ⟨d, hd, hf, htyped, hproper, fun message' id' health' st' d' hd' ht heq => ?_⟩
  have hnil := (hnext none message' id' health' st' d' hd' ht).mp heq
  rw [htyped] at hnil
  exact absurd hnil (by decide +kernel)

end Router

end AgentSupervisor
