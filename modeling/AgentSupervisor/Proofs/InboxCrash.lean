import AgentSupervisor.Proofs.InboxStore

/-!
# Appends that are cut short

A crash may leave any first part of what was to be written for one more record.

* `Record.ofLog_torn`           : a part that is text changes nothing, or adds the whole record;
* `Snapshot.ofLog_torn`         : what a log with such a part says, and when nothing can be read;
* `InboxStore.perform_unreadable` : no call is served on a log that cannot be read;
* `InboxStore.torn_append`      : exactly when an inbox survives;
* `InboxStore.torn_character`   : a cut inside a character after which it does not.
-/

namespace AgentSupervisor

open Utf8 (encodeChars encodeChars_append)

/-! ## Parts that are text -/

/-- The bytes for one more record are all there, but for the last line feed at most. -/
def Change.Whole (log : Bytes) (r : Record) (part : Bytes) : Prop :=
  part = tail log r ∨ part ++ [Lines.lineFeed] = tail log r

instance (log : Bytes) (r : Record) (part : Bytes) : Decidable (Change.Whole log r part) :=
  inferInstanceAs (Decidable (_ ∨ _))

theorem Record.text_ne_nil (r : Record) : r.text ≠ [] := by
  intro h
  have := ofText?_text r
  rw [h, ofText?_nil] at this
  cases this

/-- The first part of a record's line tells the record when at most its line feed is missing. -/
theorem Record.ofLog_part {r : Record} {cs : List Char} (h : cs <+: r.text ++ ['\n']) :
    (cs = r.text ∨ cs = r.text ++ ['\n']) ∧ Record.ofLog cs = [r] ∨
      ¬ (cs = r.text ∨ cs = r.text ++ ['\n']) ∧ Record.ofLog cs = [] := by
  rcases List.prefix_concat_iff.mp h with rfl | ⟨s, hs⟩
  · exact .inl ⟨.inr rfl, by rw [ofLog_lineFeed, ofLog_text]⟩
  · by_cases hnil : s = []
    · rw [hnil, List.append_nil] at hs
      rw [hs]
      exact .inl ⟨.inl rfl, ofLog_text r⟩
    · have hcs : '\n' ∉ cs := fun hmem =>
        lineFeed_not_mem_text r (hs ▸ List.mem_append_left s hmem)
      refine .inr ⟨?_, ?_⟩
      · rintro (rfl | rfl)
        · exact hnil (List.append_right_eq_self.mp hs)
        · exact hcs (by simp)
      · rw [ofLog_of_not_mem hcs, ofText?_cut hs.symm hnil]
        rfl

/-- **A part that is text adds the whole record or changes nothing.** -/
theorem Record.ofLog_torn {text cs : List Char} {r : Record}
    (h : encodeChars cs <+: Change.tail (encodeChars text) r) :
    Record.ofLog (text ++ cs) =
      if Change.Whole (encodeChars text) r (encodeChars cs) then Record.ofLog text ++ [r]
      else Record.ofLog text := by
  have hclosed : Lines.endsOpen (encodeChars text) = false → Record.Closed text :=
    Lines.closed_of_endsOpen
  have hwhole : Change.Whole (encodeChars text) r (encodeChars cs) ↔
      cs = (if Lines.endsOpen (encodeChars text) then ['\n'] else []) ++ (r.text ++ ['\n']) ∨
        cs = (if Lines.endsOpen (encodeChars text) then ['\n'] else []) ++ r.text := by
    rw [Change.Whole, Change.tail_eq, ← Utf8.encodeChars_lineFeed, ← encodeChars_append]
    constructor
    · rintro (e | e)
      · exact .inl (Utf8.encodeChars_injective e)
      · right
        have := Utf8.encodeChars_injective e
        rw [← List.append_assoc] at this
        exact List.append_cancel_right this
    · rintro (rfl | rfl)
      · exact .inl rfl
      · exact .inr (by rw [List.append_assoc])
  rw [Change.tail_eq] at h
  generalize Lines.endsOpen (encodeChars text) = feed at h hclosed hwhole
  generalize hf : (if feed then ['\n'] else []) = lead at h hwhole
  have hstart : ∀ rest, Record.ofLog (text ++ (lead ++ rest)) =
      Record.ofLog text ++ Record.ofLog rest := fun rest => hf ▸ Record.ofLog_start hclosed rest
  have hcs := Utf8.prefix_of_encodeChars h
  rcases List.prefix_or_prefix_of_prefix hcs (List.prefix_append lead _) with hshort | ⟨d, rfl⟩
  · -- not even one character of the record
    have hnot : ¬ Change.Whole (encodeChars text) r (encodeChars cs) := by
      rw [hwhole]
      have hlen := hshort.length_le
      have hpos := List.length_pos_iff.mpr (Record.text_ne_nil r)
      rintro (rfl | rfl) <;> simp only [List.length_append] at hlen <;> omega
    have hlead : cs = [] ∨ cs = ['\n'] := by
      subst hf
      cases feed with
      | true => simpa [List.prefix_cons_iff] using hshort
      | false => exact .inl (by simpa using hshort)
    rw [if_neg hnot]
    rcases hlead with rfl | rfl
    · rw [List.append_nil]
    · rw [Record.ofLog_lineFeed]
  · have hd : (lead ++ d = lead ++ (r.text ++ ['\n']) ∨ lead ++ d = lead ++ r.text) ↔
        (d = r.text ∨ d = r.text ++ ['\n']) := by
      rw [List.append_right_inj, List.append_right_inj]
      exact or_comm
    rw [hd] at hwhole
    rcases Record.ofLog_part ((List.prefix_append_right_inj lead).mp hcs) with
      ⟨hall, hone⟩ | ⟨hnot, hnone⟩
    · rw [if_pos (hwhole.mpr hall), hstart, hone]
    · rw [if_neg (fun e => hnot (hwhole.mp e)), hstart, hnone, List.append_nil]

theorem Queue.ofLog_torn {text cs : List Char} {r : Record}
    (h : encodeChars cs <+: Change.tail (encodeChars text) r) :
    Queue.ofLog (text ++ cs) =
      if Change.Whole (encodeChars text) r (encodeChars cs) then (Queue.ofLog text).add r
      else Queue.ofLog text := by
  rw [Queue.ofLog, Record.ofLog_torn h]
  split
  · rw [Queue.ofRecords_concat]
    rfl
  · rfl

/-- **What a log with a part at its end says.** A part that is cut between two characters leaves
    it as it was, or as it is with the whole record; after one that is cut inside a character it
    cannot be read. -/
theorem Snapshot.ofLog_torn {text : List Char} {r : Record} {part : Bytes}
    (h : part <+: Change.tail (encodeChars text) r) :
    (∀ cs, part = encodeChars cs → ofLog (encodeChars text ++ part) =
      if Change.Whole (encodeChars text) r part then
        ofLog (encodeChars text ++ Change.tail (encodeChars text) r)
      else ofLog (encodeChars text)) ∧
    ((∀ cs, part ≠ encodeChars cs) → ofLog (encodeChars text ++ part) = .error .notUtf8) := by
  constructor
  · rintro cs rfl
    rw [← encodeChars_append, ofLog_encodeChars, Record.ofLog_torn h]
    split
    · rw [Change.tail_eq, ← encodeChars_append, ofLog_encodeChars,
        Record.ofLog_append Lines.closed_of_endsOpen]
    · rw [ofLog_encodeChars]
  · intro hcut
    rw [Change.tail_eq] at h
    rcases Utf8.cut_cases h with ⟨ds, -, rfl⟩ | ⟨ds, bs, hb, rfl⟩
    · exact absurd rfl (hcut ds)
    · rw [← List.append_assoc, ← encodeChars_append]
      exact ofLog_severed (text ++ ds) hb

/-- A message of a fresh identity waits once it is enqueued. -/
theorem Queue.pending_enqueue {q : Queue} {m : Message} (hk : ¬ q.Knows m.id)
    (ha : m.id ∉ q.acked) : (q.enqueue m).pending = q.pending ++ [m] := by
  rw [enqueue, if_neg hk, pending, List.filter_append]
  simp [pending, ha]

namespace InboxStore

variable {s : InboxStore} {st : Storage} {inbox : InboxId} {log : Bytes} {text : List Char}

/-! ## Logs that cannot be read -/

/-- **No call is served on a log that cannot be read**, and the log stays. -/
theorem perform_unreadable (h : s.Holds st.disk inbox log) {e : IoError}
    (hread : Snapshot.ofLog log = .error e) {call : InboxCall} (hon : call.On inbox) :
    s.Holds (s.perform inbox st call).2.disk inbox log ∧
      ¬ Served (s.perform inbox st call).1 ∧
      (Short inbox → s.Unlocked inbox (mode call) st →
        (s.perform inbox st call).1 = .error (.io e)) := by
  obtain ⟨log', hlog', hmeets⟩ := perform_meets h call hon
  generalize s.perform inbox st call = r at hlog' hmeets
  cases hmeets with
  | tooLong e' st' hlong => exact ⟨hlog', id, fun hs _ => absurd hs hlong⟩
  | locked st' hlocked => exact ⟨hlog', id, fun _ hu => absurd hu hlocked⟩
  | unreadable e' st' hread' =>
    cases hread.symm.trans hread'
    exact ⟨hlog', id, fun _ _ => rfl⟩
  | answered snapshot st' hread' => cases hread.symm.trans hread'

/-! ## After a crash -/

/-- **Exactly when an inbox survives a crash.** Let any first part of what was to be written for
    one more record have reached the log. When it is cut between two characters, the inbox is as
    before, or as after the whole record when at most the last line feed is missing, and takes a
    message of a fresh identity. When it is cut inside a character, nothing is served any more. -/
theorem torn_append {r : Record} {part : Bytes}
    (h : s.Holds st.disk inbox (encodeChars text ++ part))
    (hpart : part <+: Change.tail (encodeChars text) r) :
    (∀ cs, part = encodeChars cs →
      ∃ q, q = (if Change.Whole (encodeChars text) r part then (Queue.ofLog text).add r
          else Queue.ofLog text) ∧
        (Served (s.poll inbox st).1 → (s.poll inbox st).1 = .ok q.pending) ∧
        (∀ m : Message, m.inbox = inbox → ¬ q.Knows m.id → m.id ∉ q.acked →
          Served (s.enqueue m st).1 →
          (s.enqueue m st).1 = .ok m.id ∧
            ∃ text', s.Holds (s.enqueue m st).2.disk inbox (encodeChars text') ∧
              (Queue.ofLog text').pending = q.pending ++ [m]) ∧
        (Short inbox → (∀ mode, s.Unlocked inbox mode st) →
          ∀ call : InboxCall, call.On inbox → ∃ a, (s.perform inbox st call).1 = .ok a)) ∧
    ((∀ cs, part ≠ encodeChars cs) → ∀ call : InboxCall, call.On inbox →
      s.Holds (s.perform inbox st call).2.disk inbox (encodeChars text ++ part) ∧
        ¬ Served (s.perform inbox st call).1 ∧
        (Short inbox → s.Unlocked inbox (mode call) st →
          (s.perform inbox st call).1 = .error (.io .notUtf8))) := by
  constructor
  · rintro cs rfl
    rw [← encodeChars_append] at h
    refine ⟨_, Queue.ofLog_torn hpart, fun hserved => (poll_refines h hserved).1, ?_,
      fun hs hu call hon => perform_answers h hs hu call hon⟩
    intro m hm hk ha hserved
    obtain ⟨hid, text', hlog', hq, -⟩ := enqueue_refines h hm hserved
    exact ⟨hid, text', hlog', by rw [hq, Queue.pending_enqueue hk ha]⟩
  · intro hcut call hon
    exact perform_unreadable h ((Snapshot.ofLog_torn hpart).2 hcut) hon

/-- An inbox in a directory of its own, with a log of these bytes. -/
def alone (log : Bytes) : Storage :=
  { disk := ⟨[(["q"], .directory), (["q", "a.jsonl"], .file log)]⟩, now := 0 }

/-- A message that waits, and one that is being written. -/
def waiting : Message := ⟨⟨"m1"⟩, ⟨"a"⟩, "x", 1000, none⟩

/-- A message with a character of two bytes. -/
def accented : Message := ⟨⟨"m2"⟩, ⟨"a"⟩, "\u00e9", 1000, none⟩

/-- A cut inside a character after which the waiting message can be polled no more. -/
theorem torn_character :
    let log := Change.line (.message waiting)
    let part := (Change.tail log (.message accented)).take 52
    ((⟨["q"]⟩ : InboxStore).poll ⟨"a"⟩ (alone log)).1 = .ok [waiting] ∧
      ((⟨["q"]⟩ : InboxStore).poll ⟨"a"⟩ (alone (log ++ part))).1 = .error (.io .notUtf8) := by
  decide +kernel

theorem alone_holds (log : Bytes) : (⟨["q"]⟩ : InboxStore).Holds (alone log).disk ⟨"a"⟩ log :=
  ⟨rfl, .inl rfl, .inl rfl, .inr ⟨_, rfl⟩, rfl⟩

theorem alone_unlocked (log : Bytes) (mode : LockMode) :
    (⟨["q"]⟩ : InboxStore).Unlocked ⟨"a"⟩ mode (alone log) := Option.some_ne_none 0

/-- Cut one byte earlier the inbox survives; cut inside the character it does not. -/
theorem torn_append_accented :
    let text := (Record.message waiting).text ++ ['\n']
    let tail := Change.tail (encodeChars text) (.message accented)
    ((⟨["q"]⟩ : InboxStore).poll ⟨"a"⟩ (alone (encodeChars text ++ tail.take 51))).1 =
        .ok [waiting] ∧
      ((⟨["q"]⟩ : InboxStore).perform ⟨"a"⟩ (alone (encodeChars text ++ tail.take 52))
        .poll).1 = .error (.io .notUtf8) := by
  intro text tail
  have hs : Short ⟨"a"⟩ := by unfold Short; decide +kernel
  constructor
  · have hpart : tail.take 51 = encodeChars
        "\x7b\"kind\":\"message\",\"id\":\"m2\",\"inbox\":\"a\",\"payload\":\"".toList := by
      decide +kernel
    obtain ⟨q, hq, hpoll, -, hserved⟩ :=
      (torn_append (alone_holds _) (List.take_prefix 51 tail)).1 _ hpart
    obtain ⟨a, ha⟩ := hserved hs (alone_unlocked _) .poll trivial
    rw [hpoll (served_of_map ha), hq]
    decide +kernel
  · have hcut : ∀ cs, tail.take 52 ≠ encodeChars cs := by
      intro cs e
      have hnone : Utf8.decode? (tail.take 52) = none := by decide +kernel
      rw [e, Utf8.decode?_encodeChars] at hnone
      cases hnone
    obtain ⟨-, -, herr⟩ :=
      (torn_append (alone_holds _) (List.take_prefix 52 tail)).2 hcut .poll trivial
    exact herr hs (alone_unlocked _ _)

end InboxStore

end AgentSupervisor
