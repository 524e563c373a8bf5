import AgentSupervisor.Proofs.InboxQueue
import AgentSupervisor.Proofs.LogRecords
import AgentSupervisor.Proofs.Utf8

/-!
# Logs and their queues

A log whose bytes are text tells a row of records, and with them a queue.

* `Snapshot.ofLog_encodeChars` : reading such a log gives the records of its lines;
* `Snapshot.exists_text`       : a log that can be read is text;
* `Snapshot.ofLog_severed`     : a log that ends inside a character cannot be read;
* `Record.ofLog_append`        : a line at the end adds its record and disturbs no other;
* `Change.apply_encodeChars`   : what each change does to the queue;
* `Snapshot.respond_text`      : what a response does to a log of text.
-/

namespace AgentSupervisor

open Utf8 (encodeChar encodeChars encodeChars_append Severed)

/-! ## Lines -/

namespace Lines

theorem splitFrom_append (current x y : Bytes) :
    splitFrom current (x ++ lineFeed :: y) =
      splitFrom current (x ++ [lineFeed]) ++ splitFrom [] y := by
  induction x generalizing current with
  | nil => rfl
  | cons b x ih =>
    simp only [List.cons_append, splitFrom, ih]
    split <;> rfl

/-- Lines are split the same whatever stands after a line feed. -/
theorem contents_append (x y : Bytes) :
    contents (x ++ lineFeed :: y) = contents (x ++ [lineFeed]) ++ contents y := by
  simp only [contents, split, splitFrom_append [] x y, List.map_append]

theorem splitFrom_of_not_mem {y : Bytes} (h : lineFeed ∉ y) (current : Bytes) :
    splitFrom current y =
      if (current.reverse ++ y).isEmpty then [] else [(current.reverse ++ y, false)] := by
  induction y generalizing current with
  | nil => simp [splitFrom]
  | cons b y ih =>
    have hb : b ≠ lineFeed := fun e => h (by simp [e])
    have hy : lineFeed ∉ y := fun e => h (by simp [e])
    simp [splitFrom, hb, ih hy]

theorem contents_line {line : Bytes} (h : lineFeed ∉ line) (rest : Bytes) :
    contents (line ++ lineFeed :: rest) = dropReturn line :: contents rest := by
  rw [contents, split_append_line line rest h]
  rfl

/-- What has no line feed is one line, if anything. -/
theorem contents_of_not_mem {y : Bytes} (h : lineFeed ∉ y) :
    contents y = if y.isEmpty then [] else [y] := by
  rw [contents, split, splitFrom_of_not_mem h]
  cases y <;> rfl

end Lines

/-! ## Text as bytes -/

namespace Utf8

/-- A byte below 0x80 is a character of its own. -/
theorem encodeChar_of_low {c : Char} {b : UInt8} (hb : b ∈ encodeChar c) (hlow : b.toNat < 0x80) :
    encodeChar c = [b] ∧ c.toNat = b.toNat := by
  by_cases h : c.toNat < 0x80
  · rw [encodeChar_ascii h, List.mem_singleton] at hb
    rw [encodeChar_ascii h, hb, toNat_toUInt8 (by omega)]
    exact ⟨rfl, rfl⟩
  · have := high_of_mem_encodeChar (c := c) (by omega) b hb
    omega

/-- The bytes below 0x80 of a text are its characters there. -/
theorem mem_encodeChars_of_low {d : Char} (hlow : d.toNat < 0x80) {cs : List Char} :
    d.toNat.toUInt8 ∈ encodeChars cs ↔ d ∈ cs := by
  constructor
  · intro h
    obtain ⟨c, hc, hb⟩ := List.mem_flatMap.mp h
    have htoNat := toNat_toUInt8 (n := d.toNat) (by omega)
    have hn := (encodeChar_of_low hb (by omega)).2
    rw [htoNat] at hn
    exact Char.toNat_inj.mp hn ▸ hc
  · intro h
    refine List.mem_flatMap.mpr ⟨d, h, ?_⟩
    rw [encodeChar_ascii hlow]
    exact List.mem_singleton_self _

theorem lineFeed_mem_encodeChars {cs : List Char} (h : Lines.lineFeed ∈ encodeChars cs) :
    '\n' ∈ cs :=
  (mem_encodeChars_of_low (by decide)).mp h

/-- The last byte of a text, when it is below 0x80, is its last character. -/
theorem getLast?_encodeChars {cs : List Char} {b : UInt8} (h : (encodeChars cs).getLast? = some b)
    (hlow : b.toNat < 0x80) : ∃ ds c, cs = ds ++ [c] ∧ encodeChar c = [b] ∧ c.toNat = b.toNat := by
  rcases List.eq_nil_or_concat cs with rfl | ⟨ds, c, rfl⟩
  · cases h
  · rw [List.concat_eq_append] at h ⊢
    have hc : encodeChars (ds ++ [c]) = encodeChars ds ++ encodeChar c := by
      rw [encodeChars_append]; simp [encodeChars]
    rw [hc, List.getLast?_append_of_ne_nil _ (encodeChar_ne_nil c)] at h
    have hb : b ∈ encodeChar c := List.mem_of_getLast? h
    exact ⟨ds, c, rfl, encodeChar_of_low hb hlow⟩

theorem encodeChars_lineFeed : encodeChars ['\n'] = [Lines.lineFeed] := rfl

theorem encodeChars_line (line rest : List Char) :
    encodeChars (line ++ '\n' :: rest) =
      encodeChars line ++ Lines.lineFeed :: encodeChars rest := by
  rw [encodeChars_append]; rfl

end Utf8

/-! ## Records of a text -/

namespace Record

/-- The records that a log of this text tells, one a line. Lines that spell none are passed
    over. -/
def ofLog (text : List Char) : List Record := (text.splitOn '\n').filterMap ofText?

theorem ofLog_of_not_mem {line : List Char} (h : '\n' ∉ line) :
    ofLog line = (ofText? line).toList := by
  rw [ofLog, List.splitOn_eq_singleton h]
  cases hr : ofText? line <;> simp [hr]

theorem ofText?_nil : ofText? [] = none := by
  rw [ofText?, parse?_blank (by simp)]; rfl

theorem ofLog_nil : ofLog [] = [] := by
  rw [ofLog_of_not_mem (by simp), ofText?_nil]; rfl

/-- A line feed parts the records before it from those after it. -/
theorem ofLog_join (a b : List Char) : ofLog (a ++ '\n' :: b) = ofLog a ++ ofLog b := by
  rw [ofLog, List.splitOn_append_cons_self, List.filterMap_append]; rfl

theorem ofLog_lineFeed (a : List Char) : ofLog (a ++ ['\n']) = ofLog a := by
  rw [ofLog_join, ofLog_nil, List.append_nil]

theorem ofLog_text (r : Record) : ofLog r.text = [r] := by
  rw [ofLog_of_not_mem (lineFeed_not_mem_text r), ofText?_text]; rfl

/-- Nothing stands after the last line feed. -/
def Closed (text : List Char) : Prop := text = [] ∨ ∃ t, text = t ++ ['\n']

theorem closed_line (text line : List Char) : Closed (text ++ (line ++ ['\n'])) :=
  .inr ⟨text ++ line, (List.append_assoc ..).symm⟩

/-- What starts on a line of its own adds its records to those before it. It needs a line feed
    before it only when the text ends inside a line. -/
theorem ofLog_start {text : List Char} {feed : Bool} (h : feed = false → Closed text)
    (rest : List Char) :
    ofLog (text ++ ((if feed then ['\n'] else []) ++ rest)) = ofLog text ++ ofLog rest := by
  cases feed with
  | true => rw [if_pos rfl, List.singleton_append, ofLog_join]
  | false =>
    rw [if_neg Bool.false_ne_true, List.nil_append]
    rcases h rfl with rfl | ⟨t, rfl⟩
    · rw [ofLog_nil, List.nil_append, List.nil_append]
    · rw [List.append_assoc, List.singleton_append, ofLog_join, ofLog_lineFeed]

/-- **A line at the end adds its record and disturbs no other.** -/
theorem ofLog_append {text : List Char} {feed : Bool} (h : feed = false → Closed text)
    (r : Record) :
    ofLog (text ++ ((if feed then ['\n'] else []) ++ (r.text ++ ['\n']))) = ofLog text ++ [r] := by
  rw [ofLog_start h, ofLog_lineFeed, ofLog_text]

end Record

namespace Lines

/-- A log that does not end inside a line is closed. -/
theorem closed_of_endsOpen {text : List Char} (h : endsOpen (encodeChars text) = false) :
    Record.Closed text := by
  unfold endsOpen at h
  cases hl : (encodeChars text).getLast? with
  | none =>
    exact .inl (Utf8.encodeChars_eq_nil.mp (List.getLast?_eq_none_iff.mp hl))
  | some b =>
    simp only [hl, decide_eq_false_iff_not, not_not] at h
    subst h
    obtain ⟨t, c, rfl, -, hc⟩ := Utf8.getLast?_encodeChars hl (by decide)
    have : c = '\n' := Char.toNat_inj.mp hc
    exact .inr ⟨t, by rw [this]⟩

/-- A carriage return that belongs to a line's end is no part of its record. -/
theorem dropReturn_encodeChars (line : List Char) :
    ∃ cs, dropReturn (encodeChars line) = encodeChars cs ∧
      Record.ofText? cs = Record.ofText? line := by
  unfold dropReturn
  split
  · rename_i h
    obtain ⟨cs, c, rfl, hb, hc⟩ := Utf8.getLast?_encodeChars h (by decide)
    have : c = '\r' := Char.toNat_inj.mp hc
    subst this
    refine ⟨cs, ?_, (Record.ofText?_append_return cs).symm⟩
    rw [encodeChars_append, show encodeChars ['\r'] = [carriageReturn] from rfl,
      List.dropLast_concat]
  · exact ⟨line, rfl, rfl⟩

/-- A line is text when it is text without its carriage return. -/
theorem exists_text_of_dropReturn {line : Bytes} {cs : List Char}
    (h : dropReturn line = encodeChars cs) : ∃ text, line = encodeChars text := by
  unfold dropReturn at h
  split at h
  · rename_i hlast
    obtain ⟨front, rfl⟩ := List.getLast?_eq_some_iff.mp hlast
    rw [List.dropLast_concat] at h
    exact ⟨cs ++ ['\r'], by rw [h, encodeChars_append]; rfl⟩
  · exact ⟨cs, h⟩

end Lines

/-! ## Reading a log -/

theorem exists_last_line (text : List Char) :
    '\n' ∉ text ∨ ∃ front line, text = front ++ '\n' :: line ∧ '\n' ∉ line := by
  induction text with
  | nil => exact .inl (by simp)
  | cons c text ih =>
    rcases ih with h | ⟨front, line, rfl, h⟩
    · by_cases hc : c = '\n'
      · exact .inr ⟨[], text, by rw [hc]; rfl, h⟩
      · exact .inl (by simp [Ne.symm hc, h])
    · exact .inr ⟨c :: front, line, rfl, h⟩

theorem mapM_of_none_mem {α β : Type} {f : α → Option β} {l : List α} {a : α} (ha : a ∈ l)
    (hf : f a = none) : l.mapM f = none := by
  have h : (l.map f).mapM id = none :=
    Utf8.mapM_id_of_none_mem (hf ▸ List.mem_map_of_mem ha)
  rw [List.mapM_map] at h
  exact h

namespace Snapshot

/-- The lines of a text can all be read, and spell its records. -/
theorem contents_encodeChars (text : List Char) :
    ∃ lines, (Lines.contents (encodeChars text)).mapM Utf8.decode? = some lines ∧
      lines.filterMap Record.ofText? = Record.ofLog text := by
  induction hn : text.length using Nat.strongRecOn generalizing text with
  | ind n ih =>
    by_cases h : '\n' ∈ text
    · obtain ⟨line, rest, rfl, hline⟩ := List.eq_append_cons_of_mem h
      obtain ⟨lines, hlines, hrs⟩ := ih rest.length (by simp at hn; omega) rest rfl
      obtain ⟨cs, hcs, hr⟩ := Lines.dropReturn_encodeChars line
      have hb : Lines.lineFeed ∉ encodeChars line := fun e =>
        hline (Utf8.lineFeed_mem_encodeChars e)
      refine ⟨cs :: lines, ?_, ?_⟩
      · rw [Utf8.encodeChars_line, Lines.contents_line hb, hcs, List.mapM_cons,
          Utf8.decode?_encodeChars, hlines]
        rfl
      · rw [Record.ofLog_join, Record.ofLog_of_not_mem hline, ← hrs, ← hr]
        cases hc : Record.ofText? cs <;> simp [hc]
    · have hb : Lines.lineFeed ∉ encodeChars text := fun e => h (Utf8.lineFeed_mem_encodeChars e)
      rw [Lines.contents_of_not_mem hb, Record.ofLog_of_not_mem h]
      by_cases hnil : text = []
      · subst hnil
        exact ⟨[], rfl, by rw [Record.ofText?_nil]; rfl⟩
      · have he : (encodeChars text).isEmpty = false := by
          rw [List.isEmpty_eq_false_iff, Ne, Utf8.encodeChars_eq_nil]; exact hnil
        refine ⟨[text], ?_, ?_⟩
        · simp [he, Utf8.decode?_encodeChars]
        · cases hr : Record.ofText? text <;> simp [hr]

/-- **Reading a log of text gives the records of its lines.** -/
theorem ofLog_encodeChars (text : List Char) :
    ofLog (encodeChars text) = .ok ((Record.ofLog text).foldl add {}) := by
  obtain ⟨lines, hlines, hrs⟩ := contents_encodeChars text
  have hf : recordOfLine? = Record.ofText? := funext Record.recordOfLine?_eq
  rw [ofLog, hlines]
  show Except.ok (ofLines lines) = _
  rw [ofLines, hf, hrs]

/-- **A log that ends inside a character cannot be read.** -/
theorem ofLog_severed (text : List Char) {bs : Bytes} (h : Severed bs) :
    ofLog (encodeChars text ++ bs) = .error .notUtf8 := by
  have hne : bs ≠ [] := h.1
  have hlf : Lines.lineFeed ∉ bs := fun e => absurd (h.high _ e) (by decide)
  suffices ∃ line, encodeChars line ++ bs ∈ Lines.contents (encodeChars text ++ bs) by
    obtain ⟨line, hmem⟩ := this
    rw [ofLog, mapM_of_none_mem hmem (Utf8.decode?_cut line h.waits)]
  -- the line that is cut is the last one
  have hlast : ∀ {line : List Char}, '\n' ∉ line →
      Lines.contents (encodeChars line ++ bs) = [encodeChars line ++ bs] := by
    intro line hline
    have hb : Lines.lineFeed ∉ encodeChars line ++ bs := by
      rw [List.mem_append, not_or]
      exact ⟨fun e => hline (Utf8.lineFeed_mem_encodeChars e), hlf⟩
    rw [Lines.contents_of_not_mem hb, if_neg (by simp [hne])]
  rcases exists_last_line text with hline | ⟨front, line, rfl, hline⟩
  · exact ⟨text, by rw [hlast hline]; simp⟩
  · refine ⟨line, ?_⟩
    rw [Utf8.encodeChars_line, List.append_assoc, List.cons_append, Lines.contents_append,
      hlast hline]
    simp

theorem exists_text_of_contents {log : Bytes} {lines : List (List Char)}
    (h : (Lines.contents log).mapM Utf8.decode? = some lines) : ∃ text, log = encodeChars text := by
  induction hn : log.length using Nat.strongRecOn generalizing log lines with
  | ind n ih =>
    by_cases hlf : Lines.lineFeed ∈ log
    · obtain ⟨line, rest, rfl, hline⟩ := List.eq_append_cons_of_mem hlf
      rw [Lines.contents_line hline, List.mapM_cons] at h
      obtain ⟨cs, hcs, h⟩ := Option.bind_eq_some_iff.mp h
      obtain ⟨lines', hrest, -⟩ := Option.bind_eq_some_iff.mp h
      obtain ⟨t, rfl⟩ := Lines.exists_text_of_dropReturn (Utf8.eq_encodeChars_of_decode? hcs)
      obtain ⟨rest', rfl⟩ := ih rest.length (by simp at hn; omega) hrest rfl
      exact ⟨t ++ '\n' :: rest', (Utf8.encodeChars_line t rest').symm⟩
    · rw [Lines.contents_of_not_mem hlf] at h
      split at h
      · rename_i hempty
        exact ⟨[], List.isEmpty_iff.mp hempty⟩
      · rw [List.mapM_cons] at h
        obtain ⟨cs, hcs, -⟩ := Option.bind_eq_some_iff.mp h
        exact ⟨cs, Utf8.eq_encodeChars_of_decode? hcs⟩

/-- **A log that can be read is text.** -/
theorem exists_text {log : Bytes} {snapshot : Snapshot}
    (h : ofLog log = .ok snapshot) : ∃ text, log = encodeChars text := by
  unfold ofLog at h
  split at h
  · rename_i hlines
    exact exists_text_of_contents hlines
  · cases h

end Snapshot

/-! ## Queues of logs -/

/-- The queue that a log of this text tells. -/
def Queue.ofLog (text : List Char) : Queue := Queue.ofRecords (Record.ofLog text)

theorem Queue.ofLog_append {text : List Char} {feed : Bool} (h : feed = false → Record.Closed text)
    (r : Record) :
    Queue.ofLog (text ++ ((if feed then ['\n'] else []) ++ (r.text ++ ['\n']))) =
      (Queue.ofLog text).add r := by
  rw [Queue.ofLog, Record.ofLog_append h, Queue.ofRecords_concat]
  rfl

/-- Reading a log of text never fails, and shows its queue. -/
theorem Snapshot.ofLog_toQueue (text : List Char) :
    ∃ s, Snapshot.ofLog (encodeChars text) = .ok s ∧ s.toQueue = Queue.ofLog text :=
  ⟨_, Snapshot.ofLog_encodeChars text, Snapshot.toQueue_foldl _⟩

namespace Change

theorem line_eq (r : Record) : line r = encodeChars (r.text ++ ['\n']) := by
  rw [line, encodeChars_append]; rfl

/-- What is written for one more record is text. -/
theorem feed_line_eq (feed : Bool) (r : Record) :
    (if feed then [Lines.lineFeed] else []) ++ line r =
      encodeChars ((if feed then ['\n'] else []) ++ (r.text ++ ['\n'])) := by
  rw [line_eq]
  cases feed <;> rfl

theorem tail_eq (log : Bytes) (r : Record) :
    tail log r =
      encodeChars ((if Lines.endsOpen log then ['\n'] else []) ++ (r.text ++ ['\n'])) := by
  rw [tail, feed_line_eq]

/-- The text of a log that holds these messages only. -/
def freshText (kept : List Message) : List Char :=
  kept.flatMap fun m => (Record.message m).text ++ ['\n']

theorem fresh_eq (kept : List Message) : fresh kept = encodeChars (freshText kept) := by
  induction kept with
  | nil => rfl
  | cons m kept ih =>
    rw [freshText, List.flatMap_cons, encodeChars_append, ← line_eq, ← freshText, ← ih]
    rfl

theorem ofLog_freshText (kept : List Message) :
    Record.ofLog (freshText kept) = kept.map .message := by
  induction kept with
  | nil => exact Record.ofLog_nil
  | cons m kept ih =>
    rw [freshText, List.flatMap_cons, ← freshText, List.append_assoc, List.singleton_append,
      Record.ofLog_join, Record.ofLog_text, ih]
    rfl

theorem closed_freshText (kept : List Message) : Record.Closed (freshText kept) := by
  rcases List.eq_nil_or_concat kept with rfl | ⟨front, m, rfl⟩
  · exact .inl rfl
  · rw [freshText, List.concat_eq_append, List.flatMap_append, List.flatMap_singleton]
    exact Record.closed_line _ _

/-- A change that writes a new log writes each identity once. -/
def Tidy : Change → Prop
  | .replace kept => (kept.map Message.id).Nodup
  | _ => True

theorem ofLog_replace (q : Queue) {kept : List Message} (h : Tidy (.replace kept)) :
    Queue.ofLog (freshText kept) = q.after (.replace kept) := by
  rw [Queue.ofLog, ofLog_freshText, Queue.ofRecords_messages h]
  rfl

/-- **What each change does to the queue.** A log of text stays text. -/
theorem apply_encodeChars (text : List Char) {c : Change} (h : c.Tidy) :
    ∃ text', c.apply (encodeChars text) = encodeChars text' ∧
      Queue.ofLog text' = (Queue.ofLog text).after c := by
  cases c with
  | keep => exact ⟨text, rfl, rfl⟩
  | append r =>
    refine ⟨_, ?_, Queue.ofLog_append (fun e => Lines.closed_of_endsOpen e) r⟩
    rw [encodeChars_append, ← tail_eq]
    rfl
  | replace kept =>
    exact ⟨freshText kept, fresh_eq kept, ofLog_replace _ h⟩

end Change

namespace Snapshot

theorem toQueue_of_ofLog {text : List Char} {snapshot : Snapshot}
    (h : ofLog (encodeChars text) = .ok snapshot) : snapshot.toQueue = Queue.ofLog text := by
  obtain ⟨_, h', hq⟩ := ofLog_toQueue text
  obtain rfl := Except.ok.inj (h.symm.trans h')
  exact hq

theorem respond_tidy {text : List Char} {snapshot : Snapshot}
    (h : ofLog (encodeChars text) = .ok snapshot) (now : UInt64) (call : InboxCall) :
    (snapshot.respond now call).2.Tidy := by
  have hnodup : (snapshot.messages.map Message.id).Nodup := by
    have := Queue.ids_ofRecords_nodup (Record.ofLog text)
    rwa [← Queue.ofLog, ← toQueue_of_ofLog h] at this
  cases hc : (snapshot.respond now call).2 with
  | keep => trivial
  | append r => trivial
  | replace kept => exact respond_replace hnodup hc

/-- A response to a log of text leaves a log of text, whose queue is the one after the answer.
    Nothing is written when the queue stays as it is. -/
theorem respond_text {text : List Char} {snapshot : Snapshot}
    (h : ofLog (encodeChars text) = .ok snapshot) (now : UInt64) (call : InboxCall) :
    ∃ text', (snapshot.respond now call).2.apply (encodeChars text) = encodeChars text' ∧
      ((snapshot.respond now call).1, Queue.ofLog text') =
        (Queue.ofLog text).answer now.toNat call ∧
      (Queue.ofLog text' = Queue.ofLog text → text' = text) := by
  have hq := toQueue_of_ofLog h
  have hr := respond_refines snapshot now call
  rw [hq] at hr
  by_cases hc : (snapshot.respond now call).2 = .keep
  · rw [hc] at hr ⊢
    exact ⟨text, rfl, hr, fun _ => rfl⟩
  · obtain ⟨text', htext', hq'⟩ := Change.apply_encodeChars text (respond_tidy h now call)
    refine ⟨text', htext', by rw [hq']; exact hr, fun hsame => ?_⟩
    refine absurd (respond_keep ?_) hc
    rw [hq, ← hq', hsame]

end Snapshot

end AgentSupervisor
