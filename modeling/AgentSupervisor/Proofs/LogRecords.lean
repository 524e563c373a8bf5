import AgentSupervisor.Inbox.Log
import AgentSupervisor.Proofs.JsonShapes

/-!
# Records of a log and their lines

* `ofText?_text`        : the line of a record spells it;
* `ofText?_cut`         : no shorter part of that line spells anything;
* `recordOfLine?_eq`    : the test for blank lines changes nothing;
* `ofText?_append_return` : nor does a carriage return at the end of a line.
-/

namespace AgentSupervisor.Record

open AgentSupervisor.Json (Fits IsNumber Stops)

/-! ## Writing and reading -/

theorem ofJson?_toJson (r : Record) : ofJson? r.toJson = some r := by
  cases r with
  | message m =>
    obtain ⟨⟨id⟩, ⟨inbox⟩, payload, at_, sender⟩ := m
    cases sender <;>
      simp [toJson, ofJson?, Json.tag, Json.tagged?, Json.member?, Message.members, Message.ofJson?,
        Json.fields?, Json.required, Json.orElse, Json.nullable, MessageId.toJson, MessageId.ofJson?,
        InboxId.toJson, InboxId.ofJson?, Json.string?, Json.codec_uint64.reads]
  | ack id at_ =>
    obtain ⟨id⟩ := id
    simp [toJson, ofJson?, Json.tag, Json.tagged?, Json.member?, Json.fields?, Json.required,
      MessageId.toJson, MessageId.ofJson?, Json.string?, Json.codec_uint64.reads]

theorem fits_toJson (r : Record) : Fits Json.maxDepth r.toJson := by
  cases r with
  | message m =>
    obtain ⟨id, inbox, payload, at_, sender⟩ := m
    cases sender <;>
      simp [toJson, Json.maxDepth, Json.fits_tag, Message.members, MessageId.toJson, InboxId.toJson,
        Json.fits_string, Json.codec_uint64.fits_le]
  | ack id at_ =>
    simp [toJson, Json.maxDepth, Json.fits_tag, MessageId.toJson, Json.fits_string,
      Json.codec_uint64.fits_le]

theorem codec : Json.Codec toJson ofJson? Json.maxDepth := ⟨ofJson?_toJson, fits_toJson⟩

/-- **The line of a record spells it.** -/
theorem ofText?_text (r : Record) : ofText? r.text = some r := (codec.line le_rfl r).2.1

/-- The line of a record is one line. -/
theorem lineFeed_not_mem_text (r : Record) : '\n' ∉ r.text := (codec.line le_rfl r).1

/-! ## Lines that are cut short -/

theorem ofJson?_of_isNumber {j : Json} (h : IsNumber j) : ofJson? j = none := by
  cases j <;> first | exact absurd h id | rfl

/-- **A record's line that is cut short spells nothing.** -/
theorem ofText?_cut {r : Record} {cs s : List Char} (h : r.text = cs ++ s) (hs : s ≠ []) :
    ofText? cs = none := by
  have hr : Json.parse? (cs ++ s) = some r.toJson := by
    rw [← h]; exact Json.parse?_render (fits_toJson r)
  have hend : ∃ c ∈ s, Json.isBlank c = false := by
    obtain ⟨v, c, hv, hc⟩ := Json.endsTight_render (fits_toJson r)
    rcases List.eq_nil_or_concat s with rfl | ⟨t, d, rfl⟩
    · exact absurd rfl hs
    · rw [List.concat_eq_append, ← List.append_assoc] at h
      have hd := (List.append_inj' (h.symm.trans hv) rfl).2
      cases hd
      exact ⟨c, by simp, hc⟩
  rw [ofText?]
  cases hp : Json.parse? cs with
  | none => rfl
  | some j => exact ofJson?_of_isNumber (Json.isNumber_of_cut hr hend hp)

/-! ## Blanks -/

theorem ofText?_append_return (cs : List Char) : ofText? (cs ++ ['\r']) = ofText? cs := by
  rw [ofText?, ofText?, Json.parse?_append_blank (by decide)]

theorem opensNumber_of_blank {c : Char} (h : Text.isBlank c = true) :
    Json.opensNumber c = false := by
  cases ho : Json.opensNumber c with
  | false => rfl
  | true =>
    exfalso
    rcases Bool.or_eq_true_iff.mp ho with e | e
    · rw [beq_iff_eq.mp e] at h; exact absurd h (by decide)
    · simp only [Text.isDigit, Bool.and_eq_true, decide_eq_true_eq] at e
      have h0 : 48 ≤ c.toNat := e.1
      have h9 : c.toNat ≤ 57 := e.2
      simp only [Text.isBlank, Bool.or_eq_true, Bool.and_eq_true, decide_eq_true_eq,
        beq_iff_eq] at h
      omega

/-- A blank text spells no value. -/
theorem parse?_blank {cs : List Char} (h : ∀ c ∈ cs, Text.isBlank c = true) :
    Json.parse? cs = none := by
  have ht : ∀ c ∈ Json.skipBlanks cs, Text.isBlank c = true := fun c hc =>
    h c ((List.dropWhile_suffix _).subset hc)
  rw [Json.parse?, Json.value]
  generalize Json.skipBlanks cs = t at ht
  cases t with
  | nil => rfl
  | cons c t =>
    have hc := ht c (by simp)
    have hn : Json.number (c :: t) = none := Json.number_of_not_opens (opensNumber_of_blank hc)
    split
    · rename_i j r e
      split at e
      case h_7 => rw [hn] at e; cases e
      all_goals
        rename_i hm
        cases hm
        exact absurd hc (by decide)
    · rfl

/-- The test for blank lines changes nothing: a blank line spells no record. -/
theorem recordOfLine?_eq (cs : List Char) : Snapshot.recordOfLine? cs = ofText? cs := by
  unfold Snapshot.recordOfLine?
  split
  · rename_i h
    rw [ofText?, parse?_blank (List.all_eq_true.mp h)]; rfl
  · rfl

end AgentSupervisor.Record
