import AgentSupervisor.Proofs.JsonShapes
import AgentSupervisor.Proofs.Utf8
import AgentSupervisor.Supervisor.Connection

/-!
# Requests and responses on the wire

Every request and every response is written as one line, which is read back as what was written.

* `Request.codec`, `Response.codec`             : the readers read what the writers write;
* `Wire.round_trips`                            : the same for lines of text;
* `Wire.answerLine_line`, `Wire.ofLine_line`    : what is sent arrives.
-/

namespace AgentSupervisor

open Json (Codec fields?_object tagged?_tag)

theorem MessageId.codec : Codec toJson ofJson? 0 := ⟨fun _ => rfl, fun _ => Json.fits_string 0 _⟩

theorem InboxId.codec : Codec toJson ofJson? 0 := ⟨fun _ => rfl, fun _ => Json.fits_string 0 _⟩

theorem DeliveryMode.codec (inner : Bool) : Codec toJson (ofJson? inner) 0 :=
  Json.codec_word (fun m => by cases m <;> rfl) inner

theorem SessionState.codec (inner : Bool) : Codec toJson (ofJson? inner) 0 :=
  Json.codec_word (fun s => by cases s <;> rfl) inner

theorem Health.codec : Codec toJson ofJson? 1 := by
  constructor
  · intro h
    cases h with
    | alive pid =>
      simp [toJson, ofJson?, Json.codec_uint32.reads]
    | unknown => rfl
    | crashed => rfl
  · intro h
    cases h <;> simp [toJson, Json.fits_tag, Json.codec_uint32.fits]

theorem MessageId.codec_option : Codec (Json.ofOption toJson) (Json.nullable ofJson?) 0 :=
  MessageId.codec.nullable fun _ h => by cases h

theorem Request.codec_option : Codec (Json.ofOption int32Json) (Json.nullable Json.int32?) 0 :=
  Json.codec_int32.nullable fun _ h => by cases h

theorem SessionInfo.codec (inner : Bool) : Codec toJson (ofJson? inner) 2 := by
  constructor
  · intro s
    simp [toJson, ofJson?, (DeliveryMode.codec inner).reads, (SessionState.codec inner).reads,
      Health.codec.reads, InboxId.codec.reads, Json.codec_string.reads, Json.codec_uint32.reads,
      Json.codec_uint64.reads, Request.codec_option.reads]
  · intro s
    simp [toJson, Json.fits_object, (DeliveryMode.codec inner).fits_le,
      (SessionState.codec inner).fits_le, Health.codec.fits_le, InboxId.codec.fits_le,
      Json.codec_string.fits_le, Json.codec_uint32.fits_le, Json.codec_uint64.fits_le,
      Request.codec_option.fits_le]

theorem Outcome.reads (o : Outcome) : ofJson? (.object o.members) = some o := by
  cases o with
  | queued id =>
    show ofJson? (Json.tag "outcome" "queued" [("message_id", id.toJson)]) = _
    simp [ofJson?, MessageId.codec.reads]
  | typed => rfl
  | failed reason =>
    show ofJson? (Json.tag "outcome" "failed" [("reason", .string reason)]) = _
    simp [ofJson?, Json.codec_string.reads]

theorem Outcome.keys (o : Outcome) :
    "session" ∉ o.members.map Prod.fst ∧ "mode" ∉ o.members.map Prod.fst := by
  cases o <;> simp [members]

theorem Outcome.fits (o : Outcome) (d : Nat) : ∀ m ∈ o.members, Json.Fits d m.2 := by
  cases o <;> simp [members, Json.codec_string.fits_le, MessageId.codec.fits_le]

/-- The fields of the outcome share the object of the receipt, under names of their own. -/
theorem Receipt.codec (inner : Bool) : Codec toJson (ofJson? inner) 1 := by
  constructor
  · intro r
    obtain ⟨hs, hm⟩ := r.outcome.keys
    have hsession : Json.member? "session" ([("session", .string r.session),
        ("mode", r.mode.toJson)] ++ r.outcome.members) = some (some (.string r.session)) :=
      Json.member?_cons _ (by simpa using hs)
    have hmode : Json.member? "mode" ([("session", .string r.session),
        ("mode", r.mode.toJson)] ++ r.outcome.members) = some (some r.mode.toJson) :=
      (Json.member?_cons_of_ne _ _ (by decide)).trans (Json.member?_cons _ hm)
    have hrest : ([("session", Json.string r.session), ("mode", r.mode.toJson)] ++
        r.outcome.members).filter (fun m => m.1 != "session" && m.1 != "mode") =
          r.outcome.members := by
      rw [← List.filter_filter, List.filter_append, List.filter_append, (Json.filter_key hm).2,
        (Json.filter_key hs).2]
      rfl
    rw [toJson, ofJson?, hsession, hmode, hrest]
    simp [Json.codec_string.reads, (DeliveryMode.codec inner).reads, r.outcome.reads]
  · intro r
    simp only [toJson, Json.fits_object, List.mem_append]
    rintro m (hm | hm)
    · rcases List.mem_cons.mp hm with rfl | hm
      · exact Json.fits_string 0 _
      · rw [List.mem_singleton.mp hm]
        exact (DeliveryMode.codec inner).fits r.mode
    · exact r.outcome.fits 0 m hm

theorem Request.codec : Codec toJson ofJson? 1 := by
  constructor
  · intro r
    cases r with
    | ping => rfl
    | list => rfl
    | shutdown => rfl
    | spawn w =>
      simp [toJson, ofJson?, spawnOfJson?, (DeliveryMode.codec true).reads,
        Json.codec_string_option.reads, Json.codec_uint16.reads]
    | status name => simp [toJson, ofJson?, nameOfJson?, Json.codec_string.reads]
    | remove name => simp [toJson, ofJson?, nameOfJson?, Json.codec_string.reads]
    | inject name message id =>
      simp [toJson, ofJson?, Json.codec_string.reads, MessageId.codec_option.reads]
    | kill name signal =>
      simp [toJson, ofJson?, int32Json, Json.codec_string.reads, Json.codec_int32.reads]
    | tail name lines =>
      simp [toJson, ofJson?, Json.codec_string.reads, Json.codec_uint64.reads]
  · intro r
    cases r <;> simp [toJson, Json.fits_tag, int32Json, Json.codec_string.fits_le,
      Json.codec_string_option.fits_le, MessageId.codec_option.fits_le,
      (DeliveryMode.codec true).fits_le, Json.codec_uint16.fits_le, Json.codec_uint64.fits_le,
      Json.codec_int32.fits_le]

theorem Response.codec : Codec toJson ofJson? 4 := by
  constructor
  · intro r
    cases r with
    | ok => rfl
    | pong => rfl
    | spawned name pid agent mode =>
      simp [toJson, ofJson?, Json.codec_string.reads, Json.codec_uint32.reads,
        (DeliveryMode.codec true).reads]
    | sessions all => simp [toJson, ofJson?, (SessionInfo.codec true).list.reads]
    | status name health attempts exitCode =>
      simp [toJson, ofJson?, Json.codec_string.reads, Json.codec_uint32.reads, Health.codec.reads,
        Request.codec_option.reads]
    | receipt r => simp [toJson, ofJson?, (Receipt.codec true).reads]
    | output data => simp [toJson, ofJson?, Json.codec_string.reads]
    | error message => simp [toJson, ofJson?, Json.codec_string.reads]
  · intro r
    cases r <;> simp [toJson, Json.fits_tag, Json.codec_string.fits_le, Json.codec_uint32.fits_le,
      (DeliveryMode.codec true).fits_le, (SessionInfo.codec true).list.fits_le,
      Health.codec.fits_le, Request.codec_option.fits_le, (Receipt.codec true).fits_le]

/-! ## Lines -/

theorem Request.text_line (r : Request) :
    '\n' ∉ r.text ∧ ofText? r.text = some r ∧ ofText? (r.text ++ ['\n']) = some r :=
  Request.codec.line (by decide) r

theorem Response.text_line (r : Response) :
    '\n' ∉ r.text ∧ ofText? r.text = some r ∧ ofText? (r.text ++ ['\n']) = some r :=
  Response.codec.line (by decide) r

namespace Wire

/-- **Requests and responses round-trip.** Each is written as a text without a line feed, which
    spells it when a line feed follows. A text that spells a request may be written anew. -/
theorem round_trips :
    (∀ r : Request, '\n' ∉ r.text ∧ Request.ofText? (r.text ++ ['\n']) = some r) ∧
    (∀ r : Response, '\n' ∉ r.text ∧ Response.ofText? (r.text ++ ['\n']) = some r) ∧
    ∀ cs, ((Request.ofText? cs).map Request.text).bind Request.ofText? = Request.ofText? cs := by
  refine ⟨fun r => ⟨r.text_line.1, r.text_line.2.2⟩, fun r => ⟨r.text_line.1, r.text_line.2.2⟩, ?_⟩
  intro cs
  cases Request.ofText? cs with
  | none => rfl
  | some r => exact r.text_line.2.1

/-! ## Bytes -/

theorem decode?_line (cs : List Char) :
    Utf8.decode? (Utf8.encodeChars cs ++ [Lines.lineFeed]) = some (cs ++ ['\n']) := by
  have hfeed : Utf8.encodeChars ['\n'] = [Lines.lineFeed] := rfl
  rw [← hfeed, ← Utf8.encodeChars_append, Utf8.decode?_encodeChars]

/-- **The line of a request reaches the supervisor as that request**, whatever its state. -/
theorem answerLine_line (s : Supervisor) (draw : Draw) (h : Host) (r : Request) :
    Connection.answerLine s draw h (Client.line r) = Connection.answer s draw h r := by
  rw [Connection.answerLine, Client.line, decode?_line]
  simp only
  rw [r.text_line.2.2]

/-- **The line of a response reaches the client as that response.** -/
theorem ofLine_line (r : Response) : Client.ofLine (Connection.line r) = .ok r := by
  rw [Client.ofLine, Connection.line, if_neg (by simp), decode?_line]
  simp only
  rw [r.text_line.2.2]

end Wire

end AgentSupervisor
