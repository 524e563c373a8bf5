import AgentSupervisor.Proofs.WireRoundtrip

/-!
# Spellings of a request

A client may write the members of a request in any order, leave out those that say what holds
anyway, and add members of other names.

* `Request.Writes`, `Request.Breaks` : the objects that spell a request, and those that spell none
  because of a tag or a field of it;
* `Request.ofText?_object`           : **every text of the former is read as that request, and no
  text of the latter as any.**
-/

namespace AgentSupervisor.Request

open Json (Codec TextOf member?)

/-! ## Members -/

/-- The members of the object that a request is written as. -/
def members (r : Request) : List (String × Json) :=
  match r.toJson with
  | .object ms => ms
  | _ => []

/-- The word in its tag. -/
def type (r : Request) : String :=
  match r.members with
  | (_, .string t) :: _ => t
  | _ => ""

/-- The tag and the names of the fields. -/
def keys (r : Request) : List String := r.members.map Prod.fst

/-- The fields that may be left out, each with the value that it has then. -/
def defaults : Request → List (String × Json)
  | .spawn _ => [("name", .null), ("agent", .null), ("mode", .string "pty"), ("args", .null),
      ("command", .null), ("rows", .integer 24), ("cols", .integer 80)]
  | .inject .. => [("id", .null)]
  | .kill .. => [("signal", .integer 15)]
  | .tail .. => [("lines", .integer 20)]
  | _ => []

theorem keys_nodup (r : Request) : r.keys.Nodup := by
  cases r <;> simp [keys, members, toJson, Json.tag]

theorem tag_mem_members (r : Request) : ("type", .string r.type) ∈ r.members := by
  cases r <;> exact List.mem_cons_self

theorem type_not_mem_fields (r : Request) : "type" ∉ r.keys.tail := by
  cases r <;> simp [keys, members, toJson, Json.tag]

theorem defaults_nodup (r : Request) : (r.defaults.map Prod.fst).Nodup := by
  cases r <;> simp [defaults]

theorem type_not_mem_defaults (r : Request) (j : Json) : ("type", j) ∉ r.defaults := by
  cases r <;> simp [defaults]

/-- The members of a request in any order, some of those left out that say what holds anyway, and
    others beside them that are none of its fields. -/
inductive Writes (r : Request) (ms : List (String × Json)) : Prop where
  | mk {kept left others : List (String × Json)} (hr : r.members.Perm (kept ++ left))
      (hleft : ∀ m ∈ left, m ∈ r.defaults) (hothers : ∀ m ∈ others, m.1 ∉ r.keys)
      (hms : ms.Perm (kept ++ others))

/-- Members that cannot be those of such a request: the tag is left out or given twice, a field is
    given twice, or one is left out that has to be given. -/
inductive Breaks (r : Request) (ms : List (String × Json)) : Prop where
  | tag (h : (ms.map Prod.fst).count "type" ≠ 1)
  | twice {k : String} (ht : ("type", .string r.type) ∈ ms) (hk : k ∈ r.keys)
      (h : 2 ≤ (ms.map Prod.fst).count k)
  | missing {k : String} (ht : ("type", .string r.type) ∈ ms) (hk : k ∈ r.keys)
      (hd : k ∉ r.defaults.map Prod.fst) (h : k ∉ ms.map Prod.fst)

/-! ## What is given for a field -/

section Fields

variable {r : Request} {ms : List (String × Json)}

/-- A member is found as it is, unless it says what holds anyway. -/
theorem Writes.given (h : r.Writes ms) {k : String} {v : Json} (hm : (k, v) ∈ r.members) :
    member? k ms = some (some v) ∨ member? k ms = some none ∧ (k, v) ∈ r.defaults := by
  obtain ⟨hr, hleft, hothers, hms⟩ := h
  rename_i kept left others
  have hk : k ∉ others.map Prod.fst := by
    rintro hk
    obtain ⟨m, hmem, rfl⟩ := List.mem_map.mp hk
    exact hothers m hmem (List.mem_map.mpr ⟨_, hm, rfl⟩)
  have hn : ((kept ++ left).map Prod.fst).Nodup := (hr.map _).nodup_iff.mp r.keys_nodup
  rw [List.map_append, List.nodup_append] at hn
  rw [Json.member?_perm hms, Json.member?_append hk]
  rcases List.mem_append.mp (hr.subset hm) with hm | hm
  · exact .inl (Json.member?_of_mem hn.1 hm)
  · have hkept : k ∉ kept.map Prod.fst := fun hk => hn.2.2 k hk k (List.mem_map_of_mem hm) rfl
    exact .inr ⟨Json.member?_of_not_mem hkept, hleft _ hm⟩

/-- The tag is found wherever it stands. -/
theorem Writes.tagged (h : r.Writes ms) : Json.tagged? "type" (.object ms) =
    some (r.type, .object (ms.filter fun m => m.1 != "type")) := by
  rcases h.given r.tag_mem_members with hg | ⟨-, hd⟩
  · exact Json.tagged?_object hg
  · exact absurd hd (r.type_not_mem_defaults _)

variable {α : Type} {write : α → Json} {read : Json → Option α} {depth : Nat} {k : String} {a : α}

/-- A field that has to be given. -/
theorem Writes.required (h : r.Writes ms) (hc : Codec write read depth)
    (hm : (k, write a) ∈ r.members) (hd : (k, write a) ∉ r.defaults) :
    ∃ given, member? k ms = some given ∧ Json.required read given = some a := by
  rcases h.given hm with hg | ⟨-, hdef⟩
  · exact ⟨_, hg, hc.reads a⟩
  · exact absurd hdef hd

theorem Writes.text (h : r.Writes ms) {s : String} (hm : (k, .string s) ∈ r.members)
    (hk : k ≠ "mode") :
    ∃ given, member? k ms = some given ∧ Json.required Json.string? given = some s := by
  refine h.required Json.codec_string hm ?_
  cases r <;> simp [defaults, hk]

/-- A field that may be left out. -/
theorem Writes.optional (h : r.Writes ms) (hc : Codec write read depth) {d : α}
    (hm : (k, write a) ∈ r.members) (hd : (k, write d) ∈ r.defaults) :
    ∃ given, member? k ms = some given ∧ Json.orElse d read given = some a := by
  rcases h.given hm with hg | ⟨hg, hdef⟩
  · exact ⟨_, hg, hc.reads a⟩
  · have hwrite : some (some (write a)) = some (some (write d)) := by
      rw [← Json.member?_of_mem r.defaults_nodup hdef, Json.member?_of_mem r.defaults_nodup hd]
    have hread := hc.reads a
    rw [Option.some.inj (Option.some.inj hwrite), hc.reads] at hread
    exact ⟨none, hg, hread⟩

end Fields

/-! ## Objects that spell a request -/

theorem spawnOfJson?_of_writes {w : SpawnRequest} {ms : List (String × Json)}
    (h : (spawn w).Writes ms) : spawnOfJson? (.object (ms.filter fun m => m.1 != "type")) = some w := by
  have word : ∀ {k : String} {a : Option String},
      (k, .ofOption .string a) ∈ (spawn w).members → (k, .null) ∈ (spawn w).defaults →
      ∃ given, member? k ms = some given ∧
        Json.orElse none (Json.nullable Json.string?) given = some a :=
    fun hm hd => h.optional Json.codec_string_option hm hd
  have size : ∀ {k : String} {a d : UInt16},
      (k, .ofNat a.toNat) ∈ (spawn w).members → (k, .ofNat d.toNat) ∈ (spawn w).defaults →
      ∃ given, member? k ms = some given ∧ Json.orElse d Json.uint16? given = some a :=
    fun hm hd => h.optional Json.codec_uint16 hm hd
  obtain ⟨_, hname, hname'⟩ := word (k := "name") (a := w.name)
    (by simp [members, toJson, Json.tag]) (by simp [defaults])
  obtain ⟨_, hagent, hagent'⟩ := word (k := "agent") (a := w.agent)
    (by simp [members, toJson, Json.tag]) (by simp [defaults])
  obtain ⟨_, hmode, hmode'⟩ := h.optional (DeliveryMode.codec true) (k := "mode") (a := w.mode)
    (d := .terminal) (by simp [members, toJson, Json.tag])
    (by simp [defaults, DeliveryMode.toJson, DeliveryMode.word])
  obtain ⟨_, hargs, hargs'⟩ := word (k := "args") (a := w.args)
    (by simp [members, toJson, Json.tag]) (by simp [defaults])
  obtain ⟨_, hcommand, hcommand'⟩ := word (k := "command") (a := w.command)
    (by simp [members, toJson, Json.tag]) (by simp [defaults])
  obtain ⟨_, hrows, hrows'⟩ := size (k := "rows") (a := w.rows) (d := 24)
    (by simp [members, toJson, Json.tag]) (by simp [defaults, Json.ofNat])
  obtain ⟨_, hcols, hcols'⟩ := size (k := "cols") (a := w.cols) (d := 80)
    (by simp [members, toJson, Json.tag]) (by simp [defaults, Json.ofNat])
  simp [spawnOfJson?, Json.fields?, hname, hname', hagent, hagent', hmode, hmode', hargs, hargs',
    hcommand, hcommand', hrows, hrows', hcols, hcols']

theorem nameOfJson?_of_writes {r : Request} {n : String} {ms : List (String × Json)}
    (h : r.Writes ms) (hm : ("name", .string n) ∈ r.members) :
    nameOfJson? (.object (ms.filter fun m => m.1 != "type")) = some n := by
  obtain ⟨_, hname, hname'⟩ := h.text hm (by decide)
  simp [nameOfJson?, Json.fields?, hname, hname']

theorem ofJson?_of_writes {r : Request} {ms : List (String × Json)} (h : r.Writes ms) :
    ofJson? (.object ms) = some r := by
  rw [ofJson?, h.tagged]
  cases r with
  | ping => rfl
  | list => rfl
  | shutdown => rfl
  | spawn w => simp [type, members, toJson, Json.tag, spawnOfJson?_of_writes h]
  | status name =>
    have hname := nameOfJson?_of_writes (n := name) h (by simp [members, toJson, Json.tag])
    simp [type, members, toJson, Json.tag, hname]
  | remove name =>
    have hname := nameOfJson?_of_writes (n := name) h (by simp [members, toJson, Json.tag])
    simp [type, members, toJson, Json.tag, hname]
  | inject name message id =>
    obtain ⟨_, hname, hname'⟩ := h.text (k := "name") (s := name)
      (by simp [members, toJson, Json.tag]) (by decide)
    obtain ⟨_, hmessage, hmessage'⟩ := h.text (k := "message") (s := message)
      (by simp [members, toJson, Json.tag]) (by decide)
    obtain ⟨_, hid, hid'⟩ := h.optional MessageId.codec_option (k := "id") (a := id)
      (d := none) (by simp [members, toJson, Json.tag]) (List.mem_singleton.mpr rfl)
    simp [type, members, toJson, Json.tag, Json.fields?, hname, hname', hmessage, hmessage', hid,
      hid']
  | kill name signal =>
    obtain ⟨_, hname, hname'⟩ := h.text (k := "name") (s := name)
      (by simp [members, toJson, Json.tag]) (by decide)
    obtain ⟨_, hsignal, hsignal'⟩ := h.optional Json.codec_int32 (k := "signal") (a := signal)
      (d := Signal.terminate) (by simp [members, toJson, Json.tag, int32Json])
      (List.mem_singleton.mpr rfl)
    simp [type, members, toJson, Json.tag, Json.fields?, hname, hname', hsignal, hsignal']
  | tail name lines =>
    obtain ⟨_, hname, hname'⟩ := h.text (k := "name") (s := name)
      (by simp [members, toJson, Json.tag]) (by decide)
    obtain ⟨_, hlines, hlines'⟩ := h.optional Json.codec_uint64 (k := "lines") (a := lines)
      (d := defaultLines) (by simp [members, toJson, Json.tag]) (List.mem_singleton.mpr rfl)
    simp [type, members, toJson, Json.tag, Json.fields?, hname, hname', hlines, hlines']

/-! ## Objects that spell none -/

/-- The tag has to be given, and once. -/
theorem ofJson?_of_tag {ms : List (String × Json)} (h : (ms.map Prod.fst).count "type" ≠ 1) :
    ofJson? (.object ms) = none := by
  have hnone : Json.tagged? "type" (.object ms) = none := by
    rcases Nat.lt_or_ge ((ms.map Prod.fst).count "type") 2 with hlt | hge
    · have hz : (ms.map Prod.fst).count "type" = 0 := by omega
      rw [Json.tagged?, Json.member?_of_not_mem (List.count_eq_zero.mp hz)]
    · rw [Json.tagged?, Json.member?_twice hge]
  rw [ofJson?, hnone]
  rfl

section Tagged

variable {r : Request} {ms : List (String × Json)}

/-- Without its fields a request cannot be read. -/
theorem ofJson?_of_fields (ht : member? "type" ms = some (some (.string r.type)))
    (hne : r.keys.tail ≠ []) (h : Json.fields? r.keys.tail (.object ms) = none) :
    ofJson? (.object ms) = none := by
  rw [← Json.fields?_untagged ms r.type_not_mem_fields] at h
  rw [ofJson?, Json.tagged?_object ht]
  cases r with
  | ping | list | shutdown => exact absurd rfl hne
  | _ =>
    simp only [keys, members, toJson, Json.tag, List.map_cons, List.map_nil, List.tail_cons] at h
    simp [type, members, toJson, Json.tag, spawnOfJson?, nameOfJson?, h]

/-- A field without a default has to be given. -/
theorem ofJson?_of_missing {k : String} (ht : member? "type" ms = some (some (.string r.type)))
    (hk : k ∈ r.keys.tail) (hd : k ∉ r.defaults.map Prod.fst) (h : member? k ms = some none) :
    ofJson? (.object ms) = none := by
  rw [ofJson?, Json.tagged?_object ht]
  simp only [keys, members, toJson, Json.tag, defaults] at hk hd
  cases r with
  | ping | list | shutdown => cases hk
  | spawn => exact absurd (by simpa using hk) hd
  | status | remove =>
    obtain rfl : k = "name" := by simpa using hk
    simp [type, members, toJson, Json.tag, nameOfJson?, Json.fields?, Json.required, h]
  | kill =>
    obtain rfl : k = "name" := by
      have hk : k = "name" ∨ k = "signal" := by simpa using hk
      exact hk.resolve_right (by simpa using hd)
    cases hsignal : member? "signal" ms <;>
      simp [type, members, toJson, Json.tag, Json.fields?, Json.required, h, hsignal]
  | tail =>
    obtain rfl : k = "name" := by
      have hk : k = "name" ∨ k = "lines" := by simpa using hk
      exact hk.resolve_right (by simpa using hd)
    cases hlines : member? "lines" ms <;>
      simp [type, members, toJson, Json.tag, Json.fields?, Json.required, h, hlines]
  | inject =>
    have hk : k = "name" ∨ k = "message" ∨ k = "id" := by simpa using hk
    have hd : k ≠ "id" := by simpa using hd
    cases hid : member? "id" ms with
    | none =>
      simp [type, members, toJson, Json.tag, Json.fields?, hid]
    | some id =>
      rcases hk with rfl | rfl | rfl
      · cases hmessage : member? "message" ms <;>
          simp [type, members, toJson, Json.tag, Json.fields?, Json.required, h, hid, hmessage]
      · cases hname : member? "name" ms <;>
          simp [type, members, toJson, Json.tag, Json.fields?, Json.required, h, hid, hname]
      · exact absurd rfl hd

theorem ofJson?_of_breaks (h : r.Breaks ms) : ofJson? (.object ms) = none := by
  by_cases hcount : (ms.map Prod.fst).count "type" = 1
  · have field : ∀ {k}, k ∈ r.keys → k ≠ "type" → k ∈ r.keys.tail := by
      intro k hk hne
      cases r <;> exact (List.mem_cons.mp hk).resolve_left hne
    cases h with
    | tag h => exact absurd hcount h
    | @twice k ht hk h =>
      have hk := field hk (by rintro rfl; omega)
      exact ofJson?_of_fields (Json.member?_once hcount ht) (List.ne_nil_of_mem hk)
        (Json.fields?_twice hk (Json.member?_twice h))
    | @missing k ht hk hd h =>
      have hk := field hk (by rintro rfl; exact h (List.mem_map_of_mem ht))
      exact ofJson?_of_missing (Json.member?_once hcount ht) hk hd (Json.member?_of_not_mem h)
  · exact ofJson?_of_tag hcount

end Tagged

/-! ## Texts -/

theorem toJson_eq (r : Request) : r.toJson = .object r.members := by
  cases r <;> rfl

/-- The text that a request is written as stands among its texts. -/
theorem textOf_text (r : Request) : TextOf (.object r.members) r.text ∧ r.Writes r.members := by
  refine ⟨?_, .mk (by rw [List.append_nil]) (List.forall_mem_nil _) (List.forall_mem_nil _)
    (by rw [List.append_nil])⟩
  rw [← toJson_eq]
  exact Json.textOf_render (codec.fits_le (by decide) r)

/-- **A request is read from every way to write it, and from no way that breaks it.** -/
theorem ofText?_object (r : Request) {ms : List (String × Json)} {cs : List Char}
    (h : TextOf (.object ms) cs) :
    (r.Writes ms → ofText? cs = some r) ∧ (r.Breaks ms → ofText? cs = none) := by
  have hcs : ofText? cs = ofJson? (.object ms) := by
    rw [ofText?, Json.parse?_eq_some_iff.mpr h]
    rfl
  rw [hcs]
  exact ⟨ofJson?_of_writes, ofJson?_of_breaks⟩

/-- A text in an order of its own, without an `id`, with a field twice that is none of the request's
    and with blanks around it; one without its message; and one that names two sessions. -/
theorem ofText?_object_odd :
    ofText? ("\t\x7b\"x\":null,\"x\":[],\"name\":\"a\",\"type\":\"inject\"," ++
      "\"message\":\"hi\"\x7d\r\n").toList = some (.inject "a" "hi" none) ∧
    ofText? "\x7b\"type\":\"inject\",\"name\":\"a\"\x7d".toList = none ∧
    ofText? ("\x7b\"type\":\"inject\",\"name\":\"a\",\"message\":\"hi\"," ++
      "\"name\":\"b\"\x7d").toList = none := by
  refine ⟨?_, ?_, ?_⟩
  · have hr : (inject "a" "hi" none).members.Perm ([("name", .string "a"),
        ("type", .string "inject"), ("message", .string "hi")] ++ [("id", .null)]) := .swap _ _ _
    have hfits : Json.Fits Json.maxDepth (.object ([("x", .null), ("x", .array [])] ++
        [("name", .string "a"), ("type", .string "inject"), ("message", .string "hi")])) := by
      simp [Json.Fits, Json.FitMembers, Json.FitItems, Json.maxDepth]
    have htext : TextOf _ (['\t'] ++ (Json.render _ ++ ['\r', '\n'])) :=
      .mk (by simp [Json.Blanks, Json.isBlank]) (Json.spelt_render _ _ hfits)
        (by simp [Json.Blanks, Json.isBlank])
    have := (ofText?_object _ htext).1 (.mk hr (by simp [defaults])
      (by simp [keys, members, toJson, Json.tag]) List.perm_append_comm)
    refine Eq.trans (congrArg ofText? ?_) this
    decide +kernel
  · have hfits : Json.Fits Json.maxDepth
        (.object [("type", .string "inject"), ("name", .string "a")]) := by
      simp [Json.Fits, Json.FitMembers, Json.maxDepth]
    have := (ofText?_object (.inject "a" "hi" none) (Json.textOf_render hfits)).2
      (.missing (k := "message") List.mem_cons_self (by simp [keys, members, toJson, Json.tag])
        (by simp [defaults]) (by simp))
    refine Eq.trans (congrArg ofText? ?_) this
    decide +kernel
  · have hfits : Json.Fits Json.maxDepth (.object [("type", .string "inject"), ("name", .string "a"),
        ("message", .string "hi"), ("name", .string "b")]) := by
      simp [Json.Fits, Json.FitMembers, Json.maxDepth]
    have := (ofText?_object (.inject "a" "hi" none) (Json.textOf_render hfits)).2
      (.twice (k := "name") List.mem_cons_self (by simp [keys, members, toJson, Json.tag])
        (by decide))
    refine Eq.trans (congrArg ofText? ?_) this
    decide +kernel

end AgentSupervisor.Request
