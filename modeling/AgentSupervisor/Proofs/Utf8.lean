import AgentSupervisor.Text.Utf8

/-!
# Bytes of a text and the text of bytes

* `decode?_encodeChars`       : the strict reader inverts the writer;
* `eq_encodeChars_of_decode?` : what can be read was written;
* `decode?_cut`               : a text that is cut inside a character cannot be read;
* `cut_cases`                 : where the bytes of a text can be cut.
-/

namespace AgentSupervisor.Utf8

/-! ## One character -/

theorem toNat_toUInt8 {n : Nat} (h : n < 256) : n.toUInt8.toNat = n := by
  simpa using Nat.mod_eq_of_lt h

theorem encodeChar_ascii {c : Char} (h : c.toNat < 0x80) : encodeChar c = [c.toNat.toUInt8] := by
  simp [encodeChar, h]

theorem encodeChar_ne_nil (c : Char) : encodeChar c ≠ [] := by
  unfold encodeChar
  simp only
  split
  · simp
  · split
    · simp
    · split <;> simp

/-- A code point is below the surrogates or above them. -/
theorem scalar (c : Char) : c.toNat < 0xD800 ∨ (0xDFFF < c.toNat ∧ c.toNat < 0x110000) := c.valid

/-- Only a character below U+0080 has a byte below 0x80. -/
theorem high_of_mem_encodeChar {c : Char} (h : 0x80 ≤ c.toNat) :
    ∀ b ∈ encodeChar c, 0x80 ≤ b.toNat := by
  have hs := scalar c
  intro b hb
  unfold encodeChar at hb
  simp only at hb
  split at hb
  · omega
  · split at hb
    · simp only [List.mem_cons, List.not_mem_nil, or_false] at hb
      rcases hb with rfl | rfl <;> rw [toNat_toUInt8 (by omega)] <;> omega
    · split at hb
      · simp only [List.mem_cons, List.not_mem_nil, or_false] at hb
        rcases hb with rfl | rfl | rfl <;> rw [toNat_toUInt8 (by omega)] <;> omega
      · simp only [List.mem_cons, List.not_mem_nil, or_false] at hb
        rcases hb with rfl | rfl | rfl | rfl <;> rw [toNat_toUInt8 (by omega)] <;> omega

/-! ## Bytes that are gathered -/

theorem start_two {b : Nat} (h : 0xC2 ≤ b) (h' : b < 0xE0) :
    start b = (none, .more 1 0x80 0xBF (b - 0xC0)) := by
  unfold start
  rw [if_neg (by omega), if_neg (by omega), if_pos h']

/-- The range of the byte after the first of three: it keeps out values that need fewer bytes,
    and the surrogates. -/
theorem start_three {b : Nat} (h : 0xE0 ≤ b) (h' : b < 0xF0) :
    start b = (none, .more 2 (if b = 0xE0 then 0xA0 else 0x80) (if b = 0xED then 0x9F else 0xBF)
      (b - 0xE0)) := by
  have : b = 0xE0 ∨ b = 0xED ∨ (b ≠ 0xE0 ∧ b ≠ 0xED) := by omega
  rcases this with rfl | rfl | ⟨h1, h2⟩
  · rfl
  · rfl
  · unfold start
    rw [if_neg (by omega), if_neg (by omega), if_neg (by omega), if_neg (by simpa using h1),
      if_neg (by simpa using h2), if_pos h', if_neg h1, if_neg h2]

/-- The range of the byte after the first of four: it keeps out values that need fewer bytes,
    and those beyond U+10FFFF. -/
theorem start_four {b : Nat} (h : 0xF0 ≤ b) (h' : b ≤ 0xF4) :
    start b = (none, .more 3 (if b = 0xF0 then 0x90 else 0x80) (if b = 0xF4 then 0x8F else 0xBF)
      (b - 0xF0)) := by
  have : b = 0xF0 ∨ b = 0xF1 ∨ b = 0xF2 ∨ b = 0xF3 ∨ b = 0xF4 := by omega
  rcases this with rfl | rfl | rfl | rfl | rfl <;> rfl

/-- After these bytes the reader has told nothing yet. -/
def Waits (bs : Bytes) : Prop :=
  ∃ due low high value, ∀ rest, pieces .idle (bs ++ rest) = pieces (.more due low high value) rest

/-- The bytes bring the reader into this state, and before the last of them it was waiting too. -/
structure Gathers (bs : Bytes) (due low high value : Nat) : Prop where
  reads : ∀ rest, pieces .idle (bs ++ rest) = pieces (.more due low high value) rest
  waits : ∀ part, part <+: bs → part ≠ [] → Waits part

theorem Gathers.first {b : UInt8} {due low high value : Nat}
    (h : start b.toNat = (none, .more due low high value)) : Gathers [b] due low high value := by
  have reads : ∀ rest, pieces .idle ([b] ++ rest) = pieces (.more due low high value) rest := by
    intro rest
    rw [List.singleton_append, pieces, h]
  refine ⟨reads, fun part hp hne => ?_⟩
  rcases List.prefix_cons_iff.mp hp with rfl | ⟨t, rfl, ht⟩
  · exact absurd rfl hne
  · rw [List.prefix_nil.mp ht]; exact ⟨_, _, _, _, reads⟩

theorem Gathers.next {bs : Bytes} {due low high value : Nat}
    (h : Gathers bs (due + 2) low high value) {b : UInt8} (hl : low ≤ b.toNat)
    (hh : b.toNat ≤ high) :
    Gathers (bs ++ [b]) (due + 1) 0x80 0xBF (value * 64 + (b.toNat - 0x80)) := by
  have reads : ∀ rest, pieces .idle ((bs ++ [b]) ++ rest) =
      pieces (.more (due + 1) 0x80 0xBF (value * 64 + (b.toNat - 0x80))) rest := by
    intro rest
    rw [List.append_assoc, h.reads]
    simp [pieces, hl, hh]
  refine ⟨reads, fun part hp hne => ?_⟩
  rcases List.prefix_concat_iff.mp hp with rfl | hp
  · exact ⟨_, _, _, _, reads⟩
  · exact h.waits part hp hne

theorem Gathers.last {bs : Bytes} {low high value : Nat} (h : Gathers bs 1 low high value)
    {b : UInt8} (hl : low ≤ b.toNat) (hh : b.toNat ≤ high) (rest : Bytes) :
    pieces .idle ((bs ++ [b]) ++ rest) =
      some (Char.ofNat (value * 64 + (b.toNat - 0x80))) :: pieces .idle rest := by
  rw [List.append_assoc, h.reads]
  simp [pieces, hl, hh]

/-- All bytes but the last of a character beyond ASCII are gathered; the last one has six bits
    of it. -/
theorem encodeChar_gathered {c : Char} (h : 0x80 ≤ c.toNat) :
    ∃ bs b low high value, encodeChar c = bs ++ [b] ∧ Gathers bs 1 low high value ∧
      low ≤ b.toNat ∧ b.toNat ≤ high ∧ value * 64 + (b.toNat - 0x80) = c.toNat := by
  have hs := scalar c
  unfold encodeChar
  simp only
  generalize c.toNat = n at h hs
  have e : (0x80 + n % 64).toUInt8.toNat = 0x80 + n % 64 := toNat_toUInt8 (by omega)
  rw [if_neg (by omega)]
  split
  · have e0 : (0xC0 + n / 64).toUInt8.toNat = 0xC0 + n / 64 := toNat_toUInt8 (by omega)
    refine ⟨[_], _, _, _, _, rfl, .first (by rw [e0]; exact start_two (by omega) (by omega)), ?_⟩
    omega
  · split
    · have e0 : (0xE0 + n / 4096).toUInt8.toNat = 0xE0 + n / 4096 := toNat_toUInt8 (by omega)
      have e1 : (0x80 + n / 64 % 64).toUInt8.toNat = 0x80 + n / 64 % 64 := toNat_toUInt8 (by omega)
      have g := Gathers.first (b := (0xE0 + n / 4096).toUInt8)
        (by rw [e0]; exact start_three (by omega) (by omega))
      have g := g.next (b := (0x80 + n / 64 % 64).toUInt8) (by rw [e1]; split <;> omega)
        (by rw [e1]; split <;> omega)
      refine ⟨_, _, _, _, _, rfl, g, ?_⟩
      omega
    · have e0 : (0xF0 + n / 262144).toUInt8.toNat = 0xF0 + n / 262144 := toNat_toUInt8 (by omega)
      have e1 : (0x80 + n / 4096 % 64).toUInt8.toNat = 0x80 + n / 4096 % 64 :=
        toNat_toUInt8 (by omega)
      have e2 : (0x80 + n / 64 % 64).toUInt8.toNat = 0x80 + n / 64 % 64 := toNat_toUInt8 (by omega)
      have g := Gathers.first (b := (0xF0 + n / 262144).toUInt8)
        (by rw [e0]; exact start_four (by omega) (by omega))
      have g := g.next (b := (0x80 + n / 4096 % 64).toUInt8) (by rw [e1]; split <;> omega)
        (by rw [e1]; split <;> omega)
      have g := g.next (b := (0x80 + n / 64 % 64).toUInt8) (by omega) (by omega)
      refine ⟨_, _, _, _, _, rfl, g, ?_⟩
      omega

/-! ## Reading what was written -/

theorem pieces_encodeChar (c : Char) (rest : Bytes) :
    pieces .idle (encodeChar c ++ rest) = some c :: pieces .idle rest := by
  by_cases h : c.toNat < 0x80
  · have hb : c.toNat.toUInt8.toNat = c.toNat := toNat_toUInt8 (by omega)
    rw [encodeChar_ascii h, List.singleton_append, pieces, hb]
    simp [start, h, Char.ofNat_toNat]
  · obtain ⟨bs, b, low, high, value, he, hg, hl, hh, hv⟩ := encodeChar_gathered (c := c) (by omega)
    rw [he, hg.last hl hh, hv, Char.ofNat_toNat]

/-- A part of a character's bytes leaves the reader waiting. -/
theorem waits_of_part {c : Char} {part : Bytes} (hp : part <+: encodeChar c) (hne : part ≠ [])
    (hlt : part ≠ encodeChar c) : Waits part := by
  by_cases h : c.toNat < 0x80
  · rw [encodeChar_ascii h] at hp hlt
    rcases List.prefix_cons_iff.mp hp with rfl | ⟨t, rfl, ht⟩
    · exact absurd rfl hne
    · rw [List.prefix_nil.mp ht] at hlt; exact absurd rfl hlt
  · obtain ⟨bs, b, low, high, value, he, hg, -⟩ := encodeChar_gathered (c := c) (by omega)
    rw [he] at hp hlt
    rcases List.prefix_concat_iff.mp hp with rfl | hp
    · exact absurd rfl hlt
    · exact hg.waits part hp hne

theorem pieces_encodeChars (cs : List Char) (rest : Bytes) :
    pieces .idle (encodeChars cs ++ rest) = cs.map some ++ pieces .idle rest := by
  induction cs with
  | nil => rfl
  | cons c cs ih =>
    rw [encodeChars, List.flatMap_cons, List.append_assoc, pieces_encodeChar]
    rw [encodeChars] at ih
    rw [ih]
    rfl

theorem mapM_id_map_some {α : Type} (as : List α) : (as.map some).mapM id = some as := by
  induction as with
  | nil => rfl
  | cons a as ih => simp [List.mapM_cons, ih]

theorem mapM_id_of_none_mem {α : Type} {os : List (Option α)} (h : none ∈ os) :
    os.mapM id = none := by
  induction os with
  | nil => cases h
  | cons o os ih =>
    cases o with
    | none => rfl
    | some a =>
      have hos : none ∈ os := by simpa using h
      simp [List.mapM_cons, ih hos]

/-- **The strict reader inverts the writer.** -/
theorem decode?_encodeChars (cs : List Char) : decode? (encodeChars cs) = some cs := by
  have := pieces_encodeChars cs []
  rw [List.append_nil] at this
  rw [decode?, this, pieces, List.append_nil, mapM_id_map_some]

theorem encodeChars_injective {cs ds : List Char} (h : encodeChars cs = encodeChars ds) :
    cs = ds := by
  have := decode?_encodeChars cs
  rw [h, decode?_encodeChars] at this
  exact (Option.some.inj this).symm

theorem encodeChars_append (cs ds : List Char) :
    encodeChars (cs ++ ds) = encodeChars cs ++ encodeChars ds := List.flatMap_append

theorem encodeChars_cons (c : Char) (cs : List Char) :
    encodeChars (c :: cs) = encodeChar c ++ encodeChars cs := rfl

theorem encodeChars_eq_nil {cs : List Char} : encodeChars cs = [] ↔ cs = [] := by
  cases cs with
  | nil => simp [encodeChars]
  | cons c cs => simp [encodeChars_cons, encodeChar_ne_nil]

/-! ## What can be read was written -/

theorem toUInt8_eq {n : Nat} {b : UInt8} (h : n = b.toNat) : n.toUInt8 = b := by
  rw [h]
  exact UInt8.ofNat_toNat

theorem toNat_ofNat {n : Nat} (h : n < 0xD800 ∨ (0xDFFF < n ∧ n < 0x110000)) :
    (Char.ofNat n).toNat = n := by
  have hvalid : n.isValidChar := h
  rw [Char.ofNat, dif_pos hvalid]
  rfl

theorem exists_of_mapM_id_cons {α : Type} {a : α} {os : List (Option α)} {as : List α}
    (h : (some a :: os).mapM id = some as) : ∃ as', as = a :: as' ∧ os.mapM id = some as' := by
  rw [List.mapM_cons, id, Option.bind_eq_bind, Option.bind_some] at h
  obtain ⟨as', has, h⟩ := Option.bind_eq_some_iff.mp h
  exact ⟨as', (Option.some.inj h).symm, has⟩

/-- The last byte that is due ends a character. -/
theorem exists_last_byte {low high value : Nat} {bs : Bytes} {cs : List Char}
    (h : (pieces (.more 1 low high value) bs).mapM id = some cs) :
    ∃ b rest cs', bs = b :: rest ∧ low ≤ b.toNat ∧ b.toNat ≤ high ∧
      cs = Char.ofNat (value * 64 + (b.toNat - 0x80)) :: cs' ∧ decode? rest = some cs' := by
  cases bs with
  | nil => cases h
  | cons b rest =>
    by_cases hb : low ≤ b.toNat ∧ b.toNat ≤ high
    · rw [pieces, if_pos hb, if_pos (Nat.le_refl 1)] at h
      obtain ⟨cs', hcs, hrest⟩ := exists_of_mapM_id_cons h
      exact ⟨b, rest, cs', rfl, hb.1, hb.2, hcs, hrest⟩
    · rw [pieces, if_neg hb, mapM_id_of_none_mem List.mem_cons_self] at h
      cases h

/-- A byte that is due, with more to come after it. -/
theorem exists_next_byte {due low high value : Nat} {bs : Bytes} {cs : List Char}
    (h : (pieces (.more (due + 2) low high value) bs).mapM id = some cs) :
    ∃ b rest, bs = b :: rest ∧ low ≤ b.toNat ∧ b.toNat ≤ high ∧
      (pieces (.more (due + 1) 0x80 0xBF (value * 64 + (b.toNat - 0x80))) rest).mapM id =
        some cs := by
  cases bs with
  | nil => cases h
  | cons b rest =>
    by_cases hb : low ≤ b.toNat ∧ b.toNat ≤ high
    · rw [pieces, if_pos hb, if_neg (by omega)] at h
      exact ⟨b, rest, rfl, hb.1, hb.2, h⟩
    · rw [pieces, if_neg hb, mapM_id_of_none_mem List.mem_cons_self] at h
      cases h

/-- A text that can be read begins with the bytes of its first character. -/
theorem exists_first_char {b : UInt8} {bs : Bytes} {cs : List Char}
    (h : decode? (b :: bs) = some cs) :
    ∃ c cs' rest, b :: bs = encodeChar c ++ rest ∧ cs = c :: cs' ∧ decode? rest = some cs' := by
  have hlt := b.toNat_lt
  rw [decode?, pieces] at h
  by_cases h1 : b.toNat < 0x80
  · have hc : (Char.ofNat b.toNat).toNat = b.toNat := toNat_ofNat (by omega)
    rw [start, if_pos h1] at h
    obtain ⟨cs', rfl, hrest⟩ := exists_of_mapM_id_cons h
    refine ⟨_, cs', bs, ?_, rfl, hrest⟩
    rw [encodeChar_ascii (by omega), hc, toUInt8_eq rfl]
    rfl
  by_cases h2 : b.toNat < 0xC2
  · rw [start, if_neg h1, if_pos h2] at h
    rw [mapM_id_of_none_mem List.mem_cons_self] at h
    cases h
  by_cases h3 : b.toNat < 0xE0
  · rw [start_two (by omega) h3] at h
    obtain ⟨b₁, rest, cs', rfl, hl, hh, rfl, hrest⟩ := exists_last_byte h
    refine ⟨_, cs', rest, ?_, rfl, hrest⟩
    rw [encodeChar, toNat_ofNat (by omega)]
    rw [if_neg (by omega), if_pos (by omega), toUInt8_eq (b := b) (by omega),
      toUInt8_eq (b := b₁) (by omega)]
    rfl
  by_cases h4 : b.toNat < 0xF0
  · rw [start_three (by omega) h4] at h
    obtain ⟨b₁, rest, rfl, hl₁, hh₁, h⟩ := exists_next_byte h
    obtain ⟨b₂, rest, cs', rfl, hl₂, hh₂, rfl, hrest⟩ := exists_last_byte h
    refine ⟨_, cs', rest, ?_, rfl, hrest⟩
    have hrange : 0x80 ≤ b₁.toNat ∧ b₁.toNat ≤ 0xBF ∧ (b.toNat = 0xE0 → 0xA0 ≤ b₁.toNat) ∧
        (b.toNat = 0xED → b₁.toNat ≤ 0x9F) := by
      split at hl₁ <;> split at hh₁ <;> omega
    clear hl₁ hh₁
    rw [encodeChar, toNat_ofNat (by omega)]
    rw [if_neg (by omega), if_neg (by omega), if_pos (by omega), toUInt8_eq (b := b) (by omega),
      toUInt8_eq (b := b₁) (by omega), toUInt8_eq (b := b₂) (by omega)]
    rfl
  by_cases h5 : b.toNat ≤ 0xF4
  · rw [start_four (by omega) h5] at h
    obtain ⟨b₁, rest, rfl, hl₁, hh₁, h⟩ := exists_next_byte h
    obtain ⟨b₂, rest, rfl, hl₂, hh₂, h⟩ := exists_next_byte h
    obtain ⟨b₃, rest, cs', rfl, hl₃, hh₃, rfl, hrest⟩ := exists_last_byte h
    refine ⟨_, cs', rest, ?_, rfl, hrest⟩
    have hrange : 0x80 ≤ b₁.toNat ∧ b₁.toNat ≤ 0xBF ∧ (b.toNat = 0xF0 → 0x90 ≤ b₁.toNat) ∧
        (b.toNat = 0xF4 → b₁.toNat ≤ 0x8F) := by
      split at hl₁ <;> split at hh₁ <;> omega
    clear hl₁ hh₁
    rw [encodeChar, toNat_ofNat (by omega)]
    rw [if_neg (by omega), if_neg (by omega), if_neg (by omega), toUInt8_eq (b := b) (by omega),
      toUInt8_eq (b := b₁) (by omega), toUInt8_eq (b := b₂) (by omega),
      toUInt8_eq (b := b₃) (by omega)]
    rfl
  · have hnone : start b.toNat = (some none, .idle) := by
      unfold start
      rw [if_neg h1, if_neg h2, if_neg h3, if_neg (by simpa using by omega),
        if_neg (by simpa using by omega), if_neg h4, if_neg (by simpa using by omega),
        if_neg (by omega), if_neg (by simpa using by omega)]
    rw [hnone, mapM_id_of_none_mem List.mem_cons_self] at h
    cases h

/-- **What can be read was written**: the strict reader accepts the bytes of a text only. -/
theorem eq_encodeChars_of_decode? {bs : Bytes} {cs : List Char} (h : decode? bs = some cs) :
    bs = encodeChars cs := by
  induction hn : bs.length using Nat.strongRecOn generalizing bs cs with
  | ind n ih =>
    cases bs with
    | nil =>
      cases h
      rfl
    | cons b bs =>
      obtain ⟨c, cs', rest, heq, rfl, hrest⟩ := exists_first_char h
      have hshort : rest.length < n := by
        have hlen := congrArg List.length heq
        have hpos := List.length_pos_iff.mpr (encodeChar_ne_nil c)
        rw [List.length_append] at hlen
        omega
      rw [heq, encodeChars_cons, ih _ hshort hrest rfl]

/-! ## Cutting -/

/-- A text that is cut inside a character cannot be read. -/
theorem decode?_cut (cs : List Char) {part : Bytes} (h : Waits part) :
    decode? (encodeChars cs ++ part) = none := by
  obtain ⟨due, low, high, value, h⟩ := h
  have := h []
  rw [List.append_nil, pieces] at this
  rw [decode?, pieces_encodeChars, this]
  exact mapM_id_of_none_mem (by simp)

/-- The first bytes of a character, but not all of them. -/
def Severed (bs : Bytes) : Prop := bs ≠ [] ∧ ∃ c, bs <+: encodeChar c ∧ bs ≠ encodeChar c

theorem Severed.waits {bs : Bytes} : Severed bs → Waits bs
  | ⟨hne, _, hp, hlt⟩ => waits_of_part hp hne hlt

/-- Only a character beyond ASCII has bytes between which it can be cut. -/
theorem Severed.high {bs : Bytes} : Severed bs → ∀ b ∈ bs, 0x80 ≤ b.toNat
  | ⟨hne, c, hp, hlt⟩ => by
    by_cases h : c.toNat < 0x80
    · rw [encodeChar_ascii h] at hp hlt
      rcases List.prefix_cons_iff.mp hp with rfl | ⟨t, rfl, ht⟩
      · exact absurd rfl hne
      · rw [List.prefix_nil.mp ht] at hlt; exact absurd rfl hlt
    · exact fun b hb => high_of_mem_encodeChar (by omega) b (hp.subset hb)

/-- The bytes of a text are cut between two characters or inside one. -/
theorem cut_cases {cs : List Char} {part : Bytes} (h : part <+: encodeChars cs) :
    (∃ ds, ds <+: cs ∧ part = encodeChars ds) ∨
      ∃ ds bs, Severed bs ∧ part = encodeChars ds ++ bs := by
  induction cs generalizing part with
  | nil => exact .inl ⟨[], List.nil_prefix, List.prefix_nil.mp h⟩
  | cons c cs ih =>
    rw [encodeChars_cons] at h
    rcases List.prefix_or_prefix_of_prefix h (List.prefix_append _ _) with h | ⟨t, rfl⟩
    · by_cases hnil : part = []
      · exact .inl ⟨[], List.nil_prefix, hnil⟩
      by_cases hall : part = encodeChar c
      · exact .inl ⟨[c], by simp, by simp [encodeChars, hall]⟩
      · exact .inr ⟨[], part, ⟨hnil, c, h, hall⟩, rfl⟩
    · rcases ih ((List.prefix_append_right_inj _).mp h) with ⟨ds, hds, rfl⟩ | ⟨ds, bs, hb, rfl⟩
      · exact .inl ⟨c :: ds, by simpa using hds, rfl⟩
      · exact .inr ⟨c :: ds, bs, hb, by rw [encodeChars_cons, List.append_assoc]⟩

/-- The text of a part is a part of the text. -/
theorem prefix_of_encodeChars {cs ds : List Char} (h : encodeChars cs <+: encodeChars ds) :
    cs <+: ds := by
  rcases cut_cases h with ⟨es, hes, he⟩ | ⟨es, bs, hb, he⟩
  · rwa [encodeChars_injective he]
  · have := decode?_cut es hb.waits
    rw [← he, decode?_encodeChars] at this
    cases this

end AgentSupervisor.Utf8
