import Mathlib.Data.List.SplitBy
import AgentSupervisor.Proofs.NewestOutput

/-!
# The last lines of a transcript

The tail of a transcript is found by walking backwards over its bytes, and only what is found is
decoded. It is the text of the last lines of the whole transcript: bytes are replaced within a
line, never across the end of one.

* `Lines.cutAfter`             : the lines of a row, which is cut behind every line feed;
* `Utf8.cutAfter_decodeLossy`  : the lines of the decoded text are the decoded lines;
* `Transcript.tailBytes_eq`    : walking backwards finds the last lines;
* `Transcript.tail_last_lines` : the tail as text.
-/

namespace AgentSupervisor

/-! ## Lines of a row -/

namespace Lines

section

variable {α : Type} {feed : α} {as : List α}

/-- A row that is empty or ends with a line feed. -/
def EndsWith (feed : α) (as : List α) : Prop := ∀ a ∈ as.getLast?, a = feed

/-- A row with a line feed at its end or nowhere. -/
def IsLine (feed : α) (l : List α) : Prop := l ≠ [] ∧ feed ∉ l.dropLast

theorem isLine_of_not_mem (hne : as ≠ []) (h : feed ∉ as) : IsLine feed as :=
  ⟨hne, fun hmem => h (List.dropLast_subset as hmem)⟩

theorem isLine_append_feed (h : feed ∉ as) : IsLine feed (as ++ [feed]) :=
  ⟨by simp, by rwa [List.dropLast_concat]⟩

/-- A line has its line feed, or it has none. -/
theorem IsLine.ends (h : IsLine feed as) :
    (∃ body, as = body ++ [feed] ∧ feed ∉ body) ∨ feed ∉ as := by
  obtain ⟨hne, hfree⟩ := h
  obtain ⟨body, a, rfl⟩ := (List.eq_nil_or_concat' as).resolve_left hne
  rw [List.dropLast_concat] at hfree
  by_cases ha : a = feed
  · exact .inl ⟨body, by rw [ha], hfree⟩
  · exact .inr fun hmem => (List.mem_append.mp hmem).elim hfree fun h =>
      ha (List.mem_singleton.mp h).symm

/-- A row that is not empty has a last line. -/
theorem exists_last_line (feed : α) (hne : as ≠ []) :
    ∃ pre l, as = pre ++ l ∧ EndsWith feed pre ∧ IsLine feed l := by
  induction as with
  | nil => exact absurd rfl hne
  | cons a as ih =>
    rcases eq_or_ne as [] with rfl | has
    · exact ⟨[], [a], rfl, by simp [EndsWith], by simp [IsLine]⟩
    · obtain ⟨pre, l, rfl, hpre, hl, hfree⟩ := ih has
      rcases List.eq_nil_or_concat' pre with rfl | ⟨pre, b, rfl⟩
      · by_cases ha : a = feed
        · exact ⟨[a], l, rfl, by simpa [EndsWith] using ha, hl, hfree⟩
        · refine ⟨[], a :: l, rfl, by simp [EndsWith], by simp, ?_⟩
          rw [List.dropLast_cons_of_ne_nil hl, List.mem_cons]
          exact fun h => h.elim (fun e => ha e.symm) hfree
      · refine ⟨a :: (pre ++ [b]), l, rfl, ?_, hl, hfree⟩
        rw [EndsWith, ← List.cons_append, List.getLast?_concat]
        rwa [EndsWith, List.getLast?_concat] at hpre

/-- What holds of the empty row, and of a row with one more line when it holds of the row before,
    holds of every row. -/
theorem lines_induction (feed : α) {motive : List α → Prop} (nil : motive [])
    (line : ∀ pre l, EndsWith feed pre → IsLine feed l → motive pre → motive (pre ++ l))
    (as : List α) : motive as := by
  induction h : as.length using Nat.strong_induction_on generalizing as with
  | _ n ih =>
    rcases eq_or_ne as [] with rfl | hne
    · exact nil
    · obtain ⟨pre, l, rfl, hpre, hl⟩ := exists_last_line feed hne
      have hpos := List.length_pos_iff.mpr hl.1
      rw [List.length_append] at h
      exact line pre l hpre hl (ih pre.length (by omega) pre rfl)

theorem isChain_of_forall {R : α → α → Prop} {l : List α} (h : ∀ a ∈ l, ∀ b, R a b) :
    l.IsChain R := by
  induction l with
  | nil => exact .nil
  | cons a l ih =>
    exact List.isChain_cons.mpr ⟨fun b _ => h a List.mem_cons_self b,
      ih fun c hc => h c (List.mem_cons_of_mem a hc)⟩

end

variable {α : Type} [DecidableEq α] {feed : α} {as pre post l : List α}

/-- The lines of a row, which is cut behind every line feed. What follows the last line feed is a
    line too. -/
def cutAfter (feed : α) (as : List α) : List (List α) := as.splitBy fun a _ => a != feed

/-- Behind a line feed the lines begin anew. -/
theorem cutAfter_append (h : EndsWith feed pre) :
    cutAfter feed (pre ++ post) = cutAfter feed pre ++ cutAfter feed post :=
  List.splitBy_append fun a ha _ _ => bne_eq_false_iff_eq.mpr (h a ha)

theorem cutAfter_line (h : IsLine feed l) : cutAfter feed l = [l] := by
  obtain ⟨hne, hfree⟩ := h
  have hbody : ∀ a ∈ l.dropLast, ∀ b : α, (a != feed) = true := fun a ha _ =>
    bne_iff_ne.mpr fun e => hfree (e ▸ ha)
  refine List.splitBy_of_isChain hne ?_
  rw [← List.dropLast_concat_getLast hne, List.isChain_append]
  exact ⟨isChain_of_forall hbody, List.isChain_singleton _, fun a ha b _ =>
    hbody a (List.mem_of_getLast? ha) b⟩

theorem cutAfter_append_line (hpre : EndsWith feed pre) (hl : IsLine feed l) :
    cutAfter feed (pre ++ l) = cutAfter feed pre ++ [l] := by
  rw [cutAfter_append hpre, cutAfter_line hl]

/-- The last lines are the lines of what they make up. -/
theorem cutAfter_flatten {ls : List (List α)} (h : ls <:+ cutAfter feed as) :
    cutAfter feed ls.flatten = ls := by
  obtain ⟨-, hnil, hlines, hends⟩ := List.splitBy_eq_iff.mp (rfl : cutAfter feed as = _)
  exact List.splitBy_flatten (fun hmem => hnil (h.subset hmem)) (fun l hl => hlines l (h.subset hl))
    (hends.suffix h)

end Lines

/-! ## Lines of a decoded text -/

namespace Utf8

open Lines (lineFeed cutAfter EndsWith IsLine)

variable {p : Pending} {pre post l : Bytes}

/-- Of a sequence in progress the next byte is none of ASCII, and the value is past a line feed
    already. -/
def Pending.Beyond : Pending → Prop
  | .idle => True
  | .more _ low _ value => 0x80 ≤ low ∧ 10 < value * 64 + (low - 0x80)

/-- A first byte is a character, or no text, or it begins a sequence. -/
theorem start_cases (b : Nat) : start b = (some (some (Char.ofNat b)), .idle) ∨
    start b = (some none, .idle) ∨ ∃ p, start b = (none, p) ∧ p ≠ .idle ∧ p.Beyond := by
  generalize hs : start b = r
  simp only [start, beq_iff_eq] at hs
  split_ifs at hs <;> subst hs
  · exact .inl rfl
  · exact .inr (.inl rfl)
  all_goals first
    | exact .inr (.inl rfl)
    | refine .inr (.inr ⟨_, rfl, by simp, ?_⟩)
      constructor <;> omega

theorem start_beyond (b : Nat) : (start b).2.Beyond := by
  rcases start_cases b with h | h | ⟨p, h, -, hp⟩
  · rw [h]; trivial
  · rw [h]; trivial
  · rw [h]; exact hp

theorem Pending.Beyond.next {due low high value n : Nat} (h : (Pending.more due low high value).Beyond)
    (hn : low ≤ n) : (Pending.more (due - 1) 0x80 0xBF (value * 64 + (n - 0x80))).Beyond := by
  obtain ⟨hlow, hvalue⟩ := h
  exact ⟨Nat.le_refl _, by omega⟩

theorem pieces_idle (b : UInt8) (bs : Bytes) :
    pieces .idle (b :: bs) = (start b.toNat).1.toList ++ pieces (start b.toNat).2 bs := by
  rw [pieces]
  split
  · rename_i h
    rw [h]
    rfl
  · rename_i h
    rw [h]
    rfl

section

variable {due low high value : Nat} {b : UInt8} {bs : Bytes}

/-- A byte that belongs to the sequence in progress ends it, or more bytes are due. -/
theorem pieces_within (h : low ≤ b.toNat ∧ b.toNat ≤ high) :
    pieces (.more due low high value) (b :: bs) =
      if due ≤ 1 then some (Char.ofNat (value * 64 + (b.toNat - 0x80))) :: pieces .idle bs
      else pieces (.more (due - 1) 0x80 0xBF (value * 64 + (b.toNat - 0x80))) bs := by
  rw [pieces, if_pos h]

/-- A byte that does not belong to it is looked at as a first one. -/
theorem pieces_outside (h : ¬ (low ≤ b.toNat ∧ b.toNat ≤ high)) :
    pieces (.more due low high value) (b :: bs) = none :: pieces .idle (b :: bs) := by
  conv_lhs => rw [pieces, if_neg h]
  rw [pieces]

end

theorem start_lineFeed : start lineFeed.toNat = (some (some '\n'), .idle) := rfl

/-- **A line feed is read as one**, whatever is in progress, and ends it. -/
theorem pieces_lineFeed (h : p.Beyond) (bs rest : Bytes) :
    pieces p (bs ++ lineFeed :: rest) = pieces p bs ++ some '\n' :: pieces .idle rest := by
  induction bs generalizing p with
  | nil =>
    have hidle : pieces .idle (lineFeed :: rest) = some '\n' :: pieces .idle rest := by
      rw [pieces_idle, start_lineFeed]
      rfl
    cases p with
    | idle => exact hidle
    | more due low high value =>
      have hout : ¬ (low ≤ lineFeed.toNat ∧ lineFeed.toNat ≤ high) := fun hin =>
        absurd (Nat.le_trans h.1 hin.1) (by decide)
      rw [List.nil_append, pieces_outside hout, hidle]
      rfl
  | cons b bs ih =>
    have hidle : pieces .idle (b :: (bs ++ lineFeed :: rest)) =
        pieces .idle (b :: bs) ++ some '\n' :: pieces .idle rest := by
      rw [pieces_idle, pieces_idle, ih (start_beyond _), List.append_assoc]
    rw [List.cons_append]
    cases p with
    | idle => exact hidle
    | more due low high value =>
      by_cases hin : low ≤ b.toNat ∧ b.toNat ≤ high
      · rw [pieces_within hin, pieces_within hin]
        split
        · rw [ih (p := .idle) trivial, List.cons_append]
        · exact ih (h.next hin.1)
      · rw [pieces_outside hin, pieces_outside hin, hidle, List.cons_append]

theorem eq_of_ofNat_eq {n : Nat} (h : Char.ofNat n = '\n') : n = 10 := by
  by_cases hn : n.isValidChar
  · rw [Char.ofNat, dif_pos hn] at h
    exact congrArg Char.toNat h
  · rw [Char.ofNat, dif_neg hn] at h
    cases h

theorem mem_start {b : Nat} (h : some '\n' ∈ (start b).1) : b = 10 := by
  rcases start_cases b with hb | hb | ⟨p, hb, -⟩
  · rw [hb] at h
    exact eq_of_ofNat_eq (Option.some.inj (Option.some.inj h))
  · rw [hb] at h; cases h
  · rw [hb] at h; cases h

/-- Only a line feed is read as one. -/
theorem not_mem_pieces (h : p.Beyond) {bs : Bytes} (hbs : lineFeed ∉ bs) :
    some '\n' ∉ pieces p bs := by
  induction bs generalizing p with
  | nil => cases p <;> simp [pieces]
  | cons b bs ih =>
    obtain ⟨hb, hbs⟩ : lineFeed ≠ b ∧ lineFeed ∉ bs := by simpa using hbs
    have hidle : some '\n' ∉ pieces .idle (b :: bs) := by
      rw [pieces_idle, List.mem_append]
      rintro (hstart | hrest)
      · exact hb (UInt8.toNat_inj.mp (mem_start (Option.mem_toList.mp hstart))).symm
      · exact ih (start_beyond _) hbs hrest
    cases p with
    | idle => exact hidle
    | more due low high value =>
      by_cases hin : low ≤ b.toNat ∧ b.toNat ≤ high
      · rw [pieces_within hin]
        split
        · rw [List.mem_cons]
          rintro (hchar | hrest)
          · have hvalue := eq_of_ofNat_eq (Option.some.inj hchar).symm
            have := h.2
            omega
          · exact ih (p := .idle) trivial hbs hrest
        · exact ih (h.next hin.1) hbs
      · rw [pieces_outside hin, List.mem_cons]
        exact fun hmem => hmem.elim (fun h => by cases h) hidle

theorem decodeLossy_lineFeed (bs rest : Bytes) :
    decodeLossy (bs ++ lineFeed :: rest) = decodeLossy bs ++ '\n' :: decodeLossy rest := by
  rw [decodeLossy, pieces_lineFeed (p := .idle) trivial, List.map_append, List.map_cons]
  rfl

theorem lineFeed_not_mem_decodeLossy {bs : Bytes} (h : lineFeed ∉ bs) : '\n' ∉ decodeLossy bs := by
  intro hmem
  obtain ⟨o, ho, hc⟩ := List.mem_map.mp hmem
  cases o with
  | none => cases hc
  | some c =>
    obtain rfl : c = '\n' := hc
    exact not_mem_pieces (p := .idle) trivial h ho

/-- Behind a line feed the text begins anew. -/
theorem decodeLossy_append (h : EndsWith lineFeed pre) (post : Bytes) :
    decodeLossy (pre ++ post) = decodeLossy pre ++ decodeLossy post := by
  rcases List.eq_nil_or_concat' pre with rfl | ⟨pre, b, rfl⟩
  · rfl
  · obtain rfl : b = lineFeed := h b (by simp)
    rw [List.append_assoc, List.singleton_append, decodeLossy_lineFeed, decodeLossy_lineFeed,
      List.append_assoc]
    rfl

theorem endsWith_decodeLossy (h : EndsWith lineFeed pre) : EndsWith '\n' (decodeLossy pre) := by
  rcases List.eq_nil_or_concat' pre with rfl | ⟨pre, b, rfl⟩
  · intro c hc
    cases hc
  · obtain rfl : b = lineFeed := h b (by simp)
    rw [decodeLossy_lineFeed]
    exact fun c hc => by simpa [eq_comm, Utf8.decodeLossy, pieces] using hc

theorem start_waits {b : Nat} (h : (start b).1 = none) : (start b).2 ≠ .idle := by
  rcases start_cases b with hb | hb | ⟨p, hb, hp, -⟩
  · rw [hb] at h; cases h
  · rw [hb] at h; cases h
  · rw [hb]; exact hp

theorem pieces_ne_nil {bs : Bytes} (h : p ≠ .idle ∨ bs ≠ []) : pieces p bs ≠ [] := by
  induction bs generalizing p with
  | nil => cases p <;> simp_all [pieces]
  | cons b bs ih =>
    cases p with
    | idle =>
      rw [pieces_idle]
      cases hstart : (start b.toNat).1 with
      | none => exact ih (.inl (start_waits hstart))
      | some c => simp
    | more due low high value =>
      by_cases hin : low ≤ b.toNat ∧ b.toNat ≤ high
      · rw [pieces_within hin]
        split
        · simp
        · exact ih (.inl (by simp))
      · rw [pieces_outside hin]
        simp

/-- A line is decoded as a line. -/
theorem isLine_decodeLossy (h : IsLine lineFeed l) : IsLine '\n' (decodeLossy l) := by
  rcases h.ends with ⟨body, rfl, hbody⟩ | hfree
  · rw [decodeLossy_lineFeed]
    exact Lines.isLine_append_feed (lineFeed_not_mem_decodeLossy hbody)
  · refine Lines.isLine_of_not_mem ?_ (lineFeed_not_mem_decodeLossy hfree)
    exact fun hnil => pieces_ne_nil (.inr h.1) (List.map_eq_nil_iff.mp hnil)

/-- **The lines of a decoded text are the decoded lines.** -/
theorem cutAfter_decodeLossy (bs : Bytes) :
    cutAfter '\n' (decodeLossy bs) = (cutAfter lineFeed bs).map decodeLossy := by
  induction bs using Lines.lines_induction lineFeed with
  | nil => rfl
  | line pre l hpre hl ih =>
    rw [decodeLossy_append hpre,
      Lines.cutAfter_append_line (endsWith_decodeLossy hpre) (isLine_decodeLossy hl), ih,
      Lines.cutAfter_append_line hpre hl, List.map_append, List.map_singleton]

end Utf8

/-! ## Walking backwards -/

namespace Transcript

open Lines (lineFeed cutAfter EndsWith IsLine)

variable {pre l : Bytes}

/-- Bytes without a line feed are walked over. -/
theorem behindLast_append {y : Bytes} (h : lineFeed ∉ y) (n : Nat) (backwards after : Bytes) :
    behindLast (n + 1) (y ++ backwards) after =
      behindLast (n + 1) backwards (y.reverse ++ after) := by
  induction y generalizing after with
  | nil => rfl
  | cons b y ih =>
    obtain ⟨hb, hy⟩ : lineFeed ≠ b ∧ lineFeed ∉ y := by simpa using h
    rw [List.cons_append, behindLast, if_neg (Ne.symm hb), ih hy, List.reverse_cons,
      List.append_assoc]
    rfl

/-- What has been walked over already stands behind what is found. -/
theorem behindLast_after (n : Nat) (backwards after : Bytes) :
    behindLast n backwards after = behindLast n backwards [] ++ after := by
  induction backwards generalizing n after with
  | nil => cases n <;> rfl
  | cons b backwards ih =>
    cases n with
    | zero => rfl
    | succ n =>
      rw [behindLast, behindLast]
      split
      · split
        · rfl
        · rw [ih n (b :: after), ih n [b], List.append_assoc, List.singleton_append]
      · rw [ih (n + 1) (b :: after), ih (n + 1) [b], List.append_assoc, List.singleton_append]

theorem behindLast_feed (n : Nat) (backwards after : Bytes) :
    behindLast (n + 2) (lineFeed :: backwards) after =
      behindLast (n + 1) backwards [] ++ lineFeed :: after := by
  rw [behindLast, if_pos rfl, if_neg (by omega), behindLast_after]

/-- A line is walked over but for its line feed. -/
theorem body_append_line (hl : IsLine lineFeed l) :
    ∃ y, lineFeed ∉ y ∧ body (pre ++ l) = pre ++ y := by
  rcases hl.ends with ⟨y, rfl, hy⟩ | hfree
  · refine ⟨y, hy, ?_⟩
    rw [body, ← List.append_assoc, if_pos List.getLast?_concat, List.dropLast_concat]
  · refine ⟨l, hfree, if_neg fun hlast => hfree ?_⟩
    rw [List.getLast?_append_of_ne_nil _ hl.1] at hlast
    exact List.mem_of_getLast? hlast

theorem tailBytes_succ (bs : Bytes) (n : Nat) : tailBytes bs (n + 1) =
    bs.drop ((body bs).length - (behindLast (n + 1) (body bs).reverse []).length) := by
  rw [tailBytes, if_neg (by omega)]

/-- A last line is put behind the last lines before it. -/
theorem tailBytes_append_line (hpre : EndsWith lineFeed pre) (hl : IsLine lineFeed l) (n : Nat) :
    tailBytes (pre ++ l) (n + 1) = tailBytes pre n ++ l := by
  obtain ⟨y, hy, hbody⟩ : ∃ y, lineFeed ∉ y ∧ body (pre ++ l) = pre ++ y := body_append_line hl
  have hy' : lineFeed ∉ y.reverse := by rwa [List.mem_reverse]
  rw [tailBytes_succ, hbody, List.reverse_append, behindLast_append hy', List.reverse_reverse,
    List.append_nil]
  rcases List.eq_nil_or_concat' pre with rfl | ⟨pre, b, rfl⟩
  · have hnone : tailBytes [] n = [] := by cases n <;> rfl
    simp [hnone, behindLast]
  · obtain rfl : b = lineFeed := hpre b (by simp)
    rw [List.reverse_append, List.reverse_singleton, List.singleton_append]
    cases n with
    | zero =>
      have hfound : behindLast 1 (lineFeed :: pre.reverse) y = y := by simp [behindLast]
      have hstart : (pre ++ [lineFeed] ++ y).length - y.length = (pre ++ [lineFeed]).length := by
        rw [List.length_append]
        omega
      rw [hfound, hstart, List.drop_left]
      rfl
    | succ n =>
      have hpre' : body (pre ++ [lineFeed]) = pre := by
        rw [body, if_pos List.getLast?_concat, List.dropLast_concat]
      have hstart : (pre ++ [lineFeed] ++ y).length -
          (behindLast (n + 1) pre.reverse [] ++ lineFeed :: y).length =
            pre.length - (behindLast (n + 1) pre.reverse []).length := by
        simp only [List.length_append, List.length_cons, List.length_nil]
        omega
      rw [behindLast_feed, hstart, tailBytes_succ, hpre', List.drop_append_of_le_length]
      simp only [List.length_append, List.length_cons, List.length_nil]
      omega

/-- **Walking backwards finds the last lines.** -/
theorem tailBytes_eq (bs : Bytes) (n : Nat) :
    tailBytes bs n = ((cutAfter lineFeed bs).rtake n).flatten := by
  induction bs using Lines.lines_induction lineFeed generalizing n with
  | nil =>
    have hnone : cutAfter lineFeed ([] : Bytes) = [] := rfl
    rw [hnone, List.rtake_nil, tailBytes]
    split <;> simp
  | line pre l hpre hl ih =>
    rw [Lines.cutAfter_append_line hpre hl]
    cases n with
    | zero => simp [tailBytes]
    | succ n =>
      rw [List.rtake_concat_succ, List.flatten_append, ← ih, List.flatten_singleton,
        tailBytes_append_line hpre hl]

theorem rtake_map {α β : Type} (f : α → β) (as : List α) (n : Nat) :
    (as.map f).rtake n = (as.rtake n).map f := by
  rw [List.rtake, List.rtake, List.length_map, List.map_drop]

theorem rtake_suffix_rtake {α : Type} (as : List α) {m n : Nat} (h : m ≤ n) :
    as.rtake m <:+ as.rtake n := by
  have hle : as.length - m = (as.length - n) + (as.length - m - (as.length - n)) := by omega
  rw [List.rtake, hle, ← List.drop_drop]
  exact List.drop_suffix ..

theorem flatten_suffix {α : Type} {ls ms : List (List α)} (h : ls <:+ ms) :
    ls.flatten <:+ ms.flatten := by
  obtain ⟨front, rfl⟩ := h
  exact ⟨front.flatten, List.flatten_append.symm⟩

/-- The last lines may be decoded together or one by one. -/
theorem tail_eq (t : Transcript) (n : Nat) : t.tail n =
    String.ofList ((cutAfter '\n' (Utf8.decodeLossy t.bytes)).rtake n).flatten := by
  have hlast : (cutAfter lineFeed t.bytes).rtake n <:+ cutAfter lineFeed t.bytes :=
    List.drop_suffix ..
  have hdecoded := Utf8.cutAfter_decodeLossy ((cutAfter lineFeed t.bytes).rtake n).flatten
  rw [Lines.cutAfter_flatten hlast] at hdecoded
  rw [tail, Utf8.lossyString, tailBytes_eq, Utf8.cutAfter_decodeLossy, rtake_map, ← hdecoded]
  exact congrArg String.ofList (List.flatten_splitBy _ _).symm

/-- **The tail of a transcript is the text of its last lines.** It is what the last lines of the
    whole text make up, when that is decoded first and then cut behind every line feed. So the lines
    may be taken before they are decoded; the tail has as many lines as were asked for, or as there
    are; and a shorter tail is the end of a longer one. -/
theorem tail_last_lines (t : Transcript) (n : Nat) :
    let lines := cutAfter '\n' (Utf8.decodeLossy t.bytes)
    t.tail n = String.ofList (lines.rtake n).flatten ∧
      lines.rtake n = ((cutAfter lineFeed t.bytes).rtake n).map Utf8.decodeLossy ∧
      cutAfter '\n' (t.tail n).toList = lines.rtake n ∧
      (cutAfter '\n' (t.tail n).toList).length = min n lines.length ∧
      ∀ m ≤ n, (t.tail m).toList <:+ (t.tail n).toList := by
  intro lines
  have hlines : cutAfter '\n' (t.tail n).toList = lines.rtake n := by
    rw [tail_eq, String.toList_ofList]
    exact Lines.cutAfter_flatten (List.drop_suffix ..)
  refine ⟨tail_eq t n, ?_, hlines, by rw [hlines, length_rtake], fun m hm => ?_⟩
  · rw [← rtake_map, ← Utf8.cutAfter_decodeLossy]
  · rw [tail_eq, tail_eq, String.toList_ofList, String.toList_ofList]
    exact flatten_suffix (rtake_suffix_rtake _ hm)

/-- A transcript that begins inside a character, with a byte that is no text, an empty line and a
    line that is still open. -/
theorem tail_last_lines_severed :
    let t : Transcript := ⟨9, [0xA9, 0x61, 10, 10, 0x62, 0xFF, 10, 0xE2, 0x82]⟩
    t.tail 2 = "b\uFFFD\n\uFFFD" ∧ 1 ≤ 2 ∧ (t.tail 1).toList <:+ (t.tail 2).toList := by
  intro t
  obtain ⟨htail, -, -, -, hsuffix⟩ := tail_last_lines t 2
  refine ⟨?_, by decide, hsuffix 1 (by decide)⟩
  rw [htail]
  rfl

end Transcript

end AgentSupervisor
