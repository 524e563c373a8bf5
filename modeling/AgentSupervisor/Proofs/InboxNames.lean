import AgentSupervisor.Inbox.Store
import AgentSupervisor.Proofs.Paths
import Mathlib.Data.List.TakeWhile

/-!
# Names of inboxes

Every name leads to an inbox whose own name is canonical, and canonical names lead to themselves.
How a name is spelled does not matter: blanks around it may come and go, and the name of the inbox
may stand in its place.

* `Text.trimChars_pad`       : blanks around a text are trimmed away;
* `InboxId.canonical_iff`    : the canonical names are those that lead to themselves;
* `InboxId.ofName_of_spells` : spellings of one name lead to one inbox;
* `InboxId.staysIn_fileNames`: the files of an inbox stay in the directories they are put into.
-/

namespace AgentSupervisor

/-! ## Blanks around a text -/

namespace Text

theorem trimFront_eq_nil {cs : List Char} : trimFront cs = [] ↔ ∀ c ∈ cs, isBlank c = true :=
  List.dropWhile_eq_nil_iff

/-- Blanks in front are trimmed away. -/
theorem trimFront_pad {a : List Char} (ha : ∀ c ∈ a, isBlank c = true) (cs : List Char) :
    trimFront (a ++ cs) = trimFront cs := by
  induction a with
  | nil => rfl
  | cons c a ih =>
    rw [List.forall_mem_cons] at ha
    rw [List.cons_append, trimFront, List.dropWhile_cons, if_pos ha.1]
    exact ih ha.2

theorem trimBack_pad {b : List Char} (hb : ∀ c ∈ b, isBlank c = true) (cs : List Char) :
    trimBack (cs ++ b) = trimBack cs := by
  have hfront := trimFront_pad (a := b.reverse) (fun c hc => hb c (List.mem_reverse.mp hc))
    cs.reverse
  rw [trimBack, List.reverse_append]
  exact congrArg List.reverse hfront

/-- **Blanks around a text** are trimmed away. -/
theorem trimChars_pad {a b : List Char} (ha : ∀ c ∈ a, isBlank c = true)
    (hb : ∀ c ∈ b, isBlank c = true) (cs : List Char) :
    trimChars (a ++ cs ++ b) = trimChars cs := by
  rw [trimChars, trimChars, List.append_assoc, trimFront_pad ha]
  cases h : trimFront cs with
  | nil =>
    have hall : trimFront (cs ++ b) = [] := by
      rw [trimFront_eq_nil] at h ⊢
      intro c hc
      rcases List.mem_append.mp hc with hc | hc
      · exact h c hc
      · exact hb c hc
    rw [hall]
  | cons c r =>
    have hfront : trimFront (cs ++ b) = trimFront cs ++ b := by
      have hne : trimFront cs ≠ [] := by simp [h]
      rw [trimFront, List.dropWhile_append, if_neg]
      · rfl
      · rw [List.isEmpty_iff]
        exact hne
    rw [hfront, h, trimBack_pad hb]

theorem trimChars_eq_self {cs : List Char} (h : ∀ c ∈ cs, isBlank c = false) :
    trimChars cs = cs := by
  have hfront : trimFront cs = cs := trimFront_eq_self fun c r hc => h c (by simp [hc])
  have hback : trimFront cs.reverse = cs.reverse :=
    trimFront_eq_self fun c r hc => h c (List.mem_reverse.mp (by simp [hc]))
  rw [trimChars, hfront, trimBack]
  rw [trimFront] at hback
  rw [hback, List.reverse_reverse]

end Text

/-! ## Canonical names -/

namespace InboxId

variable {cs : List Char} {name text : String}

theorem toNat_of_isPlain {c : Char} (h : isPlain c = true) : 45 ≤ c.toNat ∧ c.toNat ≤ 122 := by
  have hle (a b : Char) : a ≤ b ↔ a.toNat ≤ b.toNat := by
    rw [Char.le_def, UInt32.le_iff_toNat_le]
    rfl
  have hA : 'A'.toNat = 65 := rfl
  have hZ : 'Z'.toNat = 90 := rfl
  have ha : 'a'.toNat = 97 := rfl
  have hz : 'z'.toNat = 122 := rfl
  have h0 : '0'.toNat = 48 := rfl
  have h9 : '9'.toNat = 57 := rfl
  simp only [isPlain, Bool.or_eq_true, Bool.and_eq_true, decide_eq_true_eq, beq_iff_eq, hle] at h
  rcases h with ((((h | h) | h) | rfl) | rfl) | rfl
  · omega
  · omega
  · omega
  · decide
  · decide
  · decide

theorem isBlank_of_isPlain {c : Char} (h : isPlain c = true) : Text.isBlank c = false := by
  obtain ⟨hlow, hhigh⟩ := toNat_of_isPlain h
  simp only [Text.isBlank, Bool.or_eq_false_iff, Bool.and_eq_false_iff, decide_eq_false_iff_not,
    beq_eq_false_iff_ne]
  omega

theorem hideDots_eq_self (h : cs.head? ≠ some '.') : hideDots cs = cs := by
  cases cs with
  | nil => rfl
  | cons c r =>
    have hc : c ≠ '.' := fun e => h (by rw [e]; rfl)
    simp [hideDots, hc]

/-- **Canonical names lead to themselves.** -/
theorem Canonical.ofNameChars (h : Canonical cs) : ofNameChars cs = cs := by
  have htrim : Text.trimChars cs = cs :=
    Text.trimChars_eq_self fun c hc => isBlank_of_isPlain (h.plain c hc)
  have hmap : cs.map plainChar = cs := by
    refine (List.map_congr_left fun c hc => ?_).trans (List.map_id cs)
    rw [plainChar, if_pos (h.plain c hc), id]
  rw [InboxId.ofNameChars, htrim, hmap, hideDots_eq_self h.undotted]
  have hne := h.nonempty
  simp [hne]

theorem canonical_iff : Canonical cs ↔ ofNameChars cs = cs :=
  ⟨Canonical.ofNameChars, fun h => h ▸ canonical_ofNameChars cs⟩

theorem canonical_ofName (name : String) : Canonical (ofName name).text.toList := by
  rw [ofName, String.toList_ofList]
  exact canonical_ofNameChars _

theorem ofName_eq_self : ofName text = ⟨text⟩ ↔ Canonical text.toList := by
  rw [canonical_iff, ofName, InboxId.mk.injEq, ← String.toList_inj, String.toList_ofList]

/-! ## Spellings -/

/-- A spelling of a name: other blanks are around it, or the name of its inbox is in its place. -/
def Spells (text name : String) : Prop :=
  Text.trimChars text.toList = Text.trimChars name.toList ∨
    Text.trimChars text.toList = (ofName name).text.toList

theorem ofNameChars_trim (cs : List Char) : ofNameChars (Text.trimChars cs) = ofNameChars cs := by
  rw [ofNameChars, Text.trimChars_idem, ofNameChars]

/-- **Spellings of one name** lead to one inbox. -/
theorem ofName_of_spells (h : Spells text name) : ofName text = ofName name := by
  have hchars : ofNameChars text.toList = ofNameChars name.toList := by
    rcases h with h | h
    · rw [← ofNameChars_trim, h, ofNameChars_trim]
    · rw [← ofNameChars_trim, h, (canonical_ofName name).ofNameChars, ofName,
        String.toList_ofList]
  rw [ofName, ofName, hchars]

theorem spells_pad {a b : String} (ha : Text.isBlankString a = true)
    (hb : Text.isBlankString b = true) (name : String) : Spells (a ++ name ++ b) name := by
  refine .inl ?_
  rw [String.toList_append, String.toList_append]
  exact Text.trimChars_pad (List.all_eq_true.mp ha) (List.all_eq_true.mp hb) _

theorem spells_ofName (name : String) : Spells (ofName name).text name := by
  refine .inr (Text.trimChars_eq_self fun c hc => ?_)
  exact isBlank_of_isPlain ((canonical_ofName name).plain c hc)

/-! ## Files of an inbox -/

/-- The name of a file that stays in the directory that it is put into, and is not hidden there. -/
structure StaysIn (file : String) : Prop where
  isName : Path.IsName file
  shown : file.toList.head? ≠ some '.'
  place : ∀ p dir, Place.ofPath p (Path.join dir file) = Place.ofPath p dir ++ [file]

/-- **A canonical name with an ending** is one name of a path, and not a hidden one. -/
theorem Canonical.staysIn (h : Canonical text.toList) {ending : String}
    (he : '/' ∉ ending.toList) : StaysIn (text ++ ending) := by
  have hchars : (text ++ ending).toList = text.toList ++ ending.toList := String.toList_append
  have hshown : (text ++ ending).toList.head? ≠ some '.' := by
    obtain ⟨c, cs, hc⟩ := List.exists_cons_of_ne_nil h.nonempty
    have hundotted := h.undotted
    rw [hc] at hundotted
    rw [hchars, hc]
    exact hundotted
  have hname : Path.IsName (text ++ ending) := by
    refine ⟨?_, ?_, fun hdot => ?_, fun hdots => ?_⟩
    · rw [hchars, List.mem_append, not_or]
      exact ⟨fun hmem => absurd (h.plain '/' hmem) (by decide), he⟩
    · rw [hchars]
      simp [h.nonempty]
    · rw [hdot] at hshown
      exact hshown rfl
    · rw [hdots] at hshown
      exact hshown rfl
  exact ⟨hname, hshown, fun p dir => Place.ofPath_join p dir hname⟩

/-- The names of the files that belong to an inbox: its log, its lock, the draft of a new log, and
    the PID file of its session. -/
def fileNames (inbox : InboxId) : List String :=
  [InboxStore.logName inbox, InboxStore.lockName inbox, InboxStore.draftName inbox,
    StateDir.pidFileName inbox]

theorem staysIn_fileNames (name : String) : ∀ file ∈ fileNames (ofName name), StaysIn file := by
  have h := canonical_ofName name
  have hdraft : InboxStore.draftName (ofName name) = (ofName name).text ++ (".jsonl" ++ ".tmp") :=
    String.append_assoc
  simp only [fileNames, List.forall_mem_cons, List.not_mem_nil, false_imp_iff, implies_true,
    and_true]
  refine ⟨h.staysIn (by decide), h.staysIn (by decide), ?_, h.staysIn (by decide)⟩
  rw [hdraft]
  exact h.staysIn (by decide)

end InboxId

end AgentSupervisor
