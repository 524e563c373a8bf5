import Mathlib.Data.List.Sort
import AgentSupervisor.Proofs.InboxFiles
import AgentSupervisor.Proofs.InboxLog
import AgentSupervisor.Proofs.InboxNames

/-!
# The inboxes of a directory

A listing names each inbox that has a log, and only those, in the order of the bytes of their names.

* `Disk.mem_namesIn`          : which names a directory has;
* `Disk.Edits.namesIn_nodup`  : a directory keeps having each name once;
* `InboxStore.mem_inboxes`    : which inboxes are listed;
* `InboxStore.inboxes_congr`  : two disks with the same logs have the same listing;
* `InboxStore.list_congr`     : what leaves a listing as it is;
* `InboxStore.inboxes_bytes`  : the order of a listing.
-/

namespace AgentSupervisor

/-! ## Names in a directory -/

namespace Disk

variable {d d' : Disk} {dir : Place} {ps : List Place} {n : String}

/-- The names of what stands in a directory. -/
def namesIn (d : Disk) (dir : Place) : List String := d.entries.filterMap (nameIn dir)

theorem nameIn_eq_some {e : Place × Entry} : nameIn dir e = some n ↔ e.1 = dir ++ [n] := by
  obtain ⟨p, e⟩ := e
  unfold nameIn
  rcases List.eq_nil_or_concat p with rfl | ⟨q, m, rfl⟩
  · simp
  · simp only [List.concat_eq_append, List.getLast?_append, List.getLast?_singleton,
      Option.some_or, List.dropLast_concat]
    split
    · rename_i hq
      rw [hq, Option.some_inj, List.append_cancel_left_eq, List.singleton_inj]
    · rename_i hq
      refine iff_of_false (by simp) fun h => hq (List.append_inj' h rfl).1

theorem list_eq_ok {names : List String} :
    d.list dir = .ok names ↔ d.IsDir dir ∧ names = d.namesIn dir := by
  unfold list
  cases hf : d.find dir with
  | error e => simp [IsDir, hf, bind, Except.bind]
  | ok e =>
    cases e with
    | none => simp [IsDir, hf, bind, Except.bind]
    | some e =>
      cases e with
      | directory => simp [IsDir, hf, bind, Except.bind, namesIn, eq_comm]
      | file | socket | link => simp [IsDir, hf, bind, Except.bind]

theorem list_of_not_isDir (h : ¬ d.IsDir dir) (hf : d'.find dir = d.find dir) :
    d'.list dir = d.list dir := by
  rw [list, list, hf]
  rw [IsDir] at h
  cases hfind : d.find dir with
  | error e => rfl
  | ok e =>
    cases e with
    | none => rfl
    | some e =>
      cases e with
      | directory => exact absurd hfind h
      | file | socket | link => rfl

/-- **A directory has the name of each thing that stands in it.** -/
theorem mem_namesIn : n ∈ d.namesIn dir ↔ d.at? (dir ++ [n]) ≠ none := by
  rw [at?, if_neg (child_ne_nil dir n), ne_eq, List.lookup_eq_none_iff, namesIn,
    List.mem_filterMap]
  simp only [nameIn_eq_some, not_forall, bne_iff_ne, ne_eq, not_not]
  constructor
  · rintro ⟨e, he, hp⟩
    exact ⟨e, he, hp.symm⟩
  · rintro ⟨e, he, hp⟩
    exact ⟨e, he, hp.symm⟩

theorem namesIn_erase (d : Disk) (dir : Place) (n : String) :
    (d.erase (dir ++ [n])).namesIn dir = (d.namesIn dir).filter (· ≠ n) := by
  rw [namesIn, namesIn, erase, List.filter_filterMap, List.filterMap_filter]
  refine List.filterMap_congr fun e _ => ?_
  cases hn : nameIn dir e with
  | none => simp
  | some m =>
    have he := nameIn_eq_some.mp hn
    by_cases hm : m = n
    · subst hm
      simp [he, Option.filter]
    · simp [he, hm, Option.filter]

theorem namesIn_put (d : Disk) (dir : Place) (n : String) (e : Entry) :
    (d.put (dir ++ [n]) e).namesIn dir = n :: (d.namesIn dir).filter (· ≠ n) := by
  rw [← namesIn_erase, namesIn, put, List.filterMap_cons, nameIn_eq_some.mpr rfl]
  rfl

namespace Edits

/-- What is put into a directory or taken away from it leaves the directory. -/
theorem isDir (h : Edits ps d d') (hps : ∀ p ∈ ps, ∃ n, p = dir ++ [n]) (hd : d.IsDir dir) :
    d'.IsDir dir := by
  refine Eq.trans (h.find fun p hp => ?_) hd
  obtain ⟨n, rfl⟩ := hps p hp
  exact not_prefix_parent dir n

/-- **A directory keeps having each name once.** -/
theorem namesIn_nodup (h : Edits ps d d') (hps : ∀ p ∈ ps, ∃ n, p = dir ++ [n])
    (hd : (d.namesIn dir).Nodup) : (d'.namesIn dir).Nodup := by
  induction h with
  | refl => exact hd
  | put _ hp e ih =>
    obtain ⟨n, rfl⟩ := hps _ hp
    rw [namesIn_put]
    exact List.nodup_cons.mpr ⟨by simp, ih.filter _⟩
  | erase _ hp ih =>
    obtain ⟨n, rfl⟩ := hps _ hp
    rw [namesIn_erase]
    exact ih.filter _

end Edits

end Disk

/-! ## Inboxes -/

namespace InboxStore

open Utf8 (encode encodeChars)

variable {s : InboxStore} {d d' : Disk} {inbox : InboxId} {n : String}

/-- **A name is that of a log of one inbox, or of none.** -/
theorem inboxOfName?_eq_some : inboxOfName? n = some inbox ↔ n = logName inbox := by
  have hlog : (logName inbox).toList = inbox.text.toList ++ ".jsonl".toList :=
    String.toList_append
  rw [← String.toList_inj, hlog, inboxOfName?]
  simp only [List.isSuffixOf_iff_suffix]
  constructor
  · intro h
    split at h
    · rename_i hsuffix
      obtain ⟨t, ht⟩ := hsuffix
      cases h
      rw [← ht, List.length_append, Nat.add_sub_cancel, List.take_left]
      exact congrArg (· ++ _) String.toList_ofList.symm
    · cases h
  · intro h
    rw [h, if_pos (List.suffix_append _ _), List.length_append, Nat.add_sub_cancel,
      List.take_left, String.ofList_toList]

/-- The name of a lock or of a draft is that of no log. -/
theorem inboxOfName?_lockName (inbox : InboxId) : inboxOfName? (lockName inbox) = none := by
  refine Option.eq_none_iff_forall_not_mem.mpr fun other h => ?_
  have hends := (append_ending_inj (a := inbox) (b := other) (x := ".lock") (y := ".jsonl")
    (by decide) (by decide) (inboxOfName?_eq_some.mp h)).2
  exact absurd hends (by decide)

theorem inboxOfName?_draftName (inbox : InboxId) : inboxOfName? (draftName inbox) = none := by
  refine Option.eq_none_iff_forall_not_mem.mpr fun other h => ?_
  have hname := inboxOfName?_eq_some.mp h
  rw [draftName_eq] at hname
  have hends := (append_ending_inj (a := inbox) (b := other) (by decide) (by decide) hname).2
  exact absurd hends (by decide)

/-- The inboxes whose logs stand in the directory, sorted by name. -/
def inboxes (s : InboxStore) (d : Disk) : List InboxId :=
  ((d.namesIn s.dir).filterMap inboxOfName?).mergeSort fun a b => a.text ≤ b.text

theorem list_eq (h : d.IsDir s.dir) : s.list d = .ok (s.inboxes d) := by
  rw [list, Disk.list_eq_ok.mpr ⟨h, rfl⟩]
  rfl

/-- **The inboxes that are listed** are those that have a log. -/
theorem mem_inboxes : inbox ∈ s.inboxes d ↔ d.at? (s.logPlace inbox) ≠ none := by
  rw [inboxes, List.mem_mergeSort, List.mem_filterMap, logPlace, ← Disk.mem_namesIn]
  simp only [inboxOfName?_eq_some, exists_eq_right]

theorem inboxes_nodup (h : (d.namesIn s.dir).Nodup) : (s.inboxes d).Nodup := by
  refine (List.mergeSort_perm _ _).nodup_iff.mpr (h.filterMap fun m n inbox hm hn => ?_)
  rw [inboxOfName?_eq_some.mp hm, inboxOfName?_eq_some.mp hn]

theorem inboxes_sorted (s : InboxStore) (d : Disk) :
    (s.inboxes d).Pairwise fun a b => a.text ≤ b.text := by
  have h : (s.inboxes d).Pairwise fun a b => decide (a.text ≤ b.text) = true :=
    List.pairwise_mergeSort (fun a b c => by simpa using String.le_trans)
      (fun a b => by simpa using String.le_total _ _) _
  exact h.imp of_decide_eq_true

/-- **Two disks with the same logs have the same listing.** -/
theorem inboxes_congr (h : (d.namesIn s.dir).Nodup) (h' : (d'.namesIn s.dir).Nodup)
    (hlogs : ∀ inbox, d'.at? (s.logPlace inbox) ≠ none ↔ d.at? (s.logPlace inbox) ≠ none) :
    s.inboxes d' = s.inboxes d := by
  refine List.Perm.eq_of_pairwise (fun a b _ _ hab hba => ?_) (s.inboxes_sorted d')
    (s.inboxes_sorted d) ?_
  · exact congrArg InboxId.mk (String.le_antisymm hab hba)
  · refine (List.perm_ext_iff_of_nodup (inboxes_nodup h') (inboxes_nodup h)).mpr fun inbox => ?_
    rw [mem_inboxes, mem_inboxes, hlogs]

/-! ## Logs that are there -/

/-- A log that has bytes is there. -/
theorem at?_of_log {log : Bytes} (h : d.IsDir s.dir) (hlog : s.log d inbox = .ok log)
    (hne : log ≠ []) : d.at? (s.logPlace inbox) ≠ none := by
  intro hnone
  rw [InboxStore.log, logPlace] at hlog
  rw [logPlace] at hnone
  by_cases hlong : Disk.maxName < (logName inbox).utf8ByteSize
  · rw [Disk.read_tooLong h hlong] at hlog
    cases hlog
  · rw [Disk.read_child h (by omega) (.inl hnone), hnone] at hlog
    cases hlog
    exact hne rfl

/-- A log with messages is there. -/
theorem at?_of_messages {snapshot : Snapshot} (h : d.IsDir s.dir)
    (hread : s.snapshot d inbox = .ok snapshot) (hne : snapshot.messages ≠ []) :
    d.at? (s.logPlace inbox) ≠ none := by
  obtain ⟨log, hlog, hsnap⟩ := snapshot_eq_ok hread
  refine at?_of_log h hlog ?_
  rintro rfl
  cases hsnap
  exact hne rfl

/-- After a change the log is there, unless it was not there and nothing was changed. -/
theorem change_logged {c : Change} (h : s.change d inbox c = .ok d') :
    d'.at? (s.logPlace inbox) ≠ none ↔ d.at? (s.logPlace inbox) ≠ none ∨ c ≠ .keep := by
  have hnil : s.logPlace inbox ≠ [] := Disk.child_ne_nil _ _
  have hput (x : Disk) (e : Entry) : (x.put (s.logPlace inbox) e).at? (s.logPlace inbox) ≠ none := by
    rw [Disk.at?_put _ _ _ _ hnil, if_pos rfl]
    exact Option.some_ne_none e
  cases c with
  | keep =>
    cases h
    simp
  | append r =>
    obtain ⟨e, -, -, rfl⟩ := Disk.modify_ok (f := fun log => Change.apply log (.append r)) h
    simp [hput]
  | replace kept =>
    obtain ⟨draft, -, hr⟩ := change_replace_ok.mp h
    obtain ⟨e, there, -, -, rfl⟩ := Disk.rename_ok hr
    simp [hput]

/-- **What does not make or lose the log of its inbox** does not change the listing. -/
theorem list_congr (h : Disk.Edits (s.places inbox) d d')
    (honce : ∀ names, d.list s.dir = .ok names → names.Nodup)
    (hlog : d.IsDir s.dir →
      (d'.at? (s.logPlace inbox) ≠ none ↔ d.at? (s.logPlace inbox) ≠ none)) :
    s.list d' = s.list d := by
  have hplaces : ∀ p ∈ s.places inbox, ∃ n, p = s.dir ++ [n] := fun p hp => exists_of_mem_places hp
  by_cases hdir : d.IsDir s.dir
  · have hnodup := honce _ (Disk.list_eq_ok.mpr ⟨hdir, rfl⟩)
    rw [list_eq hdir, list_eq (h.isDir hplaces hdir),
      inboxes_congr hnodup (h.namesIn_nodup hplaces hnodup)]
    intro other
    by_cases hother : other = inbox
    · rw [hother]
      exact hlog hdir
    · rw [h.at? (fun p hp => ne_nil_of_mem hp) fun hmem => hother (logPlace_mem_places.mp hmem)]
  · have hfind : d'.find s.dir = d.find s.dir := h.find fun p hp => by
      obtain ⟨n, rfl⟩ := hplaces p hp
      exact Disk.not_prefix_parent s.dir n
    rw [list, list, Disk.list_of_not_isDir hdir hfind]

/-! ## Order -/

/-- ASCII characters are ordered as their bytes are. -/
theorem encodeChars_lt {cs ds : List Char} (hcs : ∀ c ∈ cs, c.toNat < 0x80)
    (hds : ∀ c ∈ ds, c.toNat < 0x80) (h : cs < ds) : encodeChars cs < encodeChars ds := by
  have hlex : List.Lex (· < ·) cs ds := h
  show List.Lex (· < ·) (encodeChars cs) (encodeChars ds)
  induction hlex with
  | @nil d ds =>
    obtain ⟨b, bs, hb⟩ := List.exists_cons_of_ne_nil (Utf8.encodeChar_ne_nil d)
    rw [Utf8.encodeChars_cons, hb]
    exact .nil
  | @cons c cs ds _ ih =>
    rw [Utf8.encodeChars_cons, Utf8.encodeChars_cons, Utf8.encodeChar_ascii (hcs c (by simp))]
    exact .cons (ih (fun c hc => hcs c (List.mem_cons_of_mem _ hc))
      (fun d hd => hds d (List.mem_cons_of_mem _ hd)) ‹_›)
  | @rel c cs d ds hlt =>
    have hc := hcs c (by simp)
    have hd := hds d (by simp)
    rw [Utf8.encodeChars_cons, Utf8.encodeChars_cons, Utf8.encodeChar_ascii hc,
      Utf8.encodeChar_ascii hd]
    refine .rel ?_
    rw [UInt8.lt_iff_toNat_lt, Utf8.toNat_toUInt8 (by omega), Utf8.toNat_toUInt8 (by omega)]
    exact hlt

/-- **The order of a listing** is that of the bytes of the names, and no name comes twice. -/
theorem inboxes_bytes (h : (d.namesIn s.dir).Nodup)
    (hnames : ∀ inbox ∈ s.inboxes d, ∃ name, inbox = InboxId.ofName name) :
    (s.inboxes d).Pairwise fun a b => encode a.text < encode b.text := by
  have hascii : ∀ inbox ∈ s.inboxes d, ∀ c ∈ inbox.text.toList, c.toNat < 0x80 := by
    intro inbox hinbox c hc
    obtain ⟨name, rfl⟩ := hnames inbox hinbox
    have := InboxId.toNat_of_isPlain ((InboxId.canonical_ofName name).plain c hc)
    omega
  refine ((s.inboxes_sorted d).and (inboxes_nodup h)).imp_of_mem fun ha hb hab => ?_
  refine encodeChars_lt (hascii _ ha) (hascii _ hb) (String.lt_iff.mp ?_)
  exact String.not_le.mp fun hba =>
    hab.2 (congrArg InboxId.mk (String.le_antisymm hab.1 hba))

end InboxStore

end AgentSupervisor
