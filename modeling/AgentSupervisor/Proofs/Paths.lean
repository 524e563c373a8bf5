import AgentSupervisor.Files.Disk
import AgentSupervisor.Session.Basic

/-!
# Places of paths

Where the files of a session are on a disk.

* `Place.ofPath_join`      : a name below a directory is one step down from its place;
* `StateDir.place_pidFile` : the PID files of all inboxes stand side by side in one directory;
* `StateDir.pidFile_inj`   : inboxes of their own have PID files of their own.
-/

namespace AgentSupervisor

/-! ## Names of paths -/

namespace Path

theorem splitFrom_append (current a b : List Char) :
    splitFrom current (a ++ '/' :: b) = splitFrom current a ++ splitFrom [] b := by
  induction a generalizing current with
  | nil => simp [splitFrom]
  | cons c a ih =>
    by_cases hc : c = '/'
    · simp [splitFrom, hc, ih]
    · simp [splitFrom, hc, ih]

theorem names_append (a b : List Char) : names (a ++ '/' :: b) = names a ++ names b := by
  rw [names, splitFrom_append, List.filter_append]
  rfl

theorem splitFrom_of_not_mem {cs : List Char} (h : '/' ∉ cs) (current : List Char) :
    splitFrom current cs = [current.reverse ++ cs] := by
  induction cs generalizing current with
  | nil => rw [splitFrom, List.append_nil]
  | cons c cs ih =>
    have hc : c ≠ '/' := fun e => h (by simp [e])
    have hcs : '/' ∉ cs := fun e => h (List.mem_cons_of_mem c e)
    rw [splitFrom, if_neg hc, ih hcs, List.reverse_cons, List.append_assoc]
    rfl

/-- A name that stands for one step down. -/
structure IsName (name : String) : Prop where
  slash : '/' ∉ name.toList
  nonempty : name.toList ≠ []
  dot : name.toList ≠ ['.']
  dots : name.toList ≠ ['.', '.']

theorem IsName.names {name : String} (h : IsName name) :
    names name.toList = [name.toList] := by
  rw [Path.names, splitFrom_of_not_mem h.slash]
  simp [h.nonempty, h.dot]

theorem IsName.not_absolute {name : String} (h : IsName name) : isAbsolute name = false := by
  unfold isAbsolute
  cases hn : name.toList with
  | nil => exact absurd hn h.nonempty
  | cons c cs =>
    have hc : c ≠ '/' := fun e => h.slash (by rw [hn, e]; simp)
    simpa using hc

/-- Joining a name to a path adds it to the names of the path. -/
theorem names_join {dir name : String} (h : IsName name) :
    names (join dir name).toList = names dir.toList ++ [name.toList] := by
  unfold join
  rw [h.not_absolute, Bool.false_or]
  split
  · rename_i hempty
    have hdir : dir.toList = [] := by simpa using hempty
    rw [hdir, h.names]
    rfl
  · split
    · rename_i hslash
      obtain ⟨a, ha⟩ : ∃ a, dir.toList = a ++ ['/'] :=
        List.getLast?_eq_some_iff.mp (beq_iff_eq.mp hslash)
      rw [String.toList_append, ha, List.append_assoc, List.singleton_append, names_append,
        names_append, h.names]
      simp [names, splitFrom]
    · rw [String.toList_append, String.toList_append, List.append_assoc]
      show Path.names (dir.toList ++ '/' :: name.toList) = _
      rw [names_append, h.names]

theorem isAbsolute_join {dir name : String} (h : IsName name) :
    isAbsolute (join dir name) = isAbsolute dir := by
  unfold join
  rw [h.not_absolute, Bool.false_or]
  have hhead {t : String} (hne : dir.toList ≠ []) : isAbsolute (dir ++ t) = isAbsolute dir := by
    obtain ⟨c, cs, hc⟩ := List.exists_cons_of_ne_nil hne
    rw [isAbsolute, isAbsolute, String.toList_append, hc]
    rfl
  split
  · rename_i hempty
    have hdir : dir.toList = [] := by simpa using hempty
    rw [h.not_absolute, isAbsolute, hdir]
    rfl
  · rename_i hne
    have hdir : dir.toList ≠ [] := fun e => hne (by simpa using e)
    split
    · exact hhead hdir
    · rw [String.append_assoc]
      exact hhead hdir

end Path

/-- **A name below a directory** is one step down from the place of the directory. -/
theorem Place.ofPath_join (p : Place) (dir : String) {name : String} (h : Path.IsName name) :
    Place.ofPath p (Path.join dir name) = Place.ofPath p dir ++ [name] := by
  rw [ofPath, Path.isAbsolute_join h, Path.names_join h, List.foldl_append, ← ofPath,
    List.foldl_cons, List.foldl_nil, follow, if_neg h.dots, String.ofList_toList]

/-! ## Files of sessions -/

theorem InboxId.slash_not_mem (name : String) : '/' ∉ (ofName name).text.toList := by
  intro hmem
  rw [ofName, String.toList_ofList] at hmem
  exact absurd ((canonical_ofNameChars name.toList).plain '/' hmem) (by decide)

namespace StateDir

/-- The name of a PID file is one name. -/
theorem isName_pidFileName {inbox : InboxId} (h : '/' ∉ inbox.text.toList) :
    Path.IsName (pidFileName inbox) := by
  have hlist : (pidFileName inbox).toList = inbox.text.toList ++ ['.', 'p', 'i', 'd'] := by
    rw [pidFileName, String.toList_append]
    rfl
  have hlen : 4 ≤ (pidFileName inbox).toList.length := by
    rw [hlist, List.length_append]
    exact Nat.le_add_left 4 _
  refine ⟨?_, ?_, ?_, ?_⟩
  · rw [hlist]
    simp [h]
  all_goals
    intro heq
    rw [heq] at hlen
    exact absurd hlen (by decide)

theorem isName_pids : Path.IsName "pids" := ⟨by decide, by decide, by decide, by decide⟩

theorem isName_inbox : Path.IsName "inbox" := ⟨by decide, by decide, by decide, by decide⟩

theorem pidFileName_inj {a b : InboxId} (h : pidFileName a = pidFileName b) : a = b := by
  have hlist := congrArg String.toList h
  rw [pidFileName, pidFileName, String.toList_append, String.toList_append] at hlist
  have htext := String.toList_inj.mp (List.append_cancel_right hlist)
  cases a
  cases b
  exact congrArg InboxId.mk htext

/-- **The PID files of all inboxes** stand side by side in one directory. -/
theorem place_pidFile (p : Place) (d : StateDir) {inbox : InboxId}
    (h : '/' ∉ inbox.text.toList) :
    Place.ofPath p (d.pidFile inbox) = Place.ofPath p d.pidDir ++ [pidFileName inbox] :=
  Place.ofPath_join p d.pidDir (isName_pidFileName h)

/-- **Inboxes of their own have PID files of their own.** -/
theorem pidFile_inj {d : StateDir} {a b : InboxId} (ha : '/' ∉ a.text.toList)
    (hb : '/' ∉ b.text.toList) (h : d.pidFile a = d.pidFile b) : a = b := by
  have hplace := congrArg (Place.ofPath []) h
  rw [place_pidFile [] d ha, place_pidFile [] d hb] at hplace
  exact pidFileName_inj (List.singleton_inj.mp (List.append_cancel_left hplace))

end StateDir

end AgentSupervisor
