import AgentSupervisor.Files.Disk

/-!
# Files in a directory

What the operations of a disk do to a file whose directory is there, and what they leave alone.

* `find_child`   : such a file is found when its name is not too long;
* `modify_child`, `rename_child` : what becomes of it;
* `IsDir.put`, `IsDir.erase`     : the directory stays where it is.
-/

namespace AgentSupervisor.Disk

variable {d d' : Disk} {dir : Place} {n : String}

/-! ## Places -/

theorem at?_erase (d : Disk) (p q : Place) (hp : p ≠ []) :
    (d.erase p).at? q = if q = p then none else d.at? q := by
  by_cases hq : q = p
  · subst hq
    have : (d.entries.filter fun e => e.1 != q).lookup q = none := by
      rw [List.lookup_eq_none_iff]
      intro e he
      have hne : e.1 ≠ q := bne_iff_ne.mp (List.mem_filter.mp he).2
      exact bne_iff_ne.mpr hne.symm
    rw [at?, if_neg hp, if_pos rfl, erase, this]
  · by_cases hn : q = []
    · simp [at?, hn, Ne.symm hp]
    · simp only [at?, hn, hq, erase, if_false]
      exact lookup_filter_ne hq _

/-- A regular file, or nothing. -/
def FileOrNone (e : Option Entry) : Prop := e = none ∨ ∃ bs, e = some (.file bs)

/-- The bytes of a file. One that is not there has none. -/
def contentOf : Option Entry → Bytes
  | some (.file bs) => bs
  | _ => []

/-- A place to which a way leads and where a directory stands. -/
def IsDir (d : Disk) (dir : Place) : Prop := d.find dir = .ok (some .directory)

/-! ## Walking -/

theorem walk_append (d : Disk) (at_ : Place) (ns : List String) (n : String) :
    d.walk at_ (ns ++ [n]) =
      match d.walk at_ ns with
      | .error e => .error e
      | .ok none => .error .notFound
      | .ok (some .directory) =>
        if maxName < n.utf8ByteSize then .error .nameTooLong
        else .ok (d.at? (at_ ++ ns ++ [n]))
      | .ok (some _) => .error .notADirectory := by
  induction ns generalizing at_ with
  | nil =>
    rw [List.nil_append, List.append_nil, walk, walk]
    rcases d.at? at_ with _ | e
    · rfl
    · cases e <;> rfl
  | cons m ns ih =>
    have happ : at_ ++ m :: ns ++ [n] = at_ ++ [m] ++ ns ++ [n] := by simp
    rw [List.cons_append, walk, walk, happ]
    rcases d.at? at_ with _ | e
    · rfl
    · cases e with
      | directory =>
        by_cases hm : maxName < m.utf8ByteSize
        · simp only [hm, if_true]
        · simp only [hm, if_false]
          exact ih _
      | file _ => rfl
      | socket _ => rfl
      | link _ => rfl

/-- A walk looks at the places on its way only. -/
theorem walk_congr {at_ : Place} {ns : List String}
    (h : ∀ ms, ms <+: ns → d'.at? (at_ ++ ms) = d.at? (at_ ++ ms)) :
    d'.walk at_ ns = d.walk at_ ns := by
  induction ns generalizing at_ with
  | nil =>
    have := h [] List.nil_prefix
    rw [List.append_nil] at this
    rw [walk, walk, this]
  | cons n ns ih =>
    have hhere := h [] List.nil_prefix
    rw [List.append_nil] at hhere
    have hon : d'.walk (at_ ++ [n]) ns = d.walk (at_ ++ [n]) ns := by
      refine ih fun ms hms => ?_
      rw [List.append_assoc]
      exact h (n :: ms) (by simpa using hms)
    rw [walk, walk, hhere, hon]

theorem find_child (h : d.IsDir dir) (n : String) :
    d.find (dir ++ [n]) =
      if maxName < n.utf8ByteSize then .error .nameTooLong else .ok (d.at? (dir ++ [n])) := by
  have h' : d.walk [] dir = .ok (some .directory) := h
  rw [find, walk_append, h']
  rfl

theorem child_ne_nil (dir : Place) (n : String) : dir ++ [n] ≠ [] := by simp

theorem ne_child {q : Place} (h : q <+: dir) : q ≠ dir ++ [n] := by
  intro e
  have hlen : q.length ≤ dir.length := h.length_le
  rw [e, List.length_append, List.length_singleton] at hlen
  omega

theorem IsDir.put (h : d.IsDir dir) (n : String) (e : Entry) :
    (d.put (dir ++ [n]) e).IsDir dir := by
  rw [IsDir, find, ← h]
  refine walk_congr fun ms hms => ?_
  rw [at?_put _ _ _ _ (child_ne_nil dir n), List.nil_append, if_neg (ne_child hms)]

theorem IsDir.erase (h : d.IsDir dir) (n : String) : (d.erase (dir ++ [n])).IsDir dir := by
  rw [IsDir, find, ← h]
  refine walk_congr fun ms hms => ?_
  rw [at?_erase _ _ _ (child_ne_nil dir n), List.nil_append, if_neg (ne_child hms)]

/-! ## Files -/

theorem modify_child (h : d.IsDir dir) (hs : n.utf8ByteSize ≤ maxName)
    (hf : FileOrNone (d.at? (dir ++ [n]))) (f : Bytes → Bytes) :
    d.modify (dir ++ [n]) f =
      .ok (d.put (dir ++ [n]) (.file (f (contentOf (d.at? (dir ++ [n])))))) := by
  rw [modify, find_child h, if_neg (by omega)]
  rcases hf with h0 | ⟨bs, h0⟩ <;> rw [h0] <;> rfl

theorem modify_tooLong (h : d.IsDir dir) (hs : maxName < n.utf8ByteSize) (f : Bytes → Bytes) :
    d.modify (dir ++ [n]) f = .error .nameTooLong := by
  rw [modify, find_child h, if_pos hs]
  rfl

theorem read_child (h : d.IsDir dir) (hs : n.utf8ByteSize ≤ maxName)
    (hf : FileOrNone (d.at? (dir ++ [n]))) :
    d.read (dir ++ [n]) =
      match d.at? (dir ++ [n]) with
      | none => .error .notFound
      | some _ => .ok (contentOf (d.at? (dir ++ [n]))) := by
  rw [read, find_child h, if_neg (by omega)]
  rcases hf with h0 | ⟨bs, h0⟩ <;> rw [h0] <;> rfl

theorem read_tooLong (h : d.IsDir dir) (hs : maxName < n.utf8ByteSize) :
    d.read (dir ++ [n]) = .error .nameTooLong := by
  rw [read, find_child h, if_pos hs]
  rfl

theorem rename_child {m : String} {bs : Bytes} (h : d.IsDir dir) (hn : n.utf8ByteSize ≤ maxName)
    (hm : m.utf8ByteSize ≤ maxName) (hat : d.at? (dir ++ [n]) = some (.file bs))
    (hf : FileOrNone (d.at? (dir ++ [m]))) :
    d.rename (dir ++ [n]) (dir ++ [m]) =
      .ok ((d.erase (dir ++ [n])).put (dir ++ [m]) (.file bs)) := by
  rw [rename, find_child h, find_child h, if_neg (by omega), if_neg (by omega), hat]
  rcases hf with h0 | ⟨_, h0⟩ <;> rw [h0] <;> rfl

end AgentSupervisor.Disk
