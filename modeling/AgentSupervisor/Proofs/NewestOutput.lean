import AgentSupervisor.Terminal.Transcript
import Mathlib.Data.List.DropRight

/-!
# The newest output

A transcript holds the last bytes of all output that it was given, as many as it may keep. How
the output was cut into chunks cannot be told from it.

* `Transcript.append_eq`     : one more chunk;
* `Transcript.foldl_append`  : all chunks, from any transcript on;
* `Transcript.skips_chunk`, `Transcript.evicts_oldest` : what goes is there;
* `Transcript.keeps_newest`  : a transcript from its start on.
-/

namespace AgentSupervisor.Transcript

variable {t : Transcript} {data : Bytes}

/-! ## The last elements of a list -/

theorem length_rtake {α : Type} (l : List α) (n : Nat) :
    (l.rtake n).length = min n l.length := by
  rw [List.rtake, List.length_drop]
  omega

theorem rtake_min {α : Type} (l : List α) (n : Nat) : l.rtake (min n l.length) = l.rtake n := by
  have hstart : l.length - min n l.length = l.length - n := by omega
  rw [List.rtake, List.rtake, hstart]

/-- The last elements of a list with an end depend on the end and on the last elements before. -/
theorem rtake_rtake_append {α : Type} (l m : List α) (n : Nat) :
    (l.rtake n ++ m).rtake n = (l ++ m).rtake n := by
  obtain ⟨k, hk⟩ : ∃ k, k = l.length - n := ⟨_, rfl⟩
  have hle : k ≤ l.length := by omega
  have hlen : (l.drop k ++ m).length = (l ++ m).length - k := by
    rw [List.length_append, List.length_append, List.length_drop]
    omega
  rw [List.rtake, List.rtake, List.rtake, ← hk, hlen, ← List.drop_append_of_le_length hle,
    List.drop_drop]
  congr 1
  rw [List.length_append]
  omega

/-! ## One chunk -/

theorem append_of_le (h : t.capacity ≤ data.length) :
    t.append data = ⟨t.capacity, data.rtake t.capacity⟩ := by
  rw [append, if_pos h]
  rfl

theorem append_of_lt (h : data.length < t.capacity) : t.append data =
    ⟨t.capacity, t.bytes.drop (t.bytes.length + data.length - t.capacity) ++ data⟩ := by
  rw [append, if_neg (Nat.not_le.mpr h)]

/-- **One more chunk** leaves the last bytes of what was there and the chunk. -/
theorem append_eq (t : Transcript) (data : Bytes) :
    t.append data = ⟨t.capacity, (t.bytes ++ data).rtake t.capacity⟩ := by
  rcases Nat.lt_or_ge data.length t.capacity with h | h
  · rw [append_of_lt h, List.rtake, List.length_append,
      List.drop_append_of_le_length (by omega)]
  · -- nothing that was there is among the last bytes
    have hall : t.bytes.length ≤ t.bytes.length + data.length - t.capacity := by omega
    have hstart : t.bytes.length + data.length - t.capacity - t.bytes.length =
        data.length - t.capacity := by omega
    rw [append_of_le h, List.rtake, List.rtake, List.length_append, List.drop_append,
      List.drop_eq_nil_of_le hall, List.nil_append, hstart]

/-- A chunk that fills the transcript is skipped but for its end. -/
theorem skips_chunk (h : t.capacity ≤ data.length) : ∃ skipped,
    skipped.length = data.length - t.capacity ∧ skipped ++ (t.append data).bytes = data := by
  refine ⟨data.take (data.length - t.capacity), ?_, ?_⟩
  · rw [List.length_take]
    omega
  · rw [append_of_le h, List.rtake, List.take_append_drop]

/-- A shorter chunk evicts no more bytes than there are. -/
theorem evicts_oldest (h : data.length < t.capacity) : ∃ evicted kept,
    evicted.length = t.bytes.length + data.length - t.capacity ∧
      evicted ++ kept = t.bytes ∧ (t.append data).bytes = kept ++ data := by
  refine ⟨t.bytes.take (t.bytes.length + data.length - t.capacity), _, ?_,
    List.take_append_drop .., by rw [append_of_lt h]⟩
  rw [List.length_take]
  omega

/-! ## All chunks -/

/-- **All chunks** leave the last bytes of what was there and everything appended. -/
theorem foldl_append (chunks : List Bytes) (h : t.bytes.length ≤ t.capacity) :
    chunks.foldl append t = ⟨t.capacity, (t.bytes ++ chunks.flatten).rtake t.capacity⟩ := by
  induction chunks generalizing t with
  | nil =>
    rw [List.flatten_nil, List.append_nil, List.foldl_nil, List.rtake, Nat.sub_eq_zero_of_le h]
    rfl
  | cons data chunks ih =>
    have hle : ((t.bytes ++ data).rtake t.capacity).length ≤ t.capacity := by
      rw [length_rtake]
      omega
    rw [List.foldl_cons, append_eq, ih hle, rtake_rtake_append, List.flatten_cons,
      List.append_assoc]

/-- **A transcript keeps exactly the newest bytes.** Whatever chunks were appended, it holds the
    last bytes of all of them in a row, as many as it may keep or as there are. Other chunks with
    the same output make the same transcript. One more chunk skips or evicts bytes that are
    there. -/
theorem keeps_newest (capacity : Nat) (chunks : List Bytes) :
    ∃ t, chunks.foldl append (empty capacity) = t ∧
      t.bytes = chunks.flatten.rtake (min capacity chunks.flatten.length) ∧
      t.bytes.length = min capacity chunks.flatten.length ∧
      (∀ chunks' : List Bytes, chunks'.flatten = chunks.flatten →
        chunks'.foldl append (empty capacity) = t) ∧
      (∀ data : Bytes, capacity ≤ data.length → ∃ skipped,
        skipped.length = data.length - capacity ∧ skipped ++ (t.append data).bytes = data) ∧
      ∀ data : Bytes, data.length < capacity → ∃ evicted kept,
        evicted.length = t.bytes.length + data.length - capacity ∧
          evicted ++ kept = t.bytes ∧ (t.append data).bytes = kept ++ data := by
  have hfold : ∀ chunks : List Bytes, chunks.foldl append (empty capacity) =
      ⟨capacity, chunks.flatten.rtake capacity⟩ := fun chunks =>
    foldl_append (t := empty capacity) chunks (Nat.zero_le _)
  refine ⟨⟨capacity, chunks.flatten.rtake capacity⟩, hfold chunks, (rtake_min _ _).symm,
    length_rtake _ _, fun chunks' h => by rw [hfold, h], fun data h => ?_, fun data h => ?_⟩
  · exact skips_chunk (t := ⟨capacity, _⟩) h
  · exact evicts_oldest (t := ⟨capacity, _⟩) h

/-- Three bytes in a transcript of two, cut in two ways, before a longer chunk and a shorter one. -/
theorem keeps_newest_three :
    let t := ([[1, 2], [], [3]] : List Bytes).foldl append (empty 2)
    ([[1], [2, 3]] : List Bytes).foldl append (empty 2) = t ∧
      (∃ skipped, skipped.length = 1 ∧ skipped ++ (t.append [4, 5, 6]).bytes = [4, 5, 6]) ∧
      ∃ evicted kept, evicted.length = 1 ∧ evicted ++ kept = t.bytes ∧
        (t.append [4]).bytes = kept ++ [4] := by
  intro t
  obtain ⟨_, rfl, -, -, hcuts, hskips, hevicts⟩ := keeps_newest 2 [[1, 2], [], [3]]
  exact ⟨hcuts [[1], [2, 3]] rfl, hskips [4, 5, 6] (by decide), hevicts [4] (by decide)⟩

end AgentSupervisor.Transcript
