import AgentSupervisor.Process.Host

/-!
# Processes of a host

What may become of the processes of a host, looked up by their numbers.

* `Goes`          : no process comes out of nothing, and none comes back to life;
* `collect_cases` : what collecting a process says, and what it leaves;
* `spawn_ok`      : what starting one leaves;
* `send_ok`       : whom a signal reaches.
-/

namespace AgentSupervisor

/-! ## Signals and keys -/

namespace Child

theorem receive_ended {c : Child} (n : Int32) (h : (c.receive n).ended = none) :
    c.ended = none := by
  unfold receive at h
  split at h
  · exact h
  · rename_i hn
    simpa using hn

theorem receive_pid (c : Child) (n : Int32) : (c.receive n).pid = c.pid := by
  unfold receive resume
  repeat' split
  all_goals rfl

theorem press_ended {c : Child} (b : UInt8) (h : (c.press b).ended = none) : c.ended = none := by
  unfold press at h
  split at h
  · exact h
  · rename_i hn
    simpa using hn

theorem press_pid (c : Child) (b : UInt8) : (c.press b).pid = c.pid := by
  unfold press
  split
  · rfl
  · simp only
    split
    · rfl
    · rw [receive_pid]
      rfl

theorem type_ended {c : Child} (bs : Bytes) (h : (c.type bs).ended = none) : c.ended = none := by
  induction bs generalizing c with
  | nil => exact h
  | cons b bs ih => exact press_ended b (ih h)

theorem type_pid (c : Child) (bs : Bytes) : (c.type bs).pid = c.pid := by
  induction bs generalizing c with
  | nil => rfl
  | cons b bs ih => rw [type, List.foldl_cons, ← type, ih, press_pid]

end Child

namespace Host

variable {h h' h'' : Host} {pid q : UInt32} {code : Int32}

/-- Every process is still the one that it was, and has ended if it had ended, and in the same
    way. Some may be gone. -/
def Shrinks (h h' : Host) : Prop :=
  ∀ pid c', h'.child? pid = some c' → ∃ c, h.child? pid = some c ∧ c.ended = c'.ended

theorem Shrinks.refl (h : Host) : Shrinks h h := fun _ c hc => ⟨c, hc, rfl⟩

theorem Shrinks.trans (h1 : Shrinks h h') (h2 : Shrinks h' h'') : Shrinks h h'' := by
  intro pid c'' hc''
  obtain ⟨c', hc', he'⟩ := h2 pid c'' hc''
  obtain ⟨c, hc, he⟩ := h1 pid c' hc'
  exact ⟨c, hc, he.trans he'⟩

theorem Shrinks.gone (hs : Shrinks h h') (hn : h.child? pid = none) : h'.child? pid = none := by
  cases hc : h'.child? pid with
  | none => rfl
  | some c' =>
    obtain ⟨c, hc, -⟩ := hs pid c' hc
    rw [hn] at hc
    cases hc

/-- Changing a process changes no other one. -/
theorem child?_update (f : Child → Child) (hf : ∀ c, (f c).pid = c.pid) :
    (h.update pid f).child? q = (h.child? q).map fun c => if c.pid = pid then f c else c := by
  unfold child? update
  rw [List.find?_map]
  have hpid : ((fun c : Child => c.pid == q) ∘ fun c => if c.pid = pid then f c else c) =
      fun c => c.pid == q := by
    funext c
    show ((if c.pid = pid then f c else c).pid == q) = _
    split
    · rw [hf]
    · rfl
  rw [hpid]

theorem child?_collected :
    ({ h with children := h.children.filter fun c => c.pid != pid } : Host).child? q =
      if q = pid then none else h.child? q := by
  unfold child?
  rw [List.find?_filter]
  split
  · rename_i hq
    rw [List.find?_eq_none]
    simp [hq]
  · rename_i hq
    congr 1
    funext c
    by_cases hc : c.pid = q
    · simp [hc, hq]
    · simp [hc]

/-- **Collecting a process.** The code is the one that is told of it, and then it is gone. -/
theorem collect_cases (h : Host) (pid : UInt32) :
    Shrinks h (h.collect pid).2.2 ∧
      ∀ code, (h.collect pid).2.1 = some code →
        (h.collect pid).2.2.child? pid = none ∧
          ∃ c, h.child? pid = some c ∧ c.code? = some code := by
  unfold collect
  cases hc : h.child? pid with
  | none => exact ⟨.refl h, fun code he => by cases he⟩
  | some c =>
    simp only
    split
    · refine ⟨fun q c' hq => ?_, fun code hcode => ⟨?_, c, rfl, hcode⟩⟩
      · rw [child?_collected] at hq
        split at hq
        · cases hq
        · exact ⟨c', hq, rfl⟩
      · rw [child?_collected, if_pos rfl]
    · refine ⟨fun q c' hq => ?_, fun code he => by cases he⟩
      simp only at hq
      rw [child?_update (fun c => { c with output := [] }) fun _ => rfl] at hq
      obtain ⟨d, hd, rfl⟩ := Option.map_eq_some_iff.mp hq
      refine ⟨d, hd, ?_⟩
      split <;> rfl

/-- No process comes out of nothing, and none comes back to life. -/
def Goes (h h' : Host) : Prop :=
  ∀ pid c', h'.child? pid = some c' → ∃ c, h.child? pid = some c ∧
    (c'.ended = none → c.ended = none)

theorem Goes.refl (h : Host) : Goes h h := fun _ c hc => ⟨c, hc, id⟩

theorem Goes.trans (h1 : Goes h h') (h2 : Goes h' h'') : Goes h h'' := by
  intro pid c'' hc''
  obtain ⟨c', hc', he'⟩ := h2 pid c'' hc''
  obtain ⟨c, hc, he⟩ := h1 pid c' hc'
  exact ⟨c, hc, fun hn => he (he' hn)⟩

theorem Shrinks.goes (hs : Shrinks h h') : Goes h h' := by
  intro pid c' hc'
  obtain ⟨c, hc, he⟩ := hs pid c' hc'
  exact ⟨c, hc, fun hn => he.trans hn⟩

theorem Goes.update (h : Host) (pid : UInt32) {f : Child → Child} (hpid : ∀ c, (f c).pid = c.pid)
    (hlife : ∀ c, (f c).ended = none → c.ended = none) : Goes h (h.update pid f) := by
  intro q c' hc'
  rw [child?_update f hpid] at hc'
  obtain ⟨c, hc, rfl⟩ := Option.map_eq_some_iff.mp hc'
  refine ⟨c, hc, fun hn => ?_⟩
  split at hn
  · exact hlife c hn
  · exact hn

/-- Starting a process adds it to those of the host. -/
theorem spawn_ok {dir : Place} {argv : List String} {size : WindowSize} {vars : Variables}
    (hs : h.spawn dir argv size vars = .ok (pid, h')) :
    pid = h.nextPid ∧ h'.storage = h.storage ∧ h'.children =
      h.children ++ [Child.start h.nextPid size dir h.path h.programs vars argv] := by
  unfold spawn at hs
  split at hs
  · cases hs
  · cases hs
    exact ⟨rfl, rfl, rfl⟩

/-- No other process has anything to do with a start. -/
theorem spawn_others {dir : Place} {argv : List String} {size : WindowSize} {vars : Variables}
    (hs : h.spawn dir argv size vars = .ok (pid, h')) : h'.others = h.others := by
  unfold spawn at hs
  split at hs
  · cases hs
  · cases hs
    rfl

theorem child?_spawn {dir : Place} {argv : List String} {size : WindowSize} {vars : Variables}
    (hs : h.spawn dir argv size vars = .ok (pid, h')) (q : UInt32) :
    h'.child? q =
      (h.child? q).or
        (if pid = q then some (Child.start pid size dir h.path h.programs vars argv)
        else none) := by
  obtain ⟨rfl, -, hchildren⟩ := spawn_ok hs
  unfold child?
  rw [hchildren, List.find?_append, List.find?_singleton]
  simp [Child.start]

/-- **Whom a signal reaches**: a process that the supervisor has started, or another one that it
    may signal. -/
theorem send_ok {n : Int32} (hs : h.send pid n = .ok h') :
    (h.child? pid).isSome = true ∧ h' = h.signal pid n ∨
      h.child? pid = none ∧ (∃ o, h.other? pid = some o ∧ o.foreign = false) ∧
        h' = h.tell pid n := by
  unfold send at hs
  split at hs
  · rename_i hsome
    cases hs
    exact .inl ⟨hsome, rfl⟩
  · rename_i hnone
    split at hs
    · cases hs
    · rename_i o ho
      split at hs
      · cases hs
      · rename_i hforeign
        cases hs
        exact .inr ⟨Option.not_isSome_iff_eq_none.mp hnone,
          ⟨o, ho, Bool.eq_false_iff.mpr hforeign⟩, rfl⟩

/-- **Why a signal reaches nobody**: no process has the number, or it is another user's. -/
theorem send_error {n : Int32} {e : SignalError} (hs : h.send pid n = .error e) :
    h.child? pid = none ∧ (h.other? pid = none ∧ e = .noProcess ∨
      ∃ o, h.other? pid = some o ∧ o.foreign = true ∧ e = .notPermitted) := by
  unfold send at hs
  split at hs
  · cases hs
  · rename_i hnone
    refine ⟨Option.not_isSome_iff_eq_none.mp hnone, ?_⟩
    split at hs
    · rename_i ho
      cases hs
      exact .inl ⟨ho, rfl⟩
    · rename_i o ho
      split at hs
      · rename_i hforeign
        cases hs
        exact .inr ⟨o, ho, hforeign, rfl⟩
      · cases hs

end Host

end AgentSupervisor
