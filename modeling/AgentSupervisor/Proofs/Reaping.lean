import AgentSupervisor.Proofs.ProcessNumbers
import AgentSupervisor.Proofs.SessionTable

/-!
# What a look takes from the host

A look at the processes collects the processes of running sessions that have ended, and leaves
every other process where it is. The exit code of a process that it collects goes on record if it
is told.

* `collect_child?`  : what is left under a number when a process is collected;
* `drainAll_child?` : what is left after a look;
* `drainAll_codes`  : which exit codes it puts on record.
-/

namespace AgentSupervisor

namespace Host

variable {h h' : Host} {pid q : UInt32}

/-- How the process of a number has ended, if there is one and it has. -/
def endOf? (h : Host) (pid : UInt32) : Option Termination := (h.child? pid).bind Child.ended

/-- The exit code that is told of it, if any is. -/
def codeOf? (h : Host) (pid : UInt32) : Option Int32 := (h.endOf? pid).bind Termination.code?

/-- The output of the process of a number is taken. -/
theorem collect_child? (h : Host) (pid : UInt32) :
    (h.collect pid).2.1 = h.codeOf? pid ∧
      ∀ q, (h.collect pid).2.2.child? q =
        if q = pid then
          if (h.endOf? pid).isSome then none
          else (h.child? pid).map fun c => { c with output := [] }
        else h.child? q := by
  unfold codeOf? endOf? collect
  cases hc : h.child? pid with
  | none =>
    refine ⟨rfl, fun q => ?_⟩
    simp only
    split
    · rename_i hq
      rw [hq, hc]
      rfl
    · rfl
  | some c =>
    simp only [Option.bind_some, Option.map_some]
    cases he : c.ended with
    | none =>
      refine ⟨rfl, fun q => ?_⟩
      simp only [Option.isSome_none, Bool.false_eq_true, if_false]
      rw [child?_update (fun c => { c with output := [] }) fun _ => rfl]
      split
      · rename_i hq
        have hcpid : c.pid = pid := by simpa using List.find?_some hc
        rw [hq, hc, Option.map_some, if_pos hcpid, he]
      · rename_i hq
        cases hcq : h.child? q with
        | none => rfl
        | some d =>
          have hdpid : d.pid = q := by simpa using List.find?_some hcq
          rw [Option.map_some, if_neg (by rw [hdpid]; exact hq)]
    | some t =>
      refine ⟨?_, fun q => child?_collected⟩
      rw [Option.isSome_some, if_pos rfl, Child.code?, he]

theorem collect_pids (h : Host) (pid : UInt32) :
    ((h.collect pid).2.2.children.map Child.pid).Sublist (h.children.map Child.pid) := by
  unfold collect
  split
  · exact .refl _
  · split
    · exact List.filter_sublist.map _
    · have hsame : (h.update pid fun c => { c with output := [] }).children.map Child.pid =
          h.children.map Child.pid := by
        rw [update, List.map_map]
        refine List.map_congr_left fun c _ => ?_
        rw [Function.comp_apply]
        split <;> rfl
      exact hsame ▸ .refl _

theorem collect_others (h : Host) (pid : UInt32) : (h.collect pid).2.2.others = h.others := by
  unfold collect
  split
  · rfl
  · split <;> rfl

end Host

namespace Supervisor

variable {h : Host} {q : UInt32}

/-- Some running session among these has a process number on record. -/
def HasRunning (ms : List Managed) (q : UInt32) : Prop :=
  ∃ m ∈ ms, m.isRunning = true ∧ m.pid = q

/-- **What a look leaves** under a number: a process that no running session has is left alone.
    Of the others, those that have ended are gone. -/
theorem drainAll_child? (ms : List Managed) (h : Host) (q : UInt32) :
    (¬ HasRunning ms q → (drainAll ms h).2.child? q = h.child? q) ∧
      (HasRunning ms q → (drainAll ms h).2.child? q =
        if (h.endOf? q).isSome then none
        else (h.child? q).map fun c => { c with output := [] }) := by
  induction ms generalizing h with
  | nil => exact ⟨fun _ => rfl, fun ⟨_, hm, _⟩ => by cases hm⟩
  | cons m ms ih =>
    have hrest : HasRunning (m :: ms) q ↔ m.isRunning = true ∧ m.pid = q ∨ HasRunning ms q := by
      simp [HasRunning]
    unfold drainAll
    split
    · rename_i hrun
      show (¬ _ → (drainAll ms (h.collect m.pid).2.2).2.child? q = _) ∧
        (_ → (drainAll ms (h.collect m.pid).2.2).2.child? q = _)
      obtain ⟨hnot, hhas⟩ := ih (h.collect m.pid).2.2
      have hchild := (h.collect_child? m.pid).2 q
      by_cases hpid : q = m.pid
      · subst hpid
        refine ⟨fun hn => absurd (hrest.mpr (.inl ⟨hrun, rfl⟩)) hn, fun _ => ?_⟩
        rw [if_pos rfl] at hchild
        by_cases hagain : HasRunning ms m.pid
        · -- what has been collected once stays as it is when it is collected again
          rw [hhas hagain, Host.endOf?, hchild, Host.endOf?]
          cases h.child? m.pid with
          | none => rfl
          | some c => cases he : c.ended <;> simp [he]
        · rw [hnot hagain, hchild]
      · rw [if_neg hpid] at hchild
        have hsame : (h.collect m.pid).2.2.endOf? q = h.endOf? q := by
          rw [Host.endOf?, hchild]
          rfl
        rw [hchild] at hnot
        rw [hchild, hsame] at hhas
        refine ⟨fun hn => hnot fun hms => hn (hrest.mpr (.inr hms)), fun hm => hhas ?_⟩
        exact (hrest.mp hm).resolve_left fun hself => hpid hself.2.symm
    · rename_i hrun
      obtain ⟨hnot, hhas⟩ := ih h
      refine ⟨fun hn => hnot fun hms => hn (hrest.mpr (.inr hms)), fun hm => hhas ?_⟩
      exact (hrest.mp hm).resolve_left fun hself => hrun hself.1

/-- A look brings no process and changes no number. -/
theorem drainAll_pids (ms : List Managed) (h : Host) :
    ((drainAll ms h).2.children.map Child.pid).Sublist (h.children.map Child.pid) := by
  induction ms generalizing h with
  | nil => exact .refl _
  | cons m ms ih =>
    unfold drainAll
    split
    · exact (ih _).trans (Host.collect_pids h m.pid)
    · exact ih h

/-- Nor does it touch the processes of others. -/
theorem drainAll_others (ms : List Managed) (h : Host) : (drainAll ms h).2.others = h.others := by
  induction ms generalizing h with
  | nil => rfl
  | cons m ms ih =>
    unfold drainAll
    split
    · exact (ih _).trans (Host.collect_others h m.pid)
    · exact ih h

/-- No two running sessions have the same process number on record. -/
def Apart (ms : List Managed) : Prop :=
  ms.Pairwise fun a b => a.isRunning = true → b.isRunning = true → a.pid ≠ b.pid

/-- What a look makes of a record. -/
structure Coded (h : Host) (m m' : Managed) : Prop where
  session : m'.session = m.session
  pid : m'.pid = m.pid
  code : m'.exitCode = m.exitCode.or (h.codeOf? m.pid)

/-- **Which exit codes a look puts on record**: those that are told of the processes that have
    ended. The look is part of one that began on the host `h₀`. -/
theorem drainAll_codes (ms : List Managed) (h h₀ : Host) (hapart : Apart ms)
    (hsame : ∀ m ∈ ms, m.isRunning = true → h.codeOf? m.pid = h₀.codeOf? m.pid) :
    List.Forall₂ (Coded h₀) ms (drainAll ms h).1 := by
  induction ms generalizing h with
  | nil => exact .nil
  | cons m ms ih =>
    obtain ⟨hfirst, hrest⟩ := List.pairwise_cons.mp hapart
    unfold drainAll
    split
    · rename_i hrun
      obtain ⟨hcode, hchild⟩ := h.collect_child? m.pid
      have htail := ih (h.collect m.pid).2.2 hrest fun b hb hbrun => by
        rw [Host.codeOf?, Host.endOf?, hchild, if_neg (hfirst b hb hrun hbrun).symm]
        exact hsame b (List.mem_cons_of_mem _ hb) hbrun
      refine .cons ?_ htail
      have hnone : m.exitCode = none := Option.isNone_iff_eq_none.mp hrun
      refine ⟨?_, ?_, ?_⟩
      all_goals simp only [Managed.drain, if_pos hrun]
      rw [hcode, hsame m List.mem_cons_self hrun, hnone, Option.none_or]
    · rename_i hrun
      have hcode : m.exitCode ≠ none := by simpa [Managed.isRunning] using hrun
      refine .cons ⟨rfl, rfl, ?_⟩ (ih h hrest fun b hb => hsame b (List.mem_cons_of_mem _ hb))
      obtain ⟨code, hcode⟩ := Option.ne_none_iff_exists'.mp hcode
      rw [hcode, Option.some_or]

end Supervisor

end AgentSupervisor
