import Mathlib.Logic.Relation
import AgentSupervisor.Proofs.InboxListing
import AgentSupervisor.Proofs.Retention

/-!
# Prunes that are cut short

A prune takes the lock, reads the log, writes the messages that it keeps into a new file and puts
that in place of the log. Any of these steps may fail, and after any of them the process may be
gone. Until the last step the log is the old one, and after it the new one.

* `InboxStore.PruneStep`       : one step of a prune;
* `InboxStore.Progress`        : what a prune has done when it has come so far;
* `InboxStore.prunes_pruneOlder`, `InboxStore.pruneOlder_of_prunes` : what the steps come to;
* `InboxStore.prune_all_or_nothing` : what is left wherever it stops.
-/

namespace AgentSupervisor.InboxStore

variable {s : InboxStore} {inbox : InboxId} {maxAge : Nat} {st st' : Storage} {d d' : Disk}

/-! ## Steps -/

/-- How far a prune has come. -/
inductive PrunePhase where
  /-- it asks for the lock -/
  | begun
  | locked
  /-- it writes a new log: how many messages it drops, and what is still to be written -/
  | writing (dropped : Nat) (rest : Bytes)
  | ended (result : Except InboxError Nat)

/-- One step of a prune. -/
inductive PruneStep (s : InboxStore) (inbox : InboxId) (maxAge : Nat) :
    PrunePhase × Storage → PrunePhase × Storage → Prop where
  | lock {st st' : Storage} (h : st.lock (s.lockPlace inbox) .exclusive = .ok (true, st')) :
      PruneStep s inbox maxAge (.begun, st) (.locked, st')
  | giveUp {st st' : Storage} (h : st.lock (s.lockPlace inbox) .exclusive = .ok (false, st')) :
      PruneStep s inbox maxAge (.begun, st) (.ended (.error (.locked inbox)), st')
  /-- the log is read and nothing is to be dropped -/
  | keep {st : Storage} {snapshot : Snapshot} {n : Nat}
      (hread : s.snapshot st.disk inbox = .ok snapshot)
      (hprune : snapshot.prune (UInt64.ofNat st.now) maxAge = (n, .keep)) :
      PruneStep s inbox maxAge (.locked, st) (.ended (.ok n), st)
  /-- the log is read and the new file is made, or emptied if it is there -/
  | create {st : Storage} {snapshot : Snapshot} {n : Nat} {kept : List Message} {disk : Disk}
      (hread : s.snapshot st.disk inbox = .ok snapshot)
      (hprune : snapshot.prune (UInt64.ofNat st.now) maxAge = (n, .replace kept))
      (hw : st.disk.write (s.draftPlace inbox) [] = .ok disk) :
      PruneStep s inbox maxAge (.locked, st) (.writing n (Change.fresh kept), { st with disk })
  /-- some more bytes are written -/
  | write {st : Storage} {n : Nat} (part rest : Bytes) {disk : Disk}
      (hw : st.disk.append (s.draftPlace inbox) part = .ok disk) :
      PruneStep s inbox maxAge (.writing n (part ++ rest), st) (.writing n rest, { st with disk })
  /-- the new file takes the place of the log -/
  | swap {st : Storage} {n : Nat} {disk : Disk}
      (hr : st.disk.rename (s.draftPlace inbox) (s.logPlace inbox) = .ok disk) :
      PruneStep s inbox maxAge (.writing n [], st) (.ended (.ok n), { st with disk })
  /-- the next step fails -/
  | fail {st : Storage} {φ : PrunePhase} (e : IoError) (hφ : ∀ r, φ ≠ .ended r) :
      PruneStep s inbox maxAge (φ, st) (.ended (.error (.io e)), st)

/-- The steps of a prune lead so far. It may stop wherever they lead. -/
abbrev Prunes (s : InboxStore) (inbox : InboxId) (maxAge : Nat) (st : Storage) :
    PrunePhase × Storage → Prop :=
  Relation.ReflTransGen (PruneStep s inbox maxAge) (.begun, st)

/-! ## What has been done -/

/-- What a prune has done when it has come so far. -/
inductive Progress (s : InboxStore) (inbox : InboxId) (maxAge : Nat) (st : Storage) :
    PrunePhase × Storage → Prop where
  | begun : Progress s inbox maxAge st (.begun, st)
  | locked {locked : Storage} (hl : st.lock (s.lockPlace inbox) .exclusive = .ok (true, locked)) :
      Progress s inbox maxAge st (.locked, locked)
  | refused {st' : Storage} (hl : st.lock (s.lockPlace inbox) .exclusive = .ok (false, st')) :
      Progress s inbox maxAge st (.ended (.error (.locked inbox)), st')
  /-- the beginning of the new log is in the new file, and the rest is still to come -/
  | writing (locked : Storage) {snapshot : Snapshot} {n : Nat} {kept : List Message}
      {written rest : Bytes} {disk : Disk}
      (hl : st.lock (s.lockPlace inbox) .exclusive = .ok (true, locked))
      (hread : s.snapshot locked.disk inbox = .ok snapshot)
      (hprune : snapshot.prune (UInt64.ofNat locked.now) maxAge = (n, .replace kept))
      (hparts : written ++ rest = Change.fresh kept)
      (hw : locked.disk.write (s.draftPlace inbox) written = .ok disk) :
      Progress s inbox maxAge st (.writing n rest, { locked with disk })
  | failed {φ : PrunePhase} {st' : Storage} (h : Progress s inbox maxAge st (φ, st'))
      (hφ : ∀ r, φ ≠ .ended r) (e : IoError) :
      Progress s inbox maxAge st (.ended (.error (.io e)), st')
  | done {n : Nat} {st' : Storage} (h : s.pruneOlder inbox maxAge st = (.ok n, st')) :
      Progress s inbox maxAge st (.ended (.ok n), st')

/-- What a prune comes to that has the lock, can read the log and can make its change. -/
theorem pruneOlder_eq {locked : Storage} {snapshot : Snapshot} {n : Nat} {c : Change} {disk : Disk}
    (hl : st.lock (s.lockPlace inbox) .exclusive = .ok (true, locked))
    (hread : s.snapshot locked.disk inbox = .ok snapshot)
    (hprune : snapshot.prune (UInt64.ofNat locked.now) maxAge = (n, c))
    (hc : s.change locked.disk inbox c = .ok disk) :
    s.pruneOlder inbox maxAge st = (.ok n, { locked with disk }) := by
  rw [pruneOlder, underLock_eq, hl]
  simp only [hread, hprune, hc]

/-- One step gets a prune further. -/
theorem Progress.step {x y : PrunePhase × Storage} (h : Progress s inbox maxAge st x)
    (hs : PruneStep s inbox maxAge x y) : Progress s inbox maxAge st y := by
  cases hs with
  | lock hl =>
    cases h with
    | begun => exact .locked hl
  | giveUp hl =>
    cases h with
    | begun => exact .refused hl
  | keep hread hprune =>
    cases h with
    | locked hl => exact .done (pruneOlder_eq hl hread hprune rfl)
  | create hread hprune hw =>
    cases h with
    | locked hl => exact .writing _ hl hread hprune (List.nil_append _) hw
  | write part rest hw =>
    cases h with
    | writing locked hl hread hprune hparts hbefore =>
      rw [← List.append_assoc] at hparts
      exact .writing locked hl hread hprune hparts ((Disk.append_write hbefore).mp hw)
  | swap hr =>
    cases h with
    | writing locked hl hread hprune hparts hbefore =>
      rw [List.append_nil] at hparts
      subst hparts
      have hchange := change_replace_ok.mpr ⟨_, hbefore, hr⟩
      have hdone := pruneOlder_eq hl hread hprune hchange
      exact .done hdone
  | fail e hφ => exact .failed h hφ e

theorem Prunes.progress {x : PrunePhase × Storage} (h : Prunes s inbox maxAge st x) :
    Progress s inbox maxAge st x := by
  induction h with
  | refl => exact .begun
  | tail _ hs ih => exact ih.step hs

/-- A prune that succeeds has had the lock, could read the log and made its change. -/
theorem pruneOlder_ok {n : Nat} (h : s.pruneOlder inbox maxAge st = (.ok n, st')) :
    ∃ locked snapshot c disk, st.lock (s.lockPlace inbox) .exclusive = .ok (true, locked) ∧
      s.snapshot locked.disk inbox = .ok snapshot ∧
      snapshot.prune (UInt64.ofNat locked.now) maxAge = (n, c) ∧
      s.change locked.disk inbox c = .ok disk ∧ st' = { locked with disk } := by
  obtain ⟨locked, snapshot, c, disk, hl, hread, hprune, hc, -⟩ :=
    underLock_ok (congrArg Prod.fst h)
  have hprune := Except.ok.inj hprune
  refine ⟨locked, snapshot, c, disk, hl, hread, hprune, hc, ?_⟩
  exact congrArg Prod.snd (h.symm.trans (pruneOlder_eq hl hread hprune hc))

/-- The steps that make the change that a prune decides on. -/
theorem prunes_change {locked : Storage} {snapshot : Snapshot} {n : Nat} {c : Change} {disk : Disk}
    (hread : s.snapshot locked.disk inbox = .ok snapshot)
    (hprune : snapshot.prune (UInt64.ofNat locked.now) maxAge = (n, c))
    (hc : s.change locked.disk inbox c = .ok disk) :
    Relation.ReflTransGen (PruneStep s inbox maxAge) (.locked, locked)
      (.ended (.ok n), { locked with disk }) := by
  cases c with
  | keep =>
    cases hc
    exact .single (.keep hread hprune)
  | append r =>
    rcases snapshot.prune_cases (UInt64.ofNat locked.now) maxAge with ⟨-, hkeep⟩ | ⟨-, hreplace⟩
    · cases hkeep.symm.trans hprune
    · cases hreplace.symm.trans hprune
  | replace kept =>
    obtain ⟨draft, hw, hr⟩ := change_replace_ok.mp hc
    obtain ⟨empty, hempty, hadd⟩ := Disk.append_of_write hw
    have hcreate := PruneStep.create hread hprune hempty
    -- the new log is written at once
    have hwrite : PruneStep s inbox maxAge
        (.writing n (Change.fresh kept ++ []), { locked with disk := empty })
        (.writing n [], { locked with disk := draft }) := .write _ _ hadd
    rw [List.append_nil] at hwrite
    exact .head hcreate (.head hwrite (.single (.swap hr)))

/-- **What `pruneOlder` comes to**, whether it succeeds or not, such steps come to. -/
theorem prunes_pruneOlder (s : InboxStore) (inbox : InboxId) (maxAge : Nat) (st : Storage) :
    Prunes s inbox maxAge st
      (.ended (s.pruneOlder inbox maxAge st).1, (s.pruneOlder inbox maxAge st).2) := by
  rw [pruneOlder, underLock_eq]
  cases hl : st.lock (s.lockPlace inbox) .exclusive with
  | error e => exact .single (.fail e (by simp))
  | ok r =>
    obtain ⟨got, locked⟩ := r
    cases got with
    | false => exact .single (.giveUp hl)
    | true =>
      refine .head (.lock hl) ?_
      simp only
      cases hread : s.snapshot locked.disk inbox with
      | error e => exact .single (.fail e (by simp))
      | ok snapshot =>
        generalize hprune : snapshot.prune (UInt64.ofNat locked.now) maxAge = decided
        obtain ⟨n, c⟩ := decided
        simp only [hprune]
        cases hc : s.change locked.disk inbox c with
        | error e => exact .single (.fail e (by simp))
        | ok disk => exact prunes_change hread hprune hc

/-- Steps that come to success come to what `pruneOlder` comes to. -/
theorem pruneOlder_of_prunes {n : Nat} (h : Prunes s inbox maxAge st (.ended (.ok n), st')) :
    s.pruneOlder inbox maxAge st = (.ok n, st') := by
  cases h.progress with
  | done h => exact h

/-! ## What is left -/

/-- An inbox looks as it did, and only its lock and its draft may have been written. -/
structure Intact (s : InboxStore) (inbox : InboxId) (d d' : Disk) : Prop where
  alike : s.Alike inbox d d'
  edits : Disk.Edits [s.lockPlace inbox, s.draftPlace inbox] d d'

namespace Intact

theorem refl (d : Disk) : s.Intact inbox d d := ⟨.of_find fun _ _ => rfl, .refl⟩

theorem trans {d'' : Disk} (h : s.Intact inbox d d') (h' : s.Intact inbox d' d'') :
    s.Intact inbox d d'' :=
  ⟨h.alike.trans h'.alike, h.edits.trans h'.edits⟩

theorem lock {mode : LockMode} {r : Bool × Storage}
    (h : st.lock (s.lockPlace inbox) mode = .ok r) : s.Intact inbox st.disk r.2.disk :=
  ⟨Alike.of_modify (lockPlace_mem s inbox) (logPlace_ne_lockPlace s inbox).symm
    (Storage.touch_of_lock h), (Storage.lock_edits h).mono (by simp)⟩

theorem write {bs : Bytes} (h : d.write (s.draftPlace inbox) bs = .ok d') :
    s.Intact inbox d d' :=
  ⟨Alike.of_modify (draftPlace_mem s inbox) (logPlace_ne_draftPlace s inbox).symm h,
    Disk.Edits.refl.modify h (by simp)⟩

theorem edits_places (h : s.Intact inbox d d') : Disk.Edits (s.places inbox) d d' :=
  h.edits.mono (by simp [places])

theorem at?_log (h : s.Intact inbox d d') :
    d'.at? (s.logPlace inbox) = d.at? (s.logPlace inbox) :=
  h.edits.at? (by simp [lockPlace, draftPlace])
    (by simp [logPlace_ne_lockPlace, logPlace_ne_draftPlace])

end Intact

/-- **Until the log is replaced nothing has happened to it**, and when it has been replaced the
    prune is done. -/
theorem Progress.intact_or_done {x : PrunePhase × Storage} (h : Progress s inbox maxAge st x) :
    s.Intact inbox st.disk x.2.disk ∨ ∃ n, s.pruneOlder inbox maxAge st = (.ok n, x.2) := by
  induction h with
  | begun => exact .inl (.refl _)
  | locked hl => exact .inl (.lock hl)
  | refused hl => exact .inl (.lock hl)
  | writing locked hl _ _ _ hw => exact .inl (.trans (.lock hl) (.write hw))
  | failed _ _ _ ih => exact ih
  | done h => exact .inr ⟨_, h⟩

/-- A prune that is done has neither made a log nor lost one. -/
theorem logged_pruneOlder {n : Nat} (h : s.pruneOlder inbox maxAge st = (.ok n, st'))
    (hdir : st.disk.IsDir s.dir) :
    st'.disk.at? (s.logPlace inbox) ≠ none ↔ st.disk.at? (s.logPlace inbox) ≠ none := by
  obtain ⟨locked, snapshot, c, disk, hl, hread, hprune, hc, rfl⟩ := pruneOlder_ok h
  rw [change_logged hc, (log_of_lock hl).2, or_iff_left_iff_imp]
  intro hkeep
  rcases snapshot.prune_cases (UInt64.ofNat locked.now) maxAge with ⟨-, hnone⟩ | ⟨hlt, -⟩
  · exact absurd (Prod.mk.inj (hprune.symm.trans hnone)).2 hkeep
  · -- a log that is written anew has messages
    have hmessages := List.ne_nil_of_length_pos (Nat.zero_lt_of_lt hlt)
    exact at?_of_messages hdir (snapshot_of_lock hl ▸ hread) hmessages

/-- The log that a prune leaves that is done. -/
theorem log_pruneOlder {n : Nat} (h : s.pruneOlder inbox maxAge st = (.ok n, st')) :
    ∃ log snapshot, s.log st.disk inbox = .ok log ∧ Snapshot.ofLog log = .ok snapshot ∧
      s.log st'.disk inbox = .ok ((snapshot.prune (UInt64.ofNat st'.now) maxAge).2.apply log) := by
  obtain ⟨locked, snapshot, c, disk, hl, hread, hprune, hc, rfl⟩ := pruneOlder_ok h
  obtain ⟨log, hlog, hsnap⟩ := snapshot_eq_ok hread
  have hchanged := log_change hc hlog
  rw [(log_of_lock hl).1] at hlog
  refine ⟨log, snapshot, hlog, hsnap, ?_⟩
  rw [hchanged, hprune]

/-- On disks on which the inbox looks the same, prunes count the same and leave the same log. -/
theorem pruneOlder_alike (h : s.Alike inbox d d') (age : Nat) (holds : List Hold) (now : Nat) :
    (s.pruneOlder inbox age ⟨d', holds, now⟩).1 = (s.pruneOlder inbox age ⟨d, holds, now⟩).1 ∧
      s.log (s.pruneOlder inbox age ⟨d', holds, now⟩).2.disk inbox =
        s.log (s.pruneOlder inbox age ⟨d, holds, now⟩).2.disk inbox := by
  have hst : s.Alike inbox (⟨d, holds, now⟩ : Storage).disk d' := h
  obtain ⟨hcount, hafter⟩ := underLock_alike hst .exclusive
    fun snapshot now => .ok (snapshot.prune now age)
  exact ⟨hcount, hafter.log_eq⟩

/-- **A prune is all or nothing.** Let its steps have led anywhere, some of them having failed
    perhaps, and let anything at all be left in the file for the new log. Then the listing is as
    before. The log is byte by byte that of a disk on which the prune was never begun, or that of
    the disk on which it is complete; and a later prune, whatever age, time and locks it finds,
    counts the same and leaves the same log as on that disk. -/
theorem prune_all_or_nothing {φ : PrunePhase} {left : Disk}
    (honce : ∀ names, st.disk.list s.dir = .ok names → names.Nodup)
    (h : Prunes s inbox maxAge st (φ, st'))
    (hleft : left = st'.disk ∨ ∃ bs, st'.disk.write (s.draftPlace inbox) bs = .ok left) :
    s.list left = s.list st.disk ∧
    ∃ clean : Disk,
      (clean = st.disk ∨
        ∃ n log snapshot, s.pruneOlder inbox maxAge st = (.ok n, { st' with disk := clean }) ∧
          s.log st.disk inbox = .ok log ∧ Snapshot.ofLog log = .ok snapshot ∧
          s.log clean inbox =
            .ok ((snapshot.prune (UInt64.ofNat st'.now) maxAge).2.apply log)) ∧
      s.log left inbox = s.log clean inbox ∧
      ∀ (age : Nat) (holds : List Hold) (now : Nat),
        (s.pruneOlder inbox age ⟨left, holds, now⟩).1 =
            (s.pruneOlder inbox age ⟨clean, holds, now⟩).1 ∧
          s.log (s.pruneOlder inbox age ⟨left, holds, now⟩).2.disk inbox =
            s.log (s.pruneOlder inbox age ⟨clean, holds, now⟩).2.disk inbox := by
  have hdraft : s.Intact inbox st'.disk left := by
    rcases hleft with rfl | ⟨bs, hw⟩
    · exact .refl _
    · exact .write hw
  rcases h.progress.intact_or_done with hintact | ⟨n, hdone⟩
  · have hall := hintact.trans hdraft
    refine ⟨list_congr hall.edits_places honce fun _ => by rw [hall.at?_log], st.disk, .inl rfl,
      hall.alike.log_eq, pruneOlder_alike hall.alike⟩
  · have hedits : Disk.Edits (s.places inbox) st.disk (s.pruneOlder inbox maxAge st).2.disk :=
      underLock_edits inbox _ _ st
    rw [hdone] at hedits
    obtain ⟨log, snapshot, hlog, hsnap, hlog'⟩ := log_pruneOlder hdone
    refine ⟨list_congr (hedits.trans hdraft.edits_places) honce fun hdir => ?_, st'.disk,
      .inr ⟨n, log, snapshot, hdone, hlog, hsnap, hlog'⟩, hdraft.alike.log_eq,
      pruneOlder_alike hdraft.alike⟩
    rw [hdraft.at?_log, logged_pruneOlder hdone hdir]

/-- A message that is a second younger than the one that waits. -/
def younger : Message := ⟨⟨"m2"⟩, ⟨"a"⟩, "y", 2000, none⟩

/-- An inbox with the two messages, at a time when only the older one is older than a second. -/
def both : Storage :=
  { alone (Change.fresh [waiting, younger]) with now := 2500 }

/-- Its disk when a prune has written no more than ten bytes of the new log. -/
def halfway : Disk :=
  (both.disk.put ["q", "a.lock"] (.file [])).put ["q", "a.jsonl.tmp"]
    (.file ((Change.fresh [younger]).take 10))

/-- The prune that was cut short there has not changed the log, and the next one drops the older
    message. -/
theorem prune_all_or_nothing_halfway :
    let s : InboxStore := ⟨["q"]⟩
    s.list halfway = s.list both.disk ∧
      (s.pruneOlder ⟨"a"⟩ 1000 ⟨halfway, [], 3000⟩).1 = .ok 1 := by
  intro s
  let locked : Disk := both.disk.put ["q", "a.lock"] (.file [])
  let created : Disk := locked.put ["q", "a.jsonl.tmp"] (.file [])
  have hl : both.lock (s.lockPlace ⟨"a"⟩) .exclusive = .ok (true, { both with disk := locked }) := by
    decide +kernel
  have hread : s.snapshot locked ⟨"a"⟩ = .ok ⟨[waiting, younger], []⟩ := by decide +kernel
  have hprune : (⟨[waiting, younger], []⟩ : Snapshot).prune 2500 1000 = (1, .replace [younger]) := by
    decide +kernel
  have hw : locked.write (s.draftPlace ⟨"a"⟩) [] = .ok created := by decide +kernel
  have hadd : created.append (s.draftPlace ⟨"a"⟩) ((Change.fresh [younger]).take 10) =
      .ok halfway := by decide +kernel
  have hcreate : PruneStep s ⟨"a"⟩ 1000 (.locked, { both with disk := locked })
      (.writing 1 (Change.fresh [younger]), { both with disk := created }) :=
    .create hread hprune hw
  have hwrite : PruneStep s ⟨"a"⟩ 1000
      (.writing 1 ((Change.fresh [younger]).take 10 ++ (Change.fresh [younger]).drop 10),
        { both with disk := created })
      (.writing 1 ((Change.fresh [younger]).drop 10), { both with disk := halfway }) :=
    .write _ _ hadd
  rw [List.take_append_drop] at hwrite
  have honce : ∀ names, both.disk.list s.dir = .ok names → names.Nodup := by
    have hnames : both.disk.list s.dir = .ok ["a.jsonl"] := by decide +kernel
    rintro names h
    cases hnames.symm.trans h
    decide
  have hsteps : Prunes s ⟨"a"⟩ 1000 both (.writing 1 ((Change.fresh [younger]).drop 10),
      { both with disk := halfway }) := .head (.lock hl) (.head hcreate (.single hwrite))
  obtain ⟨hlist, clean, hclean, hlog, hlater⟩ := prune_all_or_nothing honce hsteps (.inl rfl)
  refine ⟨hlist, (hlater 1000 [] 3000).1.trans ?_⟩
  rcases hclean with rfl | ⟨n, log, snapshot, hdone, hbefore, hsnap, hafter⟩
  · decide +kernel
  · have hpruned : s.log (s.pruneOlder ⟨"a"⟩ 1000 both).2.disk ⟨"a"⟩ =
        .ok (Change.fresh [younger]) := by decide +kernel
    have hkept : s.log halfway ⟨"a"⟩ = .ok (Change.fresh [waiting, younger]) := by decide +kernel
    rw [hdone] at hpruned
    have hsame := hkept.symm.trans (hlog.trans hpruned)
    exact absurd hsame (by decide +kernel)

end AgentSupervisor.InboxStore
