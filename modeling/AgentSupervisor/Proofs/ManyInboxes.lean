import AgentSupervisor.Proofs.InboxListing
import AgentSupervisor.Proofs.InboxRuns

/-!
# Many inboxes in one directory

Calls on any inboxes of one directory, one after the other. An inbox does not notice what is done
to another one, whatever their names, and a listing names those to which a record was ever
appended.

* `InboxStore.visit_elsewhere` : what one call leaves alone;
* `InboxStore.eventsOf_eq`     : an inbox in a run is as it would be alone;
* `InboxStore.visit_logged`    : when a log comes to be;
* `InboxStore.inboxes_independent` : all of it, and what is listed.
-/

namespace AgentSupervisor

open Utf8 (encode)

/-- A call on the inbox of a session's name, with its time and the locks that others hold. -/
structure Visit where
  name : String
  turn : Turn
  on : turn.call.On (InboxId.ofName name)

namespace Visit

/-- The inbox that is called. -/
def inbox (v : Visit) : InboxId := InboxId.ofName v.name

/-- The visits of a run that are to one inbox. -/
def only (inbox : InboxId) (vs : List Visit) : List Visit := vs.filter (·.inbox = inbox)

end Visit

namespace InboxStore

variable {s : InboxStore} {disk d d' : Disk} {inbox : InboxId}

/-! ## Runs -/

/-- Make the call of a visit. -/
def visit (s : InboxStore) (disk : Disk) (v : Visit) : Except InboxError InboxAnswer × Storage :=
  s.turn v.inbox disk v.turn

/-- The disk after the visits of a run. -/
def after (s : InboxStore) : Disk → List Visit → Disk
  | disk, [] => disk
  | disk, v :: vs => s.after (s.visit disk v).2.disk vs

/-- The calls of a run that are on one inbox, with what they are told. -/
def eventsOf (s : InboxStore) (inbox : InboxId) : Disk → List Visit → List InboxEvent
  | _, [] => []
  | disk, v :: vs =>
    if v.inbox = inbox then
      (v.turn.call, (s.visit disk v).1) :: s.eventsOf inbox (s.visit disk v).2.disk vs
    else s.eventsOf inbox (s.visit disk v).2.disk vs

theorem visit_edits (s : InboxStore) (disk : Disk) (v : Visit) :
    Disk.Edits (s.places v.inbox) disk (s.visit disk v).2.disk :=
  perform_edits v.turn.call v.on { disk, holds := v.turn.holds, now := v.turn.now }

/-- **What one call leaves alone**: all files of all other inboxes. -/
theorem visit_elsewhere {v : Visit} (h : inbox ≠ v.inbox) (disk : Disk) :
    s.Alike inbox disk (s.visit disk v).2.disk := by
  refine .of_find fun p hp => (visit_edits s disk v).find fun q hq => ?_
  exact not_prefix_of_mem hq hp fun e => places_disjoint h hp (e ▸ hq)

theorem visit_alike {v : Visit} (h : s.Alike v.inbox d d') :
    (s.visit d' v).1 = (s.visit d v).1 ∧
      s.Alike v.inbox (s.visit d v).2.disk (s.visit d' v).2.disk := by
  have hst : s.Alike v.inbox
      ({ disk := d, holds := v.turn.holds, now := v.turn.now } : Storage).disk d' := h
  exact perform_alike hst v.on

/-- A run goes on for an inbox as if the visits to other inboxes were not made. -/
theorem eventsOf_alike (h : s.Alike inbox d d') (vs : List Visit) :
    s.eventsOf inbox d vs = s.events inbox d' ((Visit.only inbox vs).map (·.turn)) ∧
      s.Alike inbox (s.after d vs) (s.after d' (Visit.only inbox vs)) := by
  induction vs generalizing d d' with
  | nil => exact ⟨rfl, h⟩
  | cons v vs ih =>
    by_cases hv : v.inbox = inbox
    · subst hv
      obtain ⟨htold, hnext⟩ := visit_alike h
      obtain ⟨hevents, hafter⟩ := ih hnext
      have honly : Visit.only v.inbox (v :: vs) = v :: Visit.only v.inbox vs :=
        List.filter_cons_of_pos (by simp)
      rw [honly, eventsOf, if_pos rfl, after, after, hevents, ← htold]
      exact ⟨rfl, hafter⟩
    · have honly : Visit.only inbox (v :: vs) = Visit.only inbox vs :=
        List.filter_cons_of_neg (by simpa using hv)
      rw [honly, eventsOf, if_neg hv, after]
      exact ih ((visit_elsewhere (Ne.symm hv) d).symm.trans h)

/-- **An inbox in a run is as it would be alone.** -/
theorem eventsOf_eq (s : InboxStore) (inbox : InboxId) (disk : Disk) (vs : List Visit) :
    s.eventsOf inbox disk vs = s.events inbox disk ((Visit.only inbox vs).map (·.turn)) ∧
      s.log (s.after disk vs) inbox = s.log (s.after disk (Visit.only inbox vs)) inbox := by
  have hsame : s.Alike inbox disk disk := .of_find fun _ _ => rfl
  obtain ⟨hevents, hafter⟩ := eventsOf_alike hsame vs
  exact ⟨hevents, hafter.log_eq.symm⟩

/-! ## Logs that come to be -/

/-- A record is appended to the log of the inbox that is called. -/
def Appends (s : InboxStore) (disk : Disk) (v : Visit) : Prop :=
  ∃ log r, s.log disk v.inbox = .ok log ∧
    s.log (s.visit disk v).2.disk v.inbox = .ok (log ++ Change.tail log r)

/-- A record is appended to the log of an inbox at some visit of a run. -/
def Appended (s : InboxStore) (disk : Disk) (vs : List Visit) (inbox : InboxId) : Prop :=
  ∃ earlier v later, vs = earlier ++ v :: later ∧ v.inbox = inbox ∧
    s.Appends (s.after disk earlier) v

theorem appended_cons {v : Visit} {vs : List Visit} :
    s.Appended disk (v :: vs) inbox ↔
      v.inbox = inbox ∧ s.Appends disk v ∨ s.Appended (s.visit disk v).2.disk vs inbox := by
  constructor
  · rintro ⟨earlier, w, later, hvs, hw, happ⟩
    cases earlier with
    | nil =>
      cases hvs
      exact .inl ⟨hw, happ⟩
    | cons u earlier =>
      obtain ⟨rfl, rfl⟩ := List.cons.inj hvs
      exact .inr ⟨earlier, w, later, rfl, hw, happ⟩
  · rintro (⟨hv, happ⟩ | ⟨earlier, w, later, rfl, hw, happ⟩)
    · exact ⟨[], v, vs, rfl, hv, happ⟩
    · exact ⟨v :: earlier, w, later, rfl, hw, happ⟩

/-- **When a log comes to be**: a record is appended. -/
theorem perform_logged {st : Storage} {call : InboxCall} (hon : call.On inbox)
    (hdir : st.disk.IsDir s.dir)
    (h : (s.perform inbox st call).2.disk.at? (s.logPlace inbox) ≠ none)
    (hnone : st.disk.at? (s.logPlace inbox) = none) :
    ∃ log r, s.log st.disk inbox = .ok log ∧
      s.log (s.perform inbox st call).2.disk inbox = .ok (log ++ Change.tail log r) := by
  rw [perform_eq hon] at h ⊢
  cases hr : (s.underLock inbox (mode call) (fun snapshot now =>
      .ok (snapshot.respond now call)) st).1 with
  | error e =>
    have hsame := (underLock_error hr).at? (p := s.logPlace inbox) (by simp [lockPlace])
      (by simp [logPlace_ne_lockPlace])
    exact absurd (hsame.trans hnone) h
  | ok a =>
    obtain ⟨locked, snapshot, c, disk, hl, hsnap, hc, hchange, hdisk⟩ := underLock_ok hr
    obtain ⟨hlog, hat⟩ := log_of_lock hl
    obtain ⟨log, hlocked, -⟩ := snapshot_eq_ok hsnap
    rw [hdisk] at h ⊢
    rw [hnone] at hat
    have hkeep : c ≠ .keep := ((change_logged hchange).mp h).resolve_left fun hne => hne hat
    cases c with
    | keep => exact absurd rfl hkeep
    | append r => exact ⟨log, r, hlog ▸ hlocked, log_change hchange hlocked⟩
    | replace kept =>
      -- there are messages to drop, so there has been a log
      have hrespond : (snapshot.respond (UInt64.ofNat locked.now) call).2 = .replace kept :=
        congrArg Prod.snd (Except.ok.inj hc)
      obtain ⟨_, -, -, hlt⟩ := Snapshot.prune_of_respond_replace hrespond
      have hmessages := List.ne_nil_of_length_pos (Nat.zero_lt_of_lt hlt)
      exact absurd hnone (at?_of_messages hdir (snapshot_of_lock hl ▸ hsnap) hmessages)

/-- A log that is there stays there. -/
theorem perform_stays {st : Storage} {call : InboxCall} (hon : call.On inbox)
    (h : st.disk.at? (s.logPlace inbox) ≠ none) :
    (s.perform inbox st call).2.disk.at? (s.logPlace inbox) ≠ none := by
  rw [perform_eq hon]
  cases hr : (s.underLock inbox (mode call) (fun snapshot now =>
      .ok (snapshot.respond now call)) st).1 with
  | error e =>
    rwa [(underLock_error hr).at? (by simp [lockPlace]) (by simp [logPlace_ne_lockPlace])]
  | ok a =>
    obtain ⟨locked, snapshot, c, disk, hl, -, -, hchange, hdisk⟩ := underLock_ok hr
    rw [hdisk]
    exact (change_logged hchange).mpr (.inl (by rwa [(log_of_lock hl).2]))

/-- One call makes a log of the inbox that is called when it appends a record, and no other. -/
theorem visit_logged (hdir : disk.IsDir s.dir) (v : Visit) :
    (s.visit disk v).2.disk.at? (s.logPlace inbox) ≠ none ↔
      disk.at? (s.logPlace inbox) ≠ none ∨ v.inbox = inbox ∧ s.Appends disk v := by
  have hedits := visit_edits s disk v
  by_cases hv : v.inbox = inbox
  · subst hv
    have hdir' := hedits.isDir (fun p hp => exists_of_mem_places hp) hdir
    constructor
    · intro h
      by_cases hnone : disk.at? (s.logPlace v.inbox) = none
      · exact .inr ⟨rfl, perform_logged v.on hdir h hnone⟩
      · exact .inl hnone
    · rintro (h | ⟨-, log, r, -, hlog⟩)
      · exact perform_stays v.on h
      · exact at?_of_log hdir' hlog (by simp [Change.tail, Change.line])
  · have hout : s.logPlace inbox ∉ s.places v.inbox :=
      fun hmem => hv (logPlace_mem_places.mp hmem).symm
    rw [hedits.at? (fun p hp => ne_nil_of_mem hp) hout]
    simp [hv]

/-- **Which logs are there after a run**: those that were there, and those to which a record was
    appended. -/
theorem after_logged (hdir : disk.IsDir s.dir) (vs : List Visit) :
    (s.after disk vs).at? (s.logPlace inbox) ≠ none ↔
      disk.at? (s.logPlace inbox) ≠ none ∨ s.Appended disk vs inbox := by
  induction vs generalizing disk with
  | nil => simp [after, Appended]
  | cons v vs ih =>
    have hnext := (visit_edits s disk v).isDir (fun p hp => exists_of_mem_places hp) hdir
    rw [after, ih hnext, visit_logged hdir, appended_cons, or_assoc]

theorem after_edits (s : InboxStore) (disk : Disk) (vs : List Visit) :
    ∃ ps, (∀ p ∈ ps, ∃ n, p = s.dir ++ [n]) ∧ Disk.Edits ps disk (s.after disk vs) := by
  induction vs generalizing disk with
  | nil => exact ⟨[], by simp, .refl⟩
  | cons v vs ih =>
    obtain ⟨ps, hps, hedits⟩ := ih (s.visit disk v).2.disk
    refine ⟨s.places v.inbox ++ ps, ?_, ?_⟩
    · intro p hp
      rcases List.mem_append.mp hp with hp | hp
      · exact exists_of_mem_places hp
      · exact hps p hp
    · exact ((visit_edits s disk v).mono (List.subset_append_left ..)).trans
        (hedits.mono (List.subset_append_right ..))

/-! ## Independence -/

/-- **What is listed after a run in a directory without inboxes**: those to which a record was ever
    appended, in the order of the bytes of their names and so each once. -/
theorem list_after {names : List String} (hnames : disk.list s.dir = .ok names)
    (honce : names.Nodup) (hnone : s.list disk = .ok []) (vs : List Visit) :
    ∃ ids, s.list (s.after disk vs) = .ok ids ∧
      (∀ inbox, inbox ∈ ids ↔ s.Appended disk vs inbox) ∧
      ids.Pairwise fun a b => encode a.text < encode b.text := by
  obtain ⟨hdir, rfl⟩ := Disk.list_eq_ok.mp hnames
  obtain ⟨ps, hps, hedits⟩ := after_edits s disk vs
  rw [list_eq hdir] at hnone
  have hbefore : s.inboxes disk = [] := Except.ok.inj hnone
  have hmem : ∀ inbox, inbox ∈ s.inboxes (s.after disk vs) ↔ s.Appended disk vs inbox := by
    intro inbox
    have hout : ¬ disk.at? (s.logPlace inbox) ≠ none := by
      rw [← mem_inboxes, hbefore]
      exact List.not_mem_nil
    rw [mem_inboxes, after_logged hdir, or_iff_right hout]
  refine ⟨_, list_eq (hedits.isDir hps hdir), hmem,
    inboxes_bytes (hedits.namesIn_nodup hps honce) fun inbox h => ?_⟩
  obtain ⟨_, v, _, -, rfl, -⟩ := (hmem inbox).mp h
  exact ⟨v.name, rfl⟩

/-- **Inboxes are independent.** The names of their files never coincide, and only those of logs
    are taken for inboxes. Whatever stands on the disk, a call leaves the log of every other inbox,
    and what calls on one inbox are told in a run of calls on many, and the log that they leave, is
    as if the others had not been made. After any run in a directory without inboxes, a listing
    names those to which a record was ever appended, in the order of the bytes of their names and so
    each once. -/
theorem inboxes_independent (s : InboxStore) :
    (∀ a b : String, InboxId.ofName a ≠ InboxId.ofName b →
      (s.places (InboxId.ofName a)).Disjoint (s.places (InboxId.ofName b))) ∧
    (∀ a : String, (s.places (InboxId.ofName a)).Nodup ∧
      inboxOfName? (logName (InboxId.ofName a)) = some (InboxId.ofName a) ∧
      inboxOfName? (lockName (InboxId.ofName a)) = none ∧
      inboxOfName? (draftName (InboxId.ofName a)) = none) ∧
    (∀ (disk : Disk) (v : Visit) (inbox : InboxId), inbox ≠ v.inbox →
      s.log (s.visit disk v).2.disk inbox = s.log disk inbox) ∧
    (∀ (disk : Disk) (vs : List Visit) (inbox : InboxId),
      s.eventsOf inbox disk vs = s.events inbox disk ((Visit.only inbox vs).map (·.turn)) ∧
        s.log (s.after disk vs) inbox = s.log (s.after disk (Visit.only inbox vs)) inbox) ∧
    ∀ (disk : Disk) (names : List String), disk.list s.dir = .ok names → names.Nodup →
      s.list disk = .ok [] → ∀ vs : List Visit,
        ∃ ids, s.list (s.after disk vs) = .ok ids ∧
          (∀ inbox, inbox ∈ ids ↔ s.Appended disk vs inbox) ∧
          ids.Pairwise fun a b => encode a.text < encode b.text := by
  refine ⟨fun a b h => places_disjoint h, fun a => ⟨places_nodup s _, ?_, ?_, ?_⟩,
    fun disk v inbox h => (visit_elsewhere h disk).log_eq, fun disk vs inbox => ?_,
    fun disk names hnames honce hnone vs => list_after hnames honce hnone vs⟩
  · exact inboxOfName?_eq_some.mpr rfl
  · exact inboxOfName?_lockName _
  · exact inboxOfName?_draftName _
  · exact eventsOf_eq s inbox disk vs

/-- A listing in the order of the bytes is told by its members. -/
theorem eq_of_increasing {ids ids' : List InboxId}
    (h : ids.Pairwise fun a b => encode a.text < encode b.text)
    (h' : ids'.Pairwise fun a b => encode a.text < encode b.text)
    (hmem : ∀ inbox, inbox ∈ ids ↔ inbox ∈ ids') : ids = ids' := by
  have hnodup {l : List InboxId}
      (hl : l.Pairwise fun a b => encode a.text < encode b.text) : l.Nodup := by
    refine hl.imp fun hab heq => ?_
    rw [heq] at hab
    exact List.lt_irrefl _ hab
  exact List.Perm.eq_of_pairwise (fun a b _ _ hab hba => absurd hba (List.lt_asymm hab)) h h'
    ((List.perm_ext_iff_of_nodup (hnodup h) (hnodup h')).mpr hmem)

/-- Messages to two sessions, of which one is named as the log of the other. -/
def nested : List Visit :=
  [⟨"a.jsonl", ⟨.enqueue ⟨⟨"m1"⟩, InboxId.ofName "a.jsonl", "x", 1000, none⟩, 0, []⟩, rfl⟩,
    ⟨"a", ⟨.enqueue ⟨⟨"m2"⟩, InboxId.ofName "a", "y", 2000, none⟩, 0, []⟩, rfl⟩]

/-- The two share no file, the first message is not noticed by the other session, and both inboxes
    are listed. -/
theorem inboxes_independent_nested :
    let s : InboxStore := ⟨["q"]⟩
    let disk : Disk := ⟨[(["q"], .directory)]⟩
    (s.places (InboxId.ofName "a")).Disjoint (s.places (InboxId.ofName "a.jsonl")) ∧
      (∀ v ∈ nested.head?, s.log (s.visit disk v).2.disk (InboxId.ofName "a") =
        s.log disk (InboxId.ofName "a")) ∧
      s.list (s.after disk nested) = .ok [InboxId.ofName "a", InboxId.ofName "a.jsonl"] := by
  intro s disk
  obtain ⟨hapart, -, helsewhere, -, hlist⟩ := inboxes_independent s
  have hne : InboxId.ofName "a" ≠ InboxId.ofName "a.jsonl" := by decide +kernel
  refine ⟨hapart "a" "a.jsonl" hne, ?_, ?_⟩
  · rintro v ⟨⟩
    exact helsewhere disk _ _ hne
  · obtain ⟨ids, hids, hmem, hsorted⟩ :=
      hlist disk [] rfl List.nodup_nil (by decide +kernel) nested
    have hpair : [InboxId.ofName "a", InboxId.ofName "a.jsonl"].Pairwise
        fun a b => encode a.text < encode b.text := by decide +kernel
    have hfirst : s.Appended disk nested (InboxId.ofName "a.jsonl") :=
      appended_cons.mpr (.inl ⟨rfl, [], .message ⟨⟨"m1"⟩, InboxId.ofName "a.jsonl", "x", 1000, none⟩,
        by decide +kernel, by decide +kernel⟩)
    have hsecond : s.Appended disk nested (InboxId.ofName "a") :=
      appended_cons.mpr (.inr (appended_cons.mpr (.inl ⟨rfl, [],
        .message ⟨⟨"m2"⟩, InboxId.ofName "a", "y", 2000, none⟩,
        by decide +kernel, by decide +kernel⟩)))
    rw [hids, eq_of_increasing hsorted hpair]
    intro inbox
    rw [hmem]
    constructor
    · rintro ⟨earlier, v, later, hvs, rfl, -⟩
      have hv : v ∈ nested := hvs ▸ List.mem_append_right _ (List.mem_cons_self ..)
      simp only [nested, List.mem_cons, List.not_mem_nil, or_false] at hv
      rcases hv with rfl | rfl
      · exact List.mem_cons_of_mem _ (List.mem_cons_self ..)
      · exact List.mem_cons_self ..
    · intro h
      simp only [List.mem_cons, List.not_mem_nil, or_false] at h
      rcases h with rfl | rfl
      · exact hsecond
      · exact hfirst

end InboxStore

end AgentSupervisor
