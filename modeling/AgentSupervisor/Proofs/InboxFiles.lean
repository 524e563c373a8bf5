import AgentSupervisor.Proofs.Elsewhere
import AgentSupervisor.Proofs.InboxStore

/-!
# Files of one inbox

The names of its files tell the inbox and which of its files it is. What an operation comes to
depends on the files of its inbox alone: on its log, and on whether its lock and its draft can be
opened, but not on what is in those two.

* `InboxStore.append_ending_inj` : what the name of a file tells;
* `InboxStore.places_disjoint`   : two inboxes share no place;
* `InboxStore.Alike`             : an inbox looks the same on two disks;
* `InboxStore.underLock_alike`   : then an operation comes to the same on both.
-/

namespace AgentSupervisor

/-! ## Files that open alike -/

namespace Disk

variable {d d' : Disk} {p q : Place}

/-- The place can be found, and a file stands there or nothing. -/
def Opens (d : Disk) (p : Place) : Prop := ∃ e, d.find p = .ok e ∧ FileOrNone e

/-- A file can be opened on both disks, or what stands there is the same. -/
def OpensAlike (p : Place) (d d' : Disk) : Prop :=
  d'.find p = d.find p ∨ d.Opens p ∧ d'.Opens p

theorem Opens.of_find (h : d.Opens p) (hf : d'.find p = d.find p) : d'.Opens p := by
  obtain ⟨e, he, hfile⟩ := h
  exact ⟨e, hf.trans he, hfile⟩

theorem opens_of_modify {f : Bytes → Bytes} (h : d.modify p f = .ok d') : d.Opens p := by
  obtain ⟨e, hf, hfile, -⟩ := modify_ok h
  exact ⟨e, hf, hfile⟩

/-- A file can be opened where one has been put. -/
theorem opens_put {e : Option Entry} (hp : p ≠ []) (hf : d.find p = .ok e) (bs : Bytes) :
    (d.put p (.file bs)).Opens p :=
  ⟨_, find_put_self hp hf _, .inr ⟨bs, rfl⟩⟩

theorem opens_erase {e : Option Entry} (hp : p ≠ []) (hf : d.find p = .ok e) :
    (d.erase p).Opens p :=
  ⟨none, find_erase_self hp hf, .inl rfl⟩

theorem modify_error {e : IoError} {f f' : Bytes → Bytes} (h : d.modify p f = .error e)
    (hf : d'.find p = d.find p) : d'.modify p f' = .error e := by
  rw [modify] at h ⊢
  rw [hf]
  cases hp : d.find p with
  | error e' =>
    rw [hp] at h
    exact h
  | ok there =>
    rw [hp] at h
    cases there with
    | none => cases h
    | some x => cases x with
      | file bs => cases h
      | directory | socket | link => exact h

/-- What opens alike fails alike. -/
theorem OpensAlike.modify (h : OpensAlike p d d') (f : Bytes → Bytes) :
    (∃ e, d.modify p f = .error e ∧ d'.modify p f = .error e) ∨ d.Opens p ∧ d'.Opens p := by
  rcases h with h | h
  · cases hm : d.modify p f with
    | error e => exact .inl ⟨e, rfl, modify_error hm h⟩
    | ok _ => exact .inr ⟨opens_of_modify hm, (opens_of_modify hm).of_find h⟩
  · exact .inr h

theorem OpensAlike.trans {d'' : Disk} (h : OpensAlike p d d') (h' : OpensAlike p d' d'') :
    OpensAlike p d d'' := by
  rcases h with h | ⟨ho, ho'⟩
  · rcases h' with h' | ⟨ho', ho''⟩
    · exact .inl (h'.trans h)
    · exact .inr ⟨ho'.of_find h.symm, ho''⟩
  · rcases h' with h' | ⟨-, ho''⟩
    · exact .inr ⟨ho, ho'.of_find h'⟩
    · exact .inr ⟨ho, ho''⟩

theorem OpensAlike.symm (h : OpensAlike p d d') : OpensAlike p d' d :=
  h.imp Eq.symm And.symm

/-- A change elsewhere makes no difference. -/
theorem OpensAlike.congr {a b : Disk} (h : OpensAlike p d d') (ha : a.find p = d.find p)
    (hb : b.find p = d'.find p) : OpensAlike p a b :=
  .trans (.inl ha.symm) (h.trans (.inl hb))

theorem rename_of_find {e : Entry} (hp : d.find p = .ok (some e)) :
    d.rename p q = (d.find q).bind fun there =>
      if there = some .directory then .error .isADirectory else .ok ((d.erase p).put q e) := by
  rw [rename, hp]
  cases d.find q with
  | error e' => rfl
  | ok there =>
    cases there with
    | none => rfl
    | some e' => cases e' <;> rfl

end Disk

namespace InboxStore

variable {s : InboxStore} {d d' : Disk} {a b inbox : InboxId}

/-! ## Names and places -/

/-- How the names of an inbox's files end. -/
def endings : List String := [".jsonl", ".lock", ".jsonl.tmp"]

theorem last_of_ending : ∀ x ∈ endings, x.toList ≠ [] ∧
    ∀ y ∈ endings, x.toList.getLast? = y.toList.getLast? → x = y := by
  decide

/-- **What the name of a file tells**: the last character tells the ending, and what is before it
    is the inbox, even when that ends like the name of a file. -/
theorem append_ending_inj {x y : String} (hx : x ∈ endings) (hy : y ∈ endings)
    (h : a.text ++ x = b.text ++ y) : a = b ∧ x = y := by
  have hlast (c z : String) (hz : z ∈ endings) :
      (c ++ z).toList.getLast? = z.toList.getLast? := by
    rw [String.toList_append, List.getLast?_append_of_ne_nil _ (last_of_ending z hz).1]
  have hxy : x = y := by
    refine (last_of_ending x hx).2 y hy ?_
    rw [← hlast a.text x hx, ← hlast b.text y hy, h]
  subst hxy
  have hchars := congrArg String.toList h
  rw [String.toList_append, String.toList_append] at hchars
  have htext : a.text = b.text := String.toList_inj.mp (List.append_cancel_right hchars)
  exact ⟨congrArg InboxId.mk htext, rfl⟩

theorem draftName_eq (inbox : InboxId) : draftName inbox = inbox.text ++ ".jsonl.tmp" :=
  String.append_assoc

theorem mem_places {p : Place} :
    p ∈ s.places inbox ↔ ∃ x ∈ endings, p = s.dir ++ [inbox.text ++ x] := by
  simp only [places, logPlace, lockPlace, draftPlace, logName, lockName, draftName_eq, endings,
    List.mem_cons, List.not_mem_nil, or_false, exists_eq_or_imp, exists_eq_left]

/-- **Two inboxes share no place**, not even for different purposes. -/
theorem places_disjoint (h : a ≠ b) : (s.places a).Disjoint (s.places b) := by
  intro p ha hb
  obtain ⟨x, hx, rfl⟩ := mem_places.mp ha
  obtain ⟨y, hy, heq⟩ := mem_places.mp hb
  exact h (append_ending_inj hx hy (List.singleton_inj.mp (List.append_cancel_left heq))).1

theorem places_nodup (s : InboxStore) (inbox : InboxId) : (s.places inbox).Nodup := by
  simp [places, logPlace_ne_lockPlace, logPlace_ne_draftPlace, lockPlace_ne_draftPlace]

theorem logPlace_mem_places : s.logPlace a ∈ s.places b ↔ a = b := by
  constructor
  · intro h
    by_contra hne
    exact places_disjoint hne (List.mem_cons_self ..) h
  · rintro rfl
    exact List.mem_cons_self ..

/-- Files in the directory of inboxes are not on the way to each other. -/
theorem not_prefix_of_mem {p q : Place} (hp : p ∈ s.places a) (hq : q ∈ s.places b)
    (h : p ≠ q) : ¬ p <+: q := by
  obtain ⟨m, rfl⟩ := exists_of_mem_places hp
  obtain ⟨n, rfl⟩ := exists_of_mem_places hq
  exact Disk.not_prefix_sibling fun e => h (by rw [e])

theorem ne_nil_of_mem {p : Place} (hp : p ∈ s.places a) : p ≠ [] := by
  obtain ⟨n, rfl⟩ := exists_of_mem_places hp
  exact Disk.child_ne_nil _ _

theorem logPlace_mem (s : InboxStore) (inbox : InboxId) : s.logPlace inbox ∈ s.places inbox := by
  simp [places]

theorem lockPlace_mem (s : InboxStore) (inbox : InboxId) : s.lockPlace inbox ∈ s.places inbox := by
  simp [places]

theorem draftPlace_mem (s : InboxStore) (inbox : InboxId) :
    s.draftPlace inbox ∈ s.places inbox := by
  simp [places]

theorem lock_off_log (s : InboxStore) (inbox : InboxId) :
    ¬ s.lockPlace inbox <+: s.logPlace inbox :=
  not_prefix_of_mem (lockPlace_mem s inbox) (logPlace_mem s inbox)
    (logPlace_ne_lockPlace s inbox).symm

theorem draft_off_log (s : InboxStore) (inbox : InboxId) :
    ¬ s.draftPlace inbox <+: s.logPlace inbox :=
  not_prefix_of_mem (draftPlace_mem s inbox) (logPlace_mem s inbox)
    (logPlace_ne_draftPlace s inbox).symm

/-! ## Logs -/

theorem log_of_find {e : Option Entry} (hf : d.find (s.logPlace inbox) = .ok e)
    (hfile : Disk.FileOrNone e) : s.log d inbox = .ok (Disk.contentOf e) := by
  rw [InboxStore.log, Disk.read, hf]
  rcases hfile with rfl | ⟨bs, rfl⟩
  · rfl
  · rfl

theorem log_modify {f : Bytes → Bytes} {log : Bytes}
    (h : d.modify (s.logPlace inbox) f = .ok d') (hlog : s.log d inbox = .ok log) :
    s.log d' inbox = .ok (f log) := by
  obtain ⟨e, hf, hfile, rfl⟩ := Disk.modify_ok h
  rw [log_of_find hf hfile] at hlog
  cases hlog
  exact log_of_find (Disk.find_put_self (Disk.child_ne_nil _ _) hf _) (.inr ⟨_, rfl⟩)

/-- **The log after a change**, wherever it can be made. -/
theorem log_change {c : Change} {log : Bytes} (h : s.change d inbox c = .ok d')
    (hlog : s.log d inbox = .ok log) : s.log d' inbox = .ok (c.apply log) := by
  have hnil : s.logPlace inbox ≠ [] := Disk.child_ne_nil _ _
  cases c with
  | keep =>
    cases h
    exact hlog
  | append r => exact log_modify (f := fun log => Change.apply log (.append r)) h hlog
  | replace kept =>
    obtain ⟨draft, hw, hr⟩ := change_replace_ok.mp h
    obtain ⟨e, there, hf, hthere, rfl⟩ := Disk.rename_ok hr
    rw [Disk.find_write hw] at hf
    cases hf
    rw [← Disk.find_erase (draft_off_log s inbox)] at hthere
    exact log_of_find (Disk.find_put_self hnil hthere _) (.inr ⟨_, rfl⟩)

theorem snapshot_eq_ok {snapshot : Snapshot} (h : s.snapshot d inbox = .ok snapshot) :
    ∃ log, s.log d inbox = .ok log ∧ Snapshot.ofLog log = .ok snapshot := by
  rw [InboxStore.snapshot] at h
  cases hlog : s.log d inbox with
  | error e =>
    rw [hlog] at h
    cases h
  | ok log =>
    rw [hlog] at h
    exact ⟨log, rfl, h⟩

/-- The log that a call finds is the one that was there before it took its lock. -/
theorem log_of_lock {st : Storage} {mode : LockMode} {r : Bool × Storage}
    (h : st.lock (s.lockPlace inbox) mode = .ok r) :
    s.log r.2.disk inbox = s.log st.disk inbox ∧
      r.2.disk.at? (s.logPlace inbox) = st.disk.at? (s.logPlace inbox) := by
  constructor
  · rw [InboxStore.log, InboxStore.log, Disk.read, Disk.read,
      Storage.find_lock (lock_off_log s inbox) h]
  · exact (Storage.lock_edits h).at? (by simp [lockPlace]) (by simp [logPlace_ne_lockPlace])

theorem snapshot_of_lock {st : Storage} {mode : LockMode} {r : Bool × Storage}
    (h : st.lock (s.lockPlace inbox) mode = .ok r) :
    s.snapshot r.2.disk inbox = s.snapshot st.disk inbox := by
  rw [InboxStore.snapshot, InboxStore.snapshot, (log_of_lock h).1]

/-! ## Calls -/

/-- A call changes nothing but the files of its inbox. -/
theorem perform_edits (call : InboxCall) (hon : call.On inbox) (st : Storage) :
    Disk.Edits (s.places inbox) st.disk (s.perform inbox st call).2.disk := by
  rw [perform_eq hon]
  exact underLock_edits inbox _ _ st

/-! ## Disks that look alike -/

/-- An inbox looks the same on two disks: its log is the same, and its files open alike. -/
structure Alike (s : InboxStore) (inbox : InboxId) (d d' : Disk) : Prop where
  log : d'.find (s.logPlace inbox) = d.find (s.logPlace inbox)
  opens : ∀ p ∈ s.places inbox, Disk.OpensAlike p d d'

namespace Alike

theorem of_find (h : ∀ p ∈ s.places inbox, d'.find p = d.find p) : s.Alike inbox d d' :=
  ⟨h _ (logPlace_mem s inbox), fun p hp => .inl (h p hp)⟩

/-- Writing a file other than the log makes no difference to the inbox. -/
theorem of_modify {p : Place} {f : Bytes → Bytes} (hp : p ∈ s.places inbox)
    (hne : p ≠ s.logPlace inbox) (h : d.modify p f = .ok d') : s.Alike inbox d d' := by
  have hnil := ne_nil_of_mem hp
  obtain ⟨e, hf, hfile, rfl⟩ := Disk.modify_ok h
  refine ⟨Disk.find_put (not_prefix_of_mem hp (logPlace_mem s inbox) hne) _ _, fun q hq => ?_⟩
  by_cases hpq : p = q
  · subst hpq
    exact .inr ⟨⟨e, hf, hfile⟩, Disk.opens_put hnil hf _⟩
  · exact .inl (Disk.find_put (not_prefix_of_mem hp hq hpq) _ _)

theorem symm (h : s.Alike inbox d d') : s.Alike inbox d' d :=
  ⟨h.log.symm, fun p hp => (h.opens p hp).symm⟩

theorem trans {d'' : Disk} (h : s.Alike inbox d d') (h' : s.Alike inbox d' d'') :
    s.Alike inbox d d'' :=
  ⟨h'.log.trans h.log, fun p hp => (h.opens p hp).trans (h'.opens p hp)⟩

/-- A file is put at one of the places. If it is the log, it has to be the same. -/
theorem put {p : Place} {e e' : Option Entry} {bs bs' : Bytes} (h : s.Alike inbox d d')
    (hp : p ∈ s.places inbox) (hf : d.find p = .ok e) (hf' : d'.find p = .ok e')
    (hlog : p = s.logPlace inbox → bs = bs') :
    s.Alike inbox (d.put p (.file bs)) (d'.put p (.file bs')) := by
  have hnil := ne_nil_of_mem hp
  constructor
  · by_cases hpl : p = s.logPlace inbox
    · rw [← hpl, Disk.find_put_self hnil hf, Disk.find_put_self hnil hf', hlog hpl]
    · have hoff := not_prefix_of_mem hp (logPlace_mem s inbox) hpl
      rw [Disk.find_put hoff, Disk.find_put hoff, h.log]
  · intro q hq
    by_cases hpq : p = q
    · subst hpq
      exact .inr ⟨Disk.opens_put hnil hf bs, Disk.opens_put hnil hf' bs'⟩
    · have hoff := not_prefix_of_mem hp hq hpq
      exact (h.opens q hq).congr (Disk.find_put hoff _ _) (Disk.find_put hoff _ _)

/-- What stands at one of the places is taken away. -/
theorem erase {p : Place} {e e' : Option Entry} (h : s.Alike inbox d d')
    (hp : p ∈ s.places inbox) (hf : d.find p = .ok e) (hf' : d'.find p = .ok e') :
    s.Alike inbox (d.erase p) (d'.erase p) := by
  have hnil := ne_nil_of_mem hp
  constructor
  · by_cases hpl : p = s.logPlace inbox
    · rw [← hpl, Disk.find_erase_self hnil hf, Disk.find_erase_self hnil hf']
    · have hoff := not_prefix_of_mem hp (logPlace_mem s inbox) hpl
      rw [Disk.find_erase hoff, Disk.find_erase hoff, h.log]
  · intro q hq
    by_cases hpq : p = q
    · subst hpq
      exact .inr ⟨Disk.opens_erase hnil hf, Disk.opens_erase hnil hf'⟩
    · have hoff := not_prefix_of_mem hp hq hpq
      exact (h.opens q hq).congr (Disk.find_erase hoff _) (Disk.find_erase hoff _)

/-- A file is written on both disks, or for the same reason on neither. -/
theorem modify {p : Place} (h : s.Alike inbox d d') (hp : p ∈ s.places inbox)
    (f : Bytes → Bytes) :
    (∃ e, d.modify p f = .error e ∧ d'.modify p f = .error e) ∨
      ∃ x y, d.modify p f = .ok x ∧ d'.modify p f = .ok y ∧ s.Alike inbox x y := by
  rcases (h.opens p hp).modify f with hfail | ⟨⟨e, hf, hfile⟩, e', hf', hfile'⟩
  · exact .inl hfail
  · refine .inr ⟨_, _, Disk.modify_of_find hf hfile f, Disk.modify_of_find hf' hfile' f,
      h.put hp hf hf' ?_⟩
    rintro rfl
    rw [h.log, hf] at hf'
    cases hf'
    rfl

/-- The draft takes the place of the log on both disks, or for the same reason on neither. -/
theorem rename {bs : Bytes} (h : s.Alike inbox d d')
    (hf : d.find (s.draftPlace inbox) = .ok (some (.file bs)))
    (hf' : d'.find (s.draftPlace inbox) = .ok (some (.file bs))) :
    (∃ e, d.rename (s.draftPlace inbox) (s.logPlace inbox) = .error e ∧
      d'.rename (s.draftPlace inbox) (s.logPlace inbox) = .error e) ∨
    ∃ x y, d.rename (s.draftPlace inbox) (s.logPlace inbox) = .ok x ∧
      d'.rename (s.draftPlace inbox) (s.logPlace inbox) = .ok y ∧ s.Alike inbox x y := by
  have hdraft := draftPlace_mem s inbox
  have hoff := draft_off_log s inbox
  rw [Disk.rename_of_find hf, Disk.rename_of_find hf', h.log]
  cases hlog : d.find (s.logPlace inbox) with
  | error e => exact .inl ⟨e, rfl, rfl⟩
  | ok there =>
    simp only [Except.bind]
    by_cases hdir : there = some .directory
    · simp only [hdir, if_true]
      exact .inl ⟨_, rfl, rfl⟩
    · simp only [hdir, if_false]
      have hthere : (d.erase (s.draftPlace inbox)).find (s.logPlace inbox) = .ok there := by
        rw [Disk.find_erase hoff, hlog]
      have hthere' : (d'.erase (s.draftPlace inbox)).find (s.logPlace inbox) = .ok there := by
        rw [Disk.find_erase hoff, h.log, hlog]
      exact .inr ⟨_, _, rfl, rfl, (h.erase hdraft hf hf').put (logPlace_mem s inbox) hthere hthere'
        fun _ => rfl⟩

theorem change (h : s.Alike inbox d d') (c : Change) :
    (∃ e, s.change d inbox c = .error e ∧ s.change d' inbox c = .error e) ∨
      ∃ x y, s.change d inbox c = .ok x ∧ s.change d' inbox c = .ok y ∧ s.Alike inbox x y := by
  cases c with
  | keep => exact .inr ⟨d, d', rfl, rfl, h⟩
  | append r => exact h.modify (logPlace_mem s inbox) fun log => Change.apply log (.append r)
  | replace kept =>
    have hdraft := draftPlace_mem s inbox
    rcases h.modify hdraft fun _ => Change.fresh kept with ⟨e, hw, hw'⟩ | ⟨x, y, hw, hw', hxy⟩
    · refine .inl ⟨e, ?_, ?_⟩
      · rw [InboxStore.change, Disk.write, hw]
        rfl
      · rw [InboxStore.change, Disk.write, hw']
        rfl
    · have hchange {d₀ x₀ : Disk}
          (hw₀ : d₀.modify (s.draftPlace inbox) (fun _ => Change.fresh kept) = .ok x₀) :
          s.change d₀ inbox (.replace kept) =
            x₀.rename (s.draftPlace inbox) (s.logPlace inbox) := by
        rw [InboxStore.change, Disk.write, hw₀]
        rfl
      rw [hchange hw, hchange hw']
      exact hxy.rename (Disk.find_write hw) (Disk.find_write hw')

/-- The lock is had, given up or not to be opened on both disks. -/
theorem lock {st : Storage} (h : s.Alike inbox st.disk d') (mode : LockMode) :
    (∃ e, st.lock (s.lockPlace inbox) mode = .error e ∧
      { st with disk := d' }.lock (s.lockPlace inbox) mode = .error e) ∨
    ∃ got locked y, st.lock (s.lockPlace inbox) mode = .ok (got, locked) ∧
      { st with disk := d' }.lock (s.lockPlace inbox) mode = .ok (got, { locked with disk := y }) ∧
      s.Alike inbox locked.disk y := by
  unfold Storage.lock
  rcases h.modify (lockPlace_mem s inbox) id with ⟨e, ht, ht'⟩ | ⟨x, y, ht, ht', hxy⟩
  · refine .inl ⟨e, ?_, ?_⟩
    · rw [Disk.touch, ht]
      rfl
    · rw [Disk.touch, ht']
      rfl
  · rw [Disk.touch, ht, Disk.touch, ht']
    cases hl : Storage.lockedAt st.holds (s.lockPlace inbox) mode Storage.lockTries st.now with
    | none => exact .inr ⟨false, _, y, rfl, rfl, hxy⟩
    | some t => exact .inr ⟨true, _, y, rfl, rfl, hxy⟩

end Alike

/-- **An operation comes to the same** on disks on which its inbox looks the same, and leaves it
    looking the same. -/
theorem underLock_alike {α : Type} {st : Storage} (h : s.Alike inbox st.disk d') (mode : LockMode)
    (decide : Snapshot → UInt64 → Except InboxError (α × Change)) :
    (s.underLock inbox mode decide { st with disk := d' }).1 =
        (s.underLock inbox mode decide st).1 ∧
      s.Alike inbox (s.underLock inbox mode decide st).2.disk
        (s.underLock inbox mode decide { st with disk := d' }).2.disk := by
  rw [underLock_eq, underLock_eq]
  rcases h.lock mode with ⟨e, hl, hl'⟩ | ⟨got, locked, y, hl, hl', hy⟩
  · rw [hl, hl']
    exact ⟨rfl, h⟩
  · rw [hl, hl']
    cases got with
    | false => exact ⟨rfl, hy⟩
    | true =>
      simp only [snapshot_of_find hy.log]
      cases s.snapshot locked.disk inbox with
      | error e => exact ⟨rfl, hy⟩
      | ok snapshot =>
        simp only
        cases decide snapshot (UInt64.ofNat locked.now) with
        | error e => exact ⟨rfl, hy⟩
        | ok ac =>
          obtain ⟨a, c⟩ := ac
          simp only
          rcases hy.change c with ⟨e, hc, hc'⟩ | ⟨x', y', hc, hc', hxy⟩
          · rw [hc, hc']
            exact ⟨rfl, hy⟩
          · rw [hc, hc']
            exact ⟨rfl, hxy⟩

theorem perform_alike {st : Storage} {call : InboxCall} (h : s.Alike inbox st.disk d')
    (hon : call.On inbox) :
    (s.perform inbox { st with disk := d' } call).1 = (s.perform inbox st call).1 ∧
      s.Alike inbox (s.perform inbox st call).2.disk
        (s.perform inbox { st with disk := d' } call).2.disk := by
  rw [perform_eq hon, perform_eq hon]
  exact underLock_alike h _ _

theorem Alike.log_eq (h : s.Alike inbox d d') : s.log d' inbox = s.log d inbox := by
  rw [InboxStore.log, InboxStore.log, Disk.read, Disk.read, h.log]

end InboxStore

end AgentSupervisor
