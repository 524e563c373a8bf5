import AgentSupervisor.Delivery.Router
import AgentSupervisor.Proofs.Directory

/-!
# Places that are left alone

A change at one place of a disk is not noticed at another one, unless the first is on the way to
the second.

* `find_put`, `find_erase`   : what is found elsewhere after a change;
* `find_makeDirs`            : what is there stays when directories are made;
* `seen_remove`, `seen_write` : what is at the place itself;
* `Disk.Edits`               : changes at known places only;
* `InboxStore.underLock_ok`, `InboxStore.underLock_error` : what an operation on an inbox has done;
* `InboxStore.underLock_edits` : what it changes at most;
* `Router.find_deliver`      : what a delivery leaves alone.
-/

namespace AgentSupervisor

namespace Disk

variable {d d' : Disk} {p q : Place}

/-- What a walk to a place comes upon: nothing if there is no way to it. -/
def seen (d : Disk) (p : Place) : Option Entry :=
  match d.find p with
  | .ok e => e
  | .error _ => none

theorem seen_of_find (h : d'.find p = d.find p) : d'.seen p = d.seen p := by
  rw [seen, seen, h]

/-! ## What the operations change -/

theorem modify_ok {f : Bytes → Bytes} (h : d.modify q f = .ok d') :
    ∃ e, d.find q = .ok e ∧ FileOrNone e ∧ d' = d.put q (.file (f (contentOf e))) := by
  unfold modify at h
  cases hq : d.find q with
  | error e =>
    rw [hq] at h
    cases h
  | ok e =>
    rw [hq] at h
    refine ⟨e, rfl, ?_⟩
    cases e with
    | none =>
      cases h
      exact ⟨.inl rfl, rfl⟩
    | some e =>
      cases e with
      | file bs =>
        cases h
        exact ⟨.inr ⟨bs, rfl⟩, rfl⟩
      | directory | socket | link => cases h

theorem remove_ok (h : d.remove q = .ok d') :
    ∃ e, d.find q = .ok (some e) ∧ e ≠ .directory ∧ d' = d.erase q := by
  unfold remove at h
  cases hq : d.find q with
  | error e =>
    rw [hq] at h
    cases h
  | ok e =>
    rw [hq] at h
    cases e with
    | none => cases h
    | some e =>
      cases e with
      | directory => cases h
      | file | socket | link =>
        cases h
        exact ⟨_, rfl, by simp, rfl⟩

theorem rename_ok {a b : Place} (h : d.rename a b = .ok d') :
    ∃ e there, d.find a = .ok (some e) ∧ d.find b = .ok there ∧ d' = (d.erase a).put b e := by
  unfold rename at h
  cases ha : d.find a with
  | error e =>
    rw [ha] at h
    cases h
  | ok e =>
    cases hb : d.find b with
    | error e' =>
      rw [ha, hb] at h
      cases h
    | ok there =>
      rw [ha, hb] at h
      cases e with
      | none => cases h
      | some e =>
        refine ⟨e, there, rfl, rfl, ?_⟩
        cases there with
        | none =>
          cases h
          rfl
        | some e' =>
          cases e' with
          | directory => cases h
          | file | socket | link =>
            cases h
            rfl

/-! ## Elsewhere -/

theorem ne_nil_of_apart (h : ¬ q <+: p) : q ≠ [] := by
  rintro rfl
  exact h List.nil_prefix

theorem find_put (h : ¬ q <+: p) (d : Disk) (e : Entry) : (d.put q e).find p = d.find p := by
  refine walk_congr fun ms hms => ?_
  rw [at?_put _ _ _ _ (ne_nil_of_apart h), List.nil_append, if_neg]
  rintro rfl
  exact h hms

theorem find_erase (h : ¬ q <+: p) (d : Disk) : (d.erase q).find p = d.find p := by
  refine walk_congr fun ms hms => ?_
  rw [at?_erase _ _ _ (ne_nil_of_apart h), List.nil_append, if_neg]
  rintro rfl
  exact h hms

theorem find_modify (h : ¬ q <+: p) {f : Bytes → Bytes} (hm : d.modify q f = .ok d') :
    d'.find p = d.find p := by
  obtain ⟨e, -, -, rfl⟩ := modify_ok hm
  exact find_put h d _

theorem find_remove (h : ¬ q <+: p) (hr : d.remove q = .ok d') : d'.find p = d.find p := by
  obtain ⟨e, -, -, rfl⟩ := remove_ok hr
  exact find_erase h d

/-- What stands on the way to something, and the thing itself, is found again where more stands. -/
theorem walk_more (hmore : ∀ q e, d.at? q = some e → d'.at? q = some e) {at_ : Place}
    {ns : List String} {e : Entry} (h : d.walk at_ ns = .ok (some e)) :
    d'.walk at_ ns = .ok (some e) := by
  induction ns generalizing at_ with
  | nil => exact congrArg Except.ok (hmore _ _ (Except.ok.inj h))
  | cons n ns ih =>
    rw [walk] at h ⊢
    split at h
    · cases h
    · rename_i hdir
      rw [hmore _ _ hdir]
      split at h
      · cases h
      · rename_i hshort
        simp only [hshort, if_false]
        exact ih h
    · cases h

/-- Directories are made only where nothing stands. -/
theorem at?_makeDirsFrom {at_ : Place} {ns : List String} (h : d.makeDirsFrom at_ ns = .ok d')
    (q : Place) (e : Entry) (hq : d.at? q = some e) : d'.at? q = some e := by
  induction ns generalizing at_ d with
  | nil =>
    cases h
    exact hq
  | cons n ns ih =>
    rw [makeDirsFrom] at h
    split at h
    · cases h
    · split at h
      · rename_i hnone
        refine ih h ?_
        rw [at?_put _ _ _ _ (child_ne_nil _ _), if_neg, hq]
        rintro rfl
        cases hnone.symm.trans hq
      · exact ih h hq
      · cases h

theorem find_makeDirs {e : Entry} (h : d.makeDirs q = .ok d') (hf : d.find p = .ok (some e)) :
    d'.find p = .ok (some e) :=
  walk_more (fun q e hq => at?_makeDirsFrom h q e hq) hf

/-- Of two names in a directory, neither is on the way to the other. -/
theorem not_prefix_sibling {dir : Place} {m n : String} (h : m ≠ n) :
    ¬ dir ++ [m] <+: dir ++ [n] := by
  intro hle
  have heq := hle.eq_of_length (by simp)
  exact h (List.singleton_inj.mp (List.append_cancel_left heq))

/-- A file in a directory is not on the way to a file in a directory beside it. -/
theorem not_prefix_cousin {dir : Place} {a b : String} (h : a ≠ b) (m n : String) :
    ¬ dir ++ [a] ++ [m] <+: dir ++ [b] ++ [n] := by
  intro hle
  have heq := hle.eq_of_length (by simp)
  have hdirs := (List.append_inj' heq rfl).1
  exact h (List.singleton_inj.mp (List.append_cancel_left hdirs))

/-! ## At the place itself -/

theorem not_prefix_parent (dir : Place) (n : String) : ¬ dir ++ [n] <+: dir := by
  intro hle
  have hlen := hle.length_le
  rw [List.length_append, List.length_singleton] at hlen
  omega

theorem exists_child (h : q ≠ []) : ∃ dir n, q = dir ++ [n] := by
  rcases List.eq_nil_or_concat q with hq | ⟨dir, n, hq⟩
  · exact absurd hq h
  · exact ⟨dir, n, by rw [hq, List.concat_eq_append]⟩

/-- A place that could be found still can while the way there is the same. -/
theorem find_child_of_way {dir : Place} {n : String} {e : Option Entry}
    (hway : d'.walk [] dir = d.walk [] dir) (hf : d.find (dir ++ [n]) = .ok e) :
    d'.find (dir ++ [n]) = .ok (d'.at? (dir ++ [n])) := by
  rw [find, walk_append] at hf ⊢
  rw [hway]
  split at hf
  · cases hf
  · cases hf
  · split at hf
    · cases hf
    · rename_i hshort
      rw [if_neg hshort, List.nil_append]
  · cases hf

theorem find_put_self (hq : q ≠ []) {e₀ : Option Entry} (hf : d.find q = .ok e₀) (e : Entry) :
    (d.put q e).find q = .ok (some e) := by
  obtain ⟨dir, n, rfl⟩ := exists_child hq
  rw [find_child_of_way (find_put (not_prefix_parent dir n) d e) hf, at?_put _ _ _ _ hq,
    if_pos rfl]

theorem find_erase_self (hq : q ≠ []) {e₀ : Option Entry} (hf : d.find q = .ok e₀) :
    (d.erase q).find q = .ok none := by
  obtain ⟨dir, n, rfl⟩ := exists_child hq
  rw [find_child_of_way (find_erase (not_prefix_parent dir n) d) hf, at?_erase _ _ _ hq,
    if_pos rfl]

/-- What has been removed is not there any more. -/
theorem seen_remove (hr : d.remove q = .ok d') : d'.seen q = none := by
  obtain ⟨e, hf, hdir, rfl⟩ := remove_ok hr
  have hq : q ≠ [] := by
    rintro rfl
    cases hf
    exact hdir rfl
  rw [seen, find_erase_self hq hf]

theorem seen_of_remove (hr : d.remove q = .error .notFound) : d.seen q = none := by
  unfold remove at hr
  cases hq : d.find q with
  | error e => rw [seen, hq]
  | ok e =>
    rw [hq] at hr
    cases e with
    | none => rw [seen, hq]
    | some e => cases e <;> cases hr

theorem ne_nil_of_modify {f : Bytes → Bytes} (h : d.modify q f = .ok d') : q ≠ [] := by
  obtain ⟨e, hf, hfile, -⟩ := modify_ok h
  rintro rfl
  cases hf
  rcases hfile with h | ⟨_, h⟩ <;> cases h

theorem find_write {bs : Bytes} (hw : d.write q bs = .ok d') :
    d'.find q = .ok (some (.file bs)) := by
  have hq := ne_nil_of_modify hw
  obtain ⟨e, hf, -, rfl⟩ := modify_ok hw
  exact find_put_self hq hf _

/-- A file holds what has been written to it. -/
theorem seen_write {bs : Bytes} (hw : d.write q bs = .ok d') : d'.seen q = some (.file bs) := by
  rw [seen, find_write hw]

theorem put_put (d : Disk) (q : Place) (a b : Entry) : (d.put q a).put q b = d.put q b := by
  have herase : (d.put q a).erase q = d.erase q := by
    simp only [put, erase, List.filter_cons, bne_self_eq_false, Bool.false_eq_true, if_false,
      List.filter_filter, Bool.and_self]
  rw [put, herase]
  rfl

theorem modify_of_find {e : Option Entry} (hf : d.find q = .ok e) (hfile : FileOrNone e)
    (f : Bytes → Bytes) : d.modify q f = .ok (d.put q (.file (f (contentOf e)))) := by
  unfold modify
  rcases hfile with rfl | ⟨bs, rfl⟩
  · rw [hf]
    rfl
  · rw [hf]
    rfl

/-- What is added to a file that has been written could have been written at once. -/
theorem append_write {a b : Bytes} {d'' : Disk} (hw : d.write q a = .ok d') :
    d'.append q b = .ok d'' ↔ d.write q (a ++ b) = .ok d'' := by
  have hq := ne_nil_of_modify hw
  obtain ⟨e, hf, hfile, rfl⟩ := modify_ok hw
  rw [append, modify_of_find (find_put_self hq hf _) (.inr ⟨_, rfl⟩), put_put, write,
    modify_of_find hf hfile]
  rfl

/-- To write a file is to empty it and then to add to it. -/
theorem append_of_write {bs : Bytes} (hw : d.write q bs = .ok d') :
    ∃ d₁, d.write q [] = .ok d₁ ∧ d₁.append q bs = .ok d' := by
  obtain ⟨e, hf, hfile, -⟩ := modify_ok hw
  have hempty : d.write q [] = .ok _ := modify_of_find hf hfile _
  exact ⟨_, hempty, (append_write hempty).mpr hw⟩

end Disk

/-! ## Changes at known places -/

/-- Entries were put at these places or taken away from them, and nowhere else. -/
inductive Disk.Edits (ps : List Place) (d : Disk) : Disk → Prop where
  | refl : Edits ps d d
  | put {d' : Disk} {p : Place} (h : Edits ps d d') (hp : p ∈ ps) (e : Entry) :
      Edits ps d (d'.put p e)
  | erase {d' : Disk} {p : Place} (h : Edits ps d d') (hp : p ∈ ps) : Edits ps d (d'.erase p)

namespace Disk.Edits

variable {d d' d'' : Disk} {ps qs : List Place} {p q : Place}

theorem trans (h : Edits ps d d') (h' : Edits ps d' d'') : Edits ps d d'' := by
  induction h' with
  | refl => exact h
  | put _ hp e ih => exact ih.put hp e
  | erase _ hp ih => exact ih.erase hp

theorem mono (h : Edits ps d d') (hsub : ps ⊆ qs) : Edits qs d d' := by
  induction h with
  | refl => exact .refl
  | put _ hp e ih => exact ih.put (hsub hp) e
  | erase _ hp ih => exact ih.erase (hsub hp)

/-- What is found elsewhere stays. -/
theorem find (h : Edits ps d d') (hp : ∀ q ∈ ps, ¬ q <+: p) : d'.find p = d.find p := by
  induction h with
  | refl => rfl
  | put _ hq e ih => rw [find_put (hp _ hq), ih]
  | erase _ hq ih => rw [find_erase (hp _ hq), ih]

theorem at? (h : Edits ps d d') (hne : ∀ q ∈ ps, q ≠ []) (hp : p ∉ ps) : d'.at? p = d.at? p := by
  induction h with
  | refl => rfl
  | @put d' q _ hq e ih =>
    have hpq : p ≠ q := fun heq => hp (by rwa [heq])
    rw [at?_put _ _ _ _ (hne _ hq), if_neg hpq, ih]
  | @erase d' q _ hq ih =>
    have hpq : p ≠ q := fun heq => hp (by rwa [heq])
    rw [at?_erase _ _ _ (hne _ hq), if_neg hpq, ih]

theorem modify {f : Bytes → Bytes} (h : Edits ps d d') (hm : d'.modify q f = .ok d'')
    (hq : q ∈ ps) : Edits ps d d'' := by
  obtain ⟨e, -, -, rfl⟩ := modify_ok hm
  exact h.put hq _

theorem rename (h : Edits ps d d') (hr : d'.rename p q = .ok d'') (hp : p ∈ ps) (hq : q ∈ ps) :
    Edits ps d d'' := by
  obtain ⟨e, there, -, -, rfl⟩ := rename_ok hr
  exact (h.erase hp).put hq e

end Disk.Edits

/-! ## Inboxes -/

section

variable {store : InboxStore} {p : Place} {st : Storage}

/-- Whoever asks for a lock has touched its file, had or not. -/
theorem Storage.touch_of_lock {place : Place} {mode : LockMode} {r : Bool × Storage}
    (hl : st.lock place mode = .ok r) : st.disk.touch place = .ok r.2.disk := by
  unfold lock at hl
  cases ht : st.disk.touch place with
  | error e =>
    rw [ht] at hl
    cases hl
  | ok disk =>
    rw [ht] at hl
    simp only [bind, Except.bind, pure, Except.pure] at hl
    split at hl
    · cases hl
      rfl
    · cases hl
      rfl

theorem Storage.lock_edits {place : Place} {mode : LockMode} {r : Bool × Storage}
    (hl : st.lock place mode = .ok r) : Disk.Edits [place] st.disk r.2.disk :=
  Disk.Edits.refl.modify (touch_of_lock hl) (List.mem_singleton.mpr rfl)

theorem Storage.find_lock {place : Place} {mode : LockMode} {r : Bool × Storage}
    (h : ¬ place <+: p) (hl : st.lock place mode = .ok r) : r.2.disk.find p = st.disk.find p :=
  (lock_edits hl).find fun q hq => by rwa [List.mem_singleton.mp hq]

/-- The places of an inbox: those of its log, its lock and its draft. -/
def InboxStore.places (s : InboxStore) (inbox : InboxId) : List Place :=
  [s.logPlace inbox, s.lockPlace inbox, s.draftPlace inbox]

theorem InboxStore.exists_of_mem_places {inbox : InboxId} (hp : p ∈ store.places inbox) :
    ∃ n, p = store.dir ++ [n] := by
  simp only [places, List.mem_cons, List.not_mem_nil, or_false] at hp
  rcases hp with rfl | rfl | rfl <;> exact ⟨_, rfl⟩

/-- A new log has been written beside the old one and has taken its place. -/
theorem InboxStore.change_replace_ok {inbox : InboxId} {disk disk' : Disk} {kept : List Message} :
    store.change disk inbox (.replace kept) = .ok disk' ↔
      ∃ draft, disk.write (store.draftPlace inbox) (Change.fresh kept) = .ok draft ∧
        draft.rename (store.draftPlace inbox) (store.logPlace inbox) = .ok disk' := by
  rw [change]
  cases disk.write (store.draftPlace inbox) (Change.fresh kept) with
  | error e => simp [bind, Except.bind]
  | ok draft => simp [bind, Except.bind]

theorem InboxStore.change_edits {inbox : InboxId} {disk disk' : Disk} {c : Change}
    (hc : store.change disk inbox c = .ok disk') :
    Disk.Edits (store.places inbox) disk disk' := by
  have hlog : store.logPlace inbox ∈ store.places inbox := by simp [places]
  have hdraft : store.draftPlace inbox ∈ store.places inbox := by simp [places]
  cases c with
  | keep =>
    cases hc
    exact .refl
  | append r =>
    exact Disk.Edits.refl.modify (f := fun log => Change.apply log (.append r)) hc hlog
  | replace kept =>
    obtain ⟨draft, hw, hr⟩ := change_replace_ok.mp hc
    exact (Disk.Edits.refl.modify hw hdraft).rename hr hdraft hlog

/-- **What an operation that succeeds has done**: it had the lock, it could read the log, and it
    made the change that it decided on. -/
theorem InboxStore.underLock_ok {α : Type} {inbox : InboxId} {mode : LockMode}
    {decide : Snapshot → UInt64 → Except InboxError (α × Change)} {a : α}
    (h : (store.underLock inbox mode decide st).1 = .ok a) :
    ∃ locked snapshot c disk, st.lock (store.lockPlace inbox) mode = .ok (true, locked) ∧
      store.snapshot locked.disk inbox = .ok snapshot ∧
      decide snapshot (UInt64.ofNat locked.now) = .ok (a, c) ∧
      store.change locked.disk inbox c = .ok disk ∧
      (store.underLock inbox mode decide st).2.disk = disk := by
  rw [underLock_eq] at h ⊢
  cases hl : st.lock (store.lockPlace inbox) mode with
  | error e =>
    rw [hl] at h
    cases h
  | ok r =>
    obtain ⟨got, locked⟩ := r
    rw [hl] at h
    cases got with
    | false => cases h
    | true =>
      simp only at h ⊢
      cases hs : store.snapshot locked.disk inbox with
      | error e =>
        rw [hs] at h
        cases h
      | ok snapshot =>
        rw [hs] at h
        simp only at h ⊢
        cases hd : decide snapshot (UInt64.ofNat locked.now) with
        | error e =>
          rw [hd] at h
          cases h
        | ok ac =>
          obtain ⟨a', c⟩ := ac
          rw [hd] at h
          simp only at h ⊢
          cases hc : store.change locked.disk inbox c with
          | error e =>
            rw [hc] at h
            cases h
          | ok disk =>
            rw [hc] at h
            cases h
            exact ⟨locked, snapshot, c, disk, rfl, hs, hd, hc, rfl⟩

/-- **What an operation that fails has done**: it has touched its lock at most. -/
theorem InboxStore.underLock_error {α : Type} {inbox : InboxId} {mode : LockMode}
    {decide : Snapshot → UInt64 → Except InboxError (α × Change)} {e : InboxError}
    (he : (store.underLock inbox mode decide st).1 = .error e) :
    Disk.Edits [store.lockPlace inbox] st.disk (store.underLock inbox mode decide st).2.disk := by
  rw [underLock_eq] at he ⊢
  cases hl : st.lock (store.lockPlace inbox) mode with
  | error e' => exact .refl
  | ok r =>
    have hlock := Storage.lock_edits hl
    rw [hl] at he
    obtain ⟨got, st'⟩ := r
    cases got with
    | false => exact hlock
    | true =>
      simp only at he ⊢
      split
      · exact hlock
      · rename_i hsnap
        rw [hsnap] at he
        simp only at he
        split
        · exact hlock
        · rename_i hd
          rw [hd] at he
          simp only at he
          split
          · exact hlock
          · rename_i hc
            rw [hc] at he
            cases he

/-- **An operation on an inbox** changes nothing but the files of that inbox. -/
theorem InboxStore.underLock_edits {α : Type} (inbox : InboxId) (mode : LockMode)
    (decide : Snapshot → UInt64 → Except InboxError (α × Change)) (st : Storage) :
    Disk.Edits (store.places inbox) st.disk (store.underLock inbox mode decide st).2.disk := by
  have hlock : [store.lockPlace inbox] ⊆ store.places inbox := by simp [places]
  cases h : (store.underLock inbox mode decide st).1 with
  | error e => exact (underLock_error h).mono hlock
  | ok a =>
    obtain ⟨locked, snapshot, c, disk, hl, -, -, hc, hdisk⟩ := underLock_ok h
    rw [hdisk]
    exact ((Storage.lock_edits hl).mono hlock).trans (change_edits hc)

/-- An operation that fails leaves alone all but its lock. -/
theorem InboxStore.find_underLock_error {α : Type} {inbox : InboxId} {mode : LockMode}
    {decide : Snapshot → UInt64 → Except InboxError (α × Change)} {e : InboxError}
    (h : ¬ store.lockPlace inbox <+: p) (he : (store.underLock inbox mode decide st).1 = .error e) :
    (store.underLock inbox mode decide st).2.disk.find p = st.disk.find p :=
  (underLock_error he).find fun q hq => by rwa [List.mem_singleton.mp hq]

theorem InboxStore.snapshot_of_find {inbox : InboxId} {disk disk' : Disk}
    (h : disk'.find (store.logPlace inbox) = disk.find (store.logPlace inbox)) :
    store.snapshot disk' inbox = store.snapshot disk inbox := by
  rw [snapshot, snapshot, log, log, Disk.read, Disk.read, h]

/-- An operation on an inbox leaves alone what is not in the directory of inboxes. -/
theorem InboxStore.find_underLock {α : Type} {inbox : InboxId} (h : ∀ n, ¬ store.dir ++ [n] <+: p)
    (mode : LockMode) (decide : Snapshot → UInt64 → Except InboxError (α × Change))
    (st : Storage) : (store.underLock inbox mode decide st).2.disk.find p = st.disk.find p :=
  (underLock_edits inbox mode decide st).find fun q hq => by
    obtain ⟨n, rfl⟩ := exists_of_mem_places hq
    exact h n

/-- **A delivery leaves alone what is not in the directory of inboxes.** -/
theorem Router.find_deliver (h : ∀ n, ¬ store.dir ++ [n] <+: p) (settle : Nat)
    (session : Session) (message : String) (id : MessageId)
    (health : Option (Except IoError Report)) (terminal : Option Terminal) (st : Storage) :
    (deliver store settle session message id health terminal st).storage.disk.find p =
      st.disk.find p := by
  unfold deliver deliverOn
  cases session.mode with
  | inbox =>
    have hqueue : (store.enqueue (envelope session message id (UInt64.ofNat st.now)) st).2.disk.find
        p = st.disk.find p := InboxStore.find_underLock h _ _ st
    simp only [queueOn, InboxStore.enqueueOn_none]
    generalize store.enqueue (envelope session message id (UInt64.ofNat st.now)) st = r at hqueue
    obtain ⟨_ | _, st'⟩ := r
    · exact hqueue
    · exact hqueue
  | terminal =>
    simp only
    split
    · rfl
    · unfold Router.type
      split <;> rfl

end

end AgentSupervisor
