import AgentSupervisor.Inbox.Store
import AgentSupervisor.Proofs.Directory
import AgentSupervisor.Proofs.InboxLog

/-!
# Inboxes on a disk

An operation on an inbox touches its lock, its log and its draft, and the log it leaves is the
old one changed as the operation decided.

* `InboxStore.Holds`           : an inbox is on a disk and its log has these bytes;
* `InboxStore.underLock_ends`  : how an operation under the lock can end;
* `InboxStore.perform_eq`      : a call is one operation under the lock;
* `InboxStore.perform_meets`   : how a call can end;
* `InboxStore.perform_refines` : every call gives the queue's answer, or fails and changes nothing;
* `InboxStore.store_refines_queue` : the four operations one by one.
-/

namespace AgentSupervisor.InboxStore

open Utf8 (encodeChars)

variable {s : InboxStore} {disk : Disk} {inbox : InboxId} {log : Bytes}

/-! ## Files of an inbox -/

/-- The directory of the inbox is there, its lock and its draft are files or not there, and its
    log has these bytes. A log that is not there has none. -/
structure Holds (s : InboxStore) (disk : Disk) (inbox : InboxId) (log : Bytes) : Prop where
  dir : disk.IsDir s.dir
  lock : Disk.FileOrNone (disk.at? (s.lockPlace inbox))
  draft : Disk.FileOrNone (disk.at? (s.draftPlace inbox))
  file : Disk.FileOrNone (disk.at? (s.logPlace inbox))
  content : Disk.contentOf (disk.at? (s.logPlace inbox)) = log

/-- The longest of the three names fits. -/
def Short (inbox : InboxId) : Prop := (draftName inbox).utf8ByteSize ≤ Disk.maxName

theorem Short.logName (h : Short inbox) : (logName inbox).utf8ByteSize ≤ Disk.maxName := by
  have : (draftName inbox).utf8ByteSize = (InboxStore.logName inbox).utf8ByteSize + 4 := by
    rw [draftName, String.utf8ByteSize_append]; rfl
  have h' : (draftName inbox).utf8ByteSize ≤ Disk.maxName := h
  omega

/-- The name of the log fits, and so does that of the lock. -/
def Fits (inbox : InboxId) : Prop := (logName inbox).utf8ByteSize ≤ Disk.maxName

theorem Fits.lockName (h : Fits inbox) : (lockName inbox).utf8ByteSize ≤ Disk.maxName := by
  have h' : (logName inbox).utf8ByteSize ≤ Disk.maxName := h
  rw [InboxStore.logName, String.utf8ByteSize_append] at h'
  rw [InboxStore.lockName, String.utf8ByteSize_append]
  have hl : (".lock" : String).utf8ByteSize = 5 := rfl
  have hj : (".jsonl" : String).utf8ByteSize = 6 := rfl
  omega

theorem Short.fits (h : Short inbox) : Fits inbox := h.logName

theorem Short.lockName (h : Short inbox) : (lockName inbox).utf8ByteSize ≤ Disk.maxName :=
  h.fits.lockName

theorem logPlace_ne_lockPlace (s : InboxStore) (inbox : InboxId) :
    s.logPlace inbox ≠ s.lockPlace inbox := by
  intro h
  have h := congrArg String.length (List.singleton_inj.mp (List.append_cancel_left h))
  rw [logName, lockName, String.length_append, String.length_append] at h
  have hl : (".lock" : String).length = 5 := rfl
  have hj : (".jsonl" : String).length = 6 := rfl
  omega

theorem logPlace_ne_draftPlace (s : InboxStore) (inbox : InboxId) :
    s.logPlace inbox ≠ s.draftPlace inbox := by
  intro h
  have h := congrArg String.length (List.singleton_inj.mp (List.append_cancel_left h))
  rw [draftName, String.length_append] at h
  have ht : (".tmp" : String).length = 4 := rfl
  omega

theorem lockPlace_ne_draftPlace (s : InboxStore) (inbox : InboxId) :
    s.lockPlace inbox ≠ s.draftPlace inbox := by
  intro h
  have h := congrArg String.length (List.singleton_inj.mp (List.append_cancel_left h))
  rw [draftName, logName, lockName, String.length_append, String.length_append,
    String.length_append] at h
  have hl : (".lock" : String).length = 5 := rfl
  have hj : (".jsonl" : String).length = 6 := rfl
  omega

theorem Holds.put_lock (h : s.Holds disk inbox log) (bs : Bytes) :
    s.Holds (disk.put (s.lockPlace inbox) (.file bs)) inbox log := by
  have hne : s.lockPlace inbox ≠ [] := Disk.child_ne_nil _ _
  refine ⟨h.dir.put _ _, ?_, ?_, ?_, ?_⟩
  · rw [Disk.at?_put _ _ _ _ hne, if_pos rfl]; exact .inr ⟨bs, rfl⟩
  · rw [Disk.at?_put _ _ _ _ hne, if_neg (lockPlace_ne_draftPlace s inbox).symm]; exact h.draft
  · rw [Disk.at?_put _ _ _ _ hne, if_neg (logPlace_ne_lockPlace s inbox)]; exact h.file
  · rw [Disk.at?_put _ _ _ _ hne, if_neg (logPlace_ne_lockPlace s inbox)]; exact h.content

theorem Holds.put_draft (h : s.Holds disk inbox log) (bs : Bytes) :
    s.Holds (disk.put (s.draftPlace inbox) (.file bs)) inbox log := by
  have hne : s.draftPlace inbox ≠ [] := Disk.child_ne_nil _ _
  refine ⟨h.dir.put _ _, ?_, ?_, ?_, ?_⟩
  · rw [Disk.at?_put _ _ _ _ hne, if_neg (lockPlace_ne_draftPlace s inbox)]; exact h.lock
  · rw [Disk.at?_put _ _ _ _ hne, if_pos rfl]; exact .inr ⟨bs, rfl⟩
  · rw [Disk.at?_put _ _ _ _ hne, if_neg (logPlace_ne_draftPlace s inbox)]; exact h.file
  · rw [Disk.at?_put _ _ _ _ hne, if_neg (logPlace_ne_draftPlace s inbox)]; exact h.content

theorem Holds.erase_draft (h : s.Holds disk inbox log) :
    s.Holds (disk.erase (s.draftPlace inbox)) inbox log := by
  have hne : s.draftPlace inbox ≠ [] := Disk.child_ne_nil _ _
  refine ⟨h.dir.erase _, ?_, ?_, ?_, ?_⟩
  · rw [Disk.at?_erase _ _ _ hne, if_neg (lockPlace_ne_draftPlace s inbox)]; exact h.lock
  · rw [Disk.at?_erase _ _ _ hne, if_pos rfl]; exact .inl rfl
  · rw [Disk.at?_erase _ _ _ hne, if_neg (logPlace_ne_draftPlace s inbox)]; exact h.file
  · rw [Disk.at?_erase _ _ _ hne, if_neg (logPlace_ne_draftPlace s inbox)]; exact h.content

theorem Holds.put_log (h : s.Holds disk inbox log) (bs : Bytes) :
    s.Holds (disk.put (s.logPlace inbox) (.file bs)) inbox bs := by
  have hne : s.logPlace inbox ≠ [] := Disk.child_ne_nil _ _
  refine ⟨h.dir.put _ _, ?_, ?_, ?_, ?_⟩
  · rw [Disk.at?_put _ _ _ _ hne, if_neg (logPlace_ne_lockPlace s inbox).symm]; exact h.lock
  · rw [Disk.at?_put _ _ _ _ hne, if_neg (logPlace_ne_draftPlace s inbox).symm]; exact h.draft
  · rw [Disk.at?_put _ _ _ _ hne, if_pos rfl]; exact .inr ⟨bs, rfl⟩
  · rw [Disk.at?_put _ _ _ _ hne, if_pos rfl]; rfl

/-! ## Steps of an operation -/

theorem Holds.touch (h : s.Holds disk inbox log) :
    (∃ disk', disk.touch (s.lockPlace inbox) = .ok disk' ∧ s.Holds disk' inbox log) ∨
      disk.touch (s.lockPlace inbox) = .error .nameTooLong ∧ ¬ Short inbox := by
  by_cases hs : (lockName inbox).utf8ByteSize ≤ Disk.maxName
  · exact .inl ⟨_, Disk.modify_child h.dir hs h.lock id, h.put_lock _⟩
  · exact .inr ⟨Disk.modify_tooLong h.dir (by omega) id, fun hshort => hs hshort.lockName⟩

theorem Holds.snapshot_of_fits (h : s.Holds disk inbox log) (hf : Fits inbox) :
    s.snapshot disk inbox = Snapshot.ofLog log := by
  have hread := Disk.read_child h.dir hf h.file
  have hlog : s.log disk inbox = .ok log := by
    have hcontent : Disk.contentOf (disk.at? (s.dir ++ [logName inbox])) = log := h.content
    rw [InboxStore.log, logPlace, hread, hcontent]
    cases hat : disk.at? (s.dir ++ [logName inbox]) with
    | none => rw [hat] at hcontent; rw [← hcontent]; rfl
    | some _ => rfl
  rw [InboxStore.snapshot, hlog]
  rfl

theorem Holds.snapshot (h : s.Holds disk inbox log) :
    s.snapshot disk inbox = Snapshot.ofLog log ∨
      s.snapshot disk inbox = .error .nameTooLong ∧ ¬ Short inbox := by
  by_cases hs : Fits inbox
  · exact .inl (h.snapshot_of_fits hs)
  · have hread := Disk.read_tooLong (n := logName inbox) h.dir (Nat.lt_of_not_le hs)
    rw [InboxStore.snapshot, InboxStore.log, logPlace, hread]
    exact .inr ⟨rfl, fun hshort => hs hshort.fits⟩

theorem change_append (r : Record) : s.change disk inbox (.append r) =
    disk.modify (s.dir ++ [logName inbox]) fun log => Change.apply log (.append r) := rfl

theorem Holds.append (h : s.Holds disk inbox log) (hf : Fits inbox) (r : Record) :
    ∃ disk', s.change disk inbox (.append r) = .ok disk' ∧
      s.Holds disk' inbox (Change.apply log (.append r)) := by
  have hcontent : Disk.contentOf (disk.at? (s.dir ++ [logName inbox])) = log := h.content
  rw [change_append, Disk.modify_child h.dir hf h.file, hcontent]
  exact ⟨_, rfl, h.put_log _⟩

theorem Holds.replace (h : s.Holds disk inbox log) (hs : Short inbox) (kept : List Message) :
    ∃ disk', s.change disk inbox (.replace kept) = .ok disk' ∧
      s.Holds disk' inbox (Change.apply log (.replace kept)) := by
  have hdraft : disk.modify (s.draftPlace inbox) (fun _ => Change.fresh kept) =
      .ok (disk.put (s.draftPlace inbox) (.file (Change.fresh kept))) :=
    Disk.modify_child h.dir hs h.draft _
  have h' := h.put_draft (Change.fresh kept)
  have hat : (disk.put (s.draftPlace inbox) (.file (Change.fresh kept))).at?
      (s.draftPlace inbox) = some (.file (Change.fresh kept)) := by
    have hne : s.draftPlace inbox ≠ [] := Disk.child_ne_nil _ _
    rw [Disk.at?_put _ _ _ _ hne, if_pos rfl]
  refine ⟨_, ?_, h'.erase_draft.put_log _⟩
  rw [InboxStore.change, Disk.write, hdraft]
  exact Disk.rename_child h'.dir hs hs.logName hat h'.file

theorem Holds.replace_tooLong (h : s.Holds disk inbox log) (hs : ¬ Short inbox)
    (kept : List Message) : s.change disk inbox (.replace kept) = .error .nameTooLong := by
  have hdraft : disk.modify (s.draftPlace inbox) (fun _ => Change.fresh kept) =
      .error .nameTooLong := Disk.modify_tooLong h.dir (Nat.lt_of_not_le hs) _
  rw [InboxStore.change, Disk.write, hdraft]
  rfl

theorem Holds.change (h : s.Holds disk inbox log) (c : Change) :
    (∃ disk', s.change disk inbox c = .ok disk' ∧ s.Holds disk' inbox (c.apply log)) ∨
      ∃ e, s.change disk inbox c = .error e ∧ ¬ Short inbox := by
  cases c with
  | keep => exact .inl ⟨disk, rfl, h⟩
  | append r =>
    by_cases hf : Fits inbox
    · exact .inl (h.append hf r)
    · rw [change_append, Disk.modify_tooLong h.dir (Nat.lt_of_not_le hf)]
      exact .inr ⟨_, rfl, fun hshort => hf hshort.fits⟩
  | replace kept =>
    by_cases hs : Short inbox
    · exact .inl (h.replace hs kept)
    · exact .inr ⟨_, h.replace_tooLong hs kept, hs⟩

/-! ## Operations under the lock -/

/-- The lock can be had for some time before it is given up. -/
def Unlocked (s : InboxStore) (inbox : InboxId) (mode : LockMode) (st : Storage) : Prop :=
  Storage.lockedAt st.holds (s.lockPlace inbox) mode Storage.lockTries st.now ≠ none

/-- How an operation that finds a log can end: what it returns, with the storage after it, and
    the log it leaves. -/
inductive Ends {α : Type} (s : InboxStore) (inbox : InboxId) (mode : LockMode)
    (decide : Snapshot → UInt64 → Except InboxError (α × Change)) (st : Storage) (log : Bytes) :
    Except InboxError α × Storage → Bytes → Prop where
  | tooLong (e : IoError) (st' : Storage) (h : ¬ Short inbox) :
      Ends s inbox mode decide st log (.error (.io e), st') log
  | locked (st' : Storage) (h : ¬ s.Unlocked inbox mode st) :
      Ends s inbox mode decide st log (.error (.locked inbox), st') log
  | unreadable (e : IoError) (st' : Storage) (h : Snapshot.ofLog log = .error e) :
      Ends s inbox mode decide st log (.error (.io e), st') log
  | refused (snapshot : Snapshot) (e : InboxError) (st' : Storage)
      (h : Snapshot.ofLog log = .ok snapshot)
      (hd : decide snapshot (UInt64.ofNat st'.now) = .error e) :
      Ends s inbox mode decide st log (.error e, st') log
  | done (snapshot : Snapshot) (a : α) (c : Change) (st' : Storage)
      (h : Snapshot.ofLog log = .ok snapshot)
      (hd : decide snapshot (UInt64.ofNat st'.now) = .ok (a, c)) :
      Ends s inbox mode decide st log (.ok a, st') (c.apply log)

theorem Holds.take {st : Storage} (h : s.Holds st.disk inbox log) (mode : LockMode) :
    (∃ st', st.lock (s.lockPlace inbox) mode = .ok (true, st') ∧ s.Holds st'.disk inbox log) ∨
      (∃ st', st.lock (s.lockPlace inbox) mode = .ok (false, st') ∧ s.Holds st'.disk inbox log ∧
        ¬ s.Unlocked inbox mode st) ∨
      st.lock (s.lockPlace inbox) mode = .error .nameTooLong ∧ ¬ Short inbox := by
  unfold Storage.lock
  rcases h.touch with ⟨disk', htouch, h'⟩ | ⟨htouch, hs⟩
  · rw [htouch]
    cases hlock : Storage.lockedAt st.holds (s.lockPlace inbox) mode Storage.lockTries st.now with
    | none => exact .inr (.inl ⟨_, rfl, h', fun hne => hne hlock⟩)
    | some t => exact .inl ⟨_, rfl, h'⟩
  · rw [htouch]
    exact .inr (.inr ⟨rfl, hs⟩)

/-- **How an operation under the lock can end.** -/
theorem underLock_ends {α : Type} {st : Storage} (h : s.Holds st.disk inbox log) (mode : LockMode)
    (decide : Snapshot → UInt64 → Except InboxError (α × Change)) :
    ∃ log', s.Holds (s.underLock inbox mode decide st).2.disk inbox log' ∧
      Ends s inbox mode decide st log (s.underLock inbox mode decide st) log' := by
  rw [underLock_eq]
  rcases h.take mode with ⟨st', hlock, h'⟩ | ⟨st', hlock, h', hfree⟩ | ⟨hlock, hs⟩
  · rw [hlock]
    simp only
    rcases h'.snapshot with hsnap | ⟨hsnap, hs⟩
    · rw [hsnap]
      cases hread : Snapshot.ofLog log with
      | error e => exact ⟨log, h', .unreadable e st' hread⟩
      | ok snapshot =>
        simp only
        cases hd : decide snapshot (UInt64.ofNat st'.now) with
        | error e => exact ⟨log, h', .refused snapshot e st' hread hd⟩
        | ok ac =>
          obtain ⟨a, c⟩ := ac
          simp only
          rcases h'.change c with ⟨disk', hchange, h''⟩ | ⟨e, hchange, hs⟩
          · rw [hchange]
            exact ⟨c.apply log, h'', .done snapshot a c _ hread hd⟩
          · rw [hchange]
            exact ⟨log, h', .tooLong e st' hs⟩
    · rw [hsnap]
      exact ⟨log, h', .tooLong _ st' hs⟩
  · rw [hlock]
    exact ⟨log, h', .locked st' hfree⟩
  · rw [hlock]
    exact ⟨log, h, .tooLong _ st hs⟩

/-! ## Calls -/

/-- How each call locks the inbox. -/
def mode : InboxCall → LockMode
  | .enqueue _ => .shared
  | .poll => .shared
  | .acknowledge _ => .exclusive
  | .prune _ => .exclusive

/-- What an acknowledgement tells: that there is no such message is an answer. -/
def told (inbox : InboxId) (id : MessageId) : Except InboxError Unit → Except InboxError InboxAnswer
  | .ok _ => .ok .acknowledged
  | .error e => if e = .notFound inbox id then .ok .unknown else .error e

/-- Make a call. -/
def perform (s : InboxStore) (inbox : InboxId) (st : Storage) :
    InboxCall → Except InboxError InboxAnswer × Storage
  | .enqueue m => ((s.enqueue m st).1.map .enqueued, (s.enqueue m st).2)
  | .poll => ((s.poll inbox st).1.map .pending, (s.poll inbox st).2)
  | .acknowledge id =>
    (told inbox id (s.acknowledge inbox id st).1, (s.acknowledge inbox id st).2)
  | .prune maxAge =>
    ((s.pruneOlder inbox maxAge st).1.map .pruned, (s.pruneOlder inbox maxAge st).2)

/-- An operation that is told in other words is an operation under the lock. -/
theorem underLock_told {α β : Type} {mode : LockMode}
    {decide : Snapshot → UInt64 → Except InboxError (α × Change)}
    {respond : Snapshot → UInt64 → β × Change} (tell : Except InboxError α → Except InboxError β)
    (hio : ∀ e, tell (.error (.io e)) = .error (.io e))
    (hlocked : tell (.error (.locked inbox)) = .error (.locked inbox))
    (hok : ∀ snapshot now a c, decide snapshot now = .ok (a, c) →
      tell (.ok a) = .ok (respond snapshot now).1 ∧ (respond snapshot now).2 = c)
    (herr : ∀ snapshot now e, decide snapshot now = .error e →
      tell (.error e) = .ok (respond snapshot now).1 ∧ (respond snapshot now).2 = .keep)
    (st : Storage) :
    (tell (s.underLock inbox mode decide st).1, (s.underLock inbox mode decide st).2) =
      s.underLock inbox mode (fun snapshot now => .ok (respond snapshot now)) st := by
  rw [underLock_eq, underLock_eq]
  cases hl : st.lock (s.lockPlace inbox) mode with
  | error e => simp only [hio]
  | ok r =>
    obtain ⟨got, locked⟩ := r
    cases got with
    | false => simp only [hlocked]
    | true =>
      simp only
      cases hsnap : s.snapshot locked.disk inbox with
      | error e => simp only [hio]
      | ok snapshot =>
        simp only
        cases hd : decide snapshot (UInt64.ofNat locked.now) with
        | error e =>
          obtain ⟨htell, hkeep⟩ := herr _ _ _ hd
          simp only [hkeep, htell, change]
        | ok ac =>
          obtain ⟨x, c⟩ := ac
          obtain ⟨htell, hc⟩ := hok _ _ _ _ hd
          simp only [hc]
          cases s.change locked.disk inbox c with
          | error e => simp only [hio]
          | ok disk => simp only [htell]

/-- **A call is one operation under the lock**, which does as a snapshot responds. -/
theorem perform_eq {call : InboxCall} (hon : call.On inbox) (st : Storage) :
    s.perform inbox st call =
      s.underLock inbox (mode call) (fun snapshot now => .ok (snapshot.respond now call)) st := by
  cases call with
  | enqueue m =>
    have hm : m.inbox = inbox := hon
    subst hm
    refine underLock_told (Except.map InboxAnswer.enqueued) (fun _ => rfl) rfl ?_ ?_ st
    · intro snapshot now id c hd
      rw [Snapshot.respond, Except.ok.inj hd]
      exact ⟨rfl, rfl⟩
    · intro snapshot now e hd
      cases hd
  | poll =>
    refine underLock_told (Except.map InboxAnswer.pending) (fun _ => rfl) rfl ?_ ?_ st
    · intro snapshot now ms c hd
      cases hd
      exact ⟨rfl, rfl⟩
    · intro snapshot now e hd
      cases hd
  | acknowledge id =>
    refine underLock_told (told inbox id) (fun _ => rfl) rfl ?_ ?_ st
    · intro snapshot now u c hd
      cases hack : snapshot.acknowledge id now with
      | none => rw [hack] at hd; cases hd
      | some c' => rw [hack] at hd; cases hd; rw [Snapshot.respond, hack]; exact ⟨rfl, rfl⟩
    · intro snapshot now e hd
      cases hack : snapshot.acknowledge id now with
      | none =>
        rw [hack] at hd
        cases hd
        rw [Snapshot.respond, hack, told, if_pos rfl]
        exact ⟨rfl, rfl⟩
      | some c' => rw [hack] at hd; cases hd
  | prune maxAge =>
    refine underLock_told (Except.map InboxAnswer.pruned) (fun _ => rfl) rfl ?_ ?_ st
    · intro snapshot now n c hd
      rw [Snapshot.respond, Except.ok.inj hd]
      exact ⟨rfl, rfl⟩
    · intro snapshot now e hd
      cases hd

/-- What a call may come to: what it returns, with the storage after it, and the log it leaves. -/
inductive Meets (s : InboxStore) (inbox : InboxId) (call : InboxCall) (st : Storage)
    (log : Bytes) : Except InboxError InboxAnswer × Storage → Bytes → Prop where
  | tooLong (e : IoError) (st' : Storage) (h : ¬ Short inbox) :
      Meets s inbox call st log (.error (.io e), st') log
  | locked (st' : Storage) (h : ¬ s.Unlocked inbox (mode call) st) :
      Meets s inbox call st log (.error (.locked inbox), st') log
  | unreadable (e : IoError) (st' : Storage) (h : Snapshot.ofLog log = .error e) :
      Meets s inbox call st log (.error (.io e), st') log
  | answered (snapshot : Snapshot) (st' : Storage) (h : Snapshot.ofLog log = .ok snapshot) :
      Meets s inbox call st log (.ok (snapshot.respond (UInt64.ofNat st'.now) call).1, st')
        ((snapshot.respond (UInt64.ofNat st'.now) call).2.apply log)

/-- Every call finds the log, and either fails and leaves it or answers and changes it as the
    snapshot responds. -/
theorem perform_meets {st : Storage} (h : s.Holds st.disk inbox log) (call : InboxCall)
    (hon : call.On inbox) :
    ∃ log', s.Holds (s.perform inbox st call).2.disk inbox log' ∧
      Meets s inbox call st log (s.perform inbox st call) log' := by
  rw [perform_eq hon]
  obtain ⟨log', hlog', he⟩ := underLock_ends h (mode call) fun snapshot now =>
    .ok (snapshot.respond now call)
  refine ⟨log', hlog', ?_⟩
  generalize s.underLock inbox (mode call) _ st = r at he ⊢
  cases he with
  | tooLong e st' hlong => exact .tooLong e st' hlong
  | locked st' hlocked => exact .locked st' hlocked
  | unreadable e st' hread => exact .unreadable e st' hread
  | refused snapshot e st' hread hd => cases hd
  | done snapshot a c st' hread hd =>
    have hanswered := @Meets.answered s inbox call st log snapshot st' hread
    rw [Except.ok.inj hd] at hanswered
    exact hanswered

/-! ## Logs of text -/

/-- What a call on a log of this text may come to: what it returns, with the storage after it,
    and the text of the log it leaves. -/
inductive Refines (s : InboxStore) (inbox : InboxId) (call : InboxCall) (st : Storage)
    (text : List Char) : Except InboxError InboxAnswer × Storage → List Char → Prop where
  | tooLong (e : IoError) (st' : Storage) (h : ¬ Short inbox) :
      Refines s inbox call st text (.error (.io e), st') text
  | locked (st' : Storage) (h : ¬ s.Unlocked inbox (mode call) st) :
      Refines s inbox call st text (.error (.locked inbox), st') text
  | answered (a : InboxAnswer) (st' : Storage) (text' : List Char)
      (ha : (a, Queue.ofLog text') =
        (Queue.ofLog text).answer (UInt64.ofNat st'.now).toNat call)
      (hk : Queue.ofLog text' = Queue.ofLog text → text' = text) :
      Refines s inbox call st text (.ok a, st') text'

/-- **Every call gives the queue's answer, or fails and changes nothing.** It fails only when a
    name is too long or the lock cannot be had. -/
theorem perform_refines {st : Storage} {text : List Char}
    (h : s.Holds st.disk inbox (encodeChars text)) (call : InboxCall) (hon : call.On inbox) :
    ∃ text', s.Holds (s.perform inbox st call).2.disk inbox (encodeChars text') ∧
      Refines s inbox call st text (s.perform inbox st call) text' := by
  obtain ⟨log', hlog', hmeets⟩ := perform_meets h call hon
  generalize s.perform inbox st call = r at hlog' hmeets
  cases hmeets with
  | tooLong e st' hlong => exact ⟨text, hlog', .tooLong e st' hlong⟩
  | locked st' hlocked => exact ⟨text, hlog', .locked st' hlocked⟩
  | unreadable e st' hread =>
    obtain ⟨_, hread', -⟩ := Snapshot.ofLog_toQueue text
    cases hread'.symm.trans hread
  | answered snapshot st' hread =>
    obtain ⟨text', htext', ha, hk⟩ := Snapshot.respond_text hread (UInt64.ofNat st'.now) call
    rw [htext'] at hlog'
    exact ⟨text', hlog', .answered _ st' text' ha hk⟩

/-! ## The four operations -/

/-- The files could be used and the lock was had. -/
def Served {α : Type} : Except InboxError α → Prop
  | .error (.io _) => False
  | .error (.locked _) => False
  | _ => True

theorem Refines.not_served {α : Type} {call : InboxCall} {st st' : Storage} {text text' : List Char}
    {e : InboxError} (h : Refines s inbox call st text (.error e, st') text') :
    ¬ Served (.error e : Except InboxError α) := by
  cases h with
  | tooLong e _ _ => exact id
  | locked _ _ => exact id

theorem Refines.answer {call : InboxCall} {st st' : Storage} {text text' : List Char}
    {a : InboxAnswer} (h : Refines s inbox call st text (.ok a, st') text') :
    (a, Queue.ofLog text') = (Queue.ofLog text).answer (UInt64.ofNat st'.now).toNat call ∧
      (Queue.ofLog text' = Queue.ofLog text → text' = text) := by
  cases h with
  | answered _ _ _ ha hk => exact ⟨ha, hk⟩

/-- Short names and a free lock are all that a call needs. -/
theorem Refines.exists_answer {call : InboxCall} {st : Storage} {text text' : List Char}
    {r : Except InboxError InboxAnswer × Storage} (h : Refines s inbox call st text r text')
    (hs : Short inbox) (hu : s.Unlocked inbox (mode call) st) : ∃ a, r.1 = .ok a := by
  cases h with
  | tooLong e _ hlong => exact absurd hs hlong
  | locked _ hlocked => exact absurd hu hlocked
  | answered a _ _ _ _ => exact ⟨a, rfl⟩

theorem served_of_map {α β : Type} {r : Except InboxError α} {f : α → β} {b : β}
    (h : r.map f = .ok b) : Served r := by
  cases r with
  | error e => cases h
  | ok a => trivial

theorem served_of_told {id : MessageId} {r : Except InboxError Unit} {a : InboxAnswer}
    (h : told inbox id r = .ok a) : Served r := by
  cases r with
  | error e =>
    rw [told] at h
    split at h
    · rename_i he
      rw [he]
      trivial
    · cases h
  | ok _ => trivial

variable {st : Storage} {text : List Char}

/-- A call on an inbox with short names and a free lock is answered. -/
theorem perform_answers (h : s.Holds st.disk inbox (encodeChars text)) (hs : Short inbox)
    (hu : ∀ mode, s.Unlocked inbox mode st) (call : InboxCall) (hon : call.On inbox) :
    ∃ a, (s.perform inbox st call).1 = .ok a := by
  obtain ⟨_, -, href⟩ := perform_refines h call hon
  exact href.exists_answer hs (hu _)

theorem enqueue_refines (h : s.Holds st.disk inbox (encodeChars text)) {m : Message}
    (hm : m.inbox = inbox) (hserved : Served (s.enqueue m st).1) :
    (s.enqueue m st).1 = .ok m.id ∧
      ∃ text', s.Holds (s.enqueue m st).2.disk inbox (encodeChars text') ∧
        Queue.ofLog text' = (Queue.ofLog text).enqueue m ∧
        ((Queue.ofLog text).Knows m.id → text' = text) := by
  obtain ⟨text', hlog, href⟩ := perform_refines h (.enqueue m) hm
  simp only [perform] at hlog href
  generalize s.enqueue m st = r at hlog href hserved ⊢
  obtain ⟨e | id, st'⟩ := r
  · exact absurd hserved href.not_served
  · obtain ⟨ha, hk⟩ := href.answer
    obtain ⟨hid, hq⟩ := Prod.mk.inj ha
    cases hid
    refine ⟨rfl, text', hlog, hq, fun hknown => hk ?_⟩
    rw [hq, Queue.enqueue, if_pos hknown]

theorem poll_refines (h : s.Holds st.disk inbox (encodeChars text))
    (hserved : Served (s.poll inbox st).1) :
    (s.poll inbox st).1 = .ok (Queue.ofLog text).pending ∧
      s.Holds (s.poll inbox st).2.disk inbox (encodeChars text) := by
  obtain ⟨text', hlog, href⟩ := perform_refines h .poll trivial
  simp only [perform] at hlog href
  generalize s.poll inbox st = r at hlog href hserved ⊢
  obtain ⟨e | ms, st'⟩ := r
  · exact absurd hserved href.not_served
  · obtain ⟨ha, hk⟩ := href.answer
    obtain ⟨hms, hq⟩ := Prod.mk.inj ha
    cases hms
    rw [hk hq] at hlog
    exact ⟨rfl, hlog⟩

theorem acknowledge_refines (h : s.Holds st.disk inbox (encodeChars text)) {id : MessageId}
    (hserved : Served (s.acknowledge inbox id st).1) :
    ∃ text', s.Holds (s.acknowledge inbox id st).2.disk inbox (encodeChars text') ∧
      if (Queue.ofLog text).Knows id then
        (s.acknowledge inbox id st).1 = .ok () ∧
          Queue.ofLog text' = (Queue.ofLog text).acknowledge id ∧
          (id ∈ (Queue.ofLog text).acked → text' = text)
      else (s.acknowledge inbox id st).1 = .error (.notFound inbox id) ∧ text' = text := by
  obtain ⟨text', hlog, href⟩ := perform_refines h (.acknowledge id) trivial
  simp only [perform] at hlog href
  generalize s.acknowledge inbox id st = r at hlog href hserved ⊢
  refine ⟨text', hlog, ?_⟩
  obtain ⟨e | u, st'⟩ := r
  · by_cases he : e = .notFound inbox id
    · rw [told, if_pos he] at href
      obtain ⟨ha, hk⟩ := href.answer
      rw [Queue.answer] at ha
      split at ha
      · cases (Prod.mk.inj ha).1
      · rename_i hknown
        rw [if_neg hknown, he]
        exact ⟨rfl, hk (Prod.mk.inj ha).2⟩
    · rw [told, if_neg he] at href
      exact absurd hserved href.not_served
  · obtain ⟨ha, hk⟩ := href.answer
    rw [Queue.answer] at ha
    split at ha
    · rename_i hknown
      have hq := (Prod.mk.inj ha).2
      rw [if_pos hknown]
      refine ⟨rfl, hq, fun hacked => hk ?_⟩
      rw [hq, Queue.acknowledge, Finset.insert_eq_of_mem hacked]
    · cases (Prod.mk.inj ha).1

theorem prune_refines (h : s.Holds st.disk inbox (encodeChars text)) {maxAge : Nat}
    (hage : maxAge < 2 ^ 64) (hserved : Served (s.pruneOlder inbox maxAge st).1) :
    ∃ now, now = (UInt64.ofNat (s.pruneOlder inbox maxAge st).2.now).toNat ∧
      (s.pruneOlder inbox maxAge st).1 = .ok ((Queue.ofLog text).stale now maxAge) ∧
      ∃ text', s.Holds (s.pruneOlder inbox maxAge st).2.disk inbox (encodeChars text') ∧
        Queue.ofLog text' = (Queue.ofLog text).prune now maxAge ∧
        ((Queue.ofLog text).stale now maxAge = 0 → text' = text) := by
  obtain ⟨text', hlog, href⟩ := perform_refines h (.prune maxAge) trivial
  simp only [perform] at hlog href
  generalize s.pruneOlder inbox maxAge st = r at hlog href hserved ⊢
  obtain ⟨e | n, st'⟩ := r
  · exact absurd hserved href.not_served
  · obtain ⟨ha, hk⟩ := href.answer
    rw [Queue.answer, Nat.mod_eq_of_lt hage] at ha
    obtain ⟨hn, hq⟩ := Prod.mk.inj ha
    refine ⟨_, rfl, congrArg Except.ok (InboxAnswer.pruned.inj hn), text', hlog, hq,
      fun hall => hk ?_⟩
    rw [hq, Queue.prune, if_pos hall]

/-- **The log of an inbox is its queue.** Let the log be any text at all: with blank lines, lines
    that spell no record, repeated records, acknowledgements of unknown messages, or an open last
    line. Whenever an operation is served, it answers as the queue does and leaves a log that
    tells the queue after it; it writes nothing when the queue stays as it is. It is served when
    the names of the files are not too long and the lock can be had. -/
theorem store_refines_queue (h : s.Holds st.disk inbox (encodeChars text)) :
    (∀ m : Message, m.inbox = inbox → Served (s.enqueue m st).1 →
      (s.enqueue m st).1 = .ok m.id ∧
        ∃ text', s.Holds (s.enqueue m st).2.disk inbox (encodeChars text') ∧
          Queue.ofLog text' = (Queue.ofLog text).enqueue m ∧
          ((Queue.ofLog text).Knows m.id → text' = text)) ∧
    (Served (s.poll inbox st).1 →
      (s.poll inbox st).1 = .ok (Queue.ofLog text).pending ∧
        s.Holds (s.poll inbox st).2.disk inbox (encodeChars text)) ∧
    (∀ id : MessageId, Served (s.acknowledge inbox id st).1 →
      ∃ text', s.Holds (s.acknowledge inbox id st).2.disk inbox (encodeChars text') ∧
        if (Queue.ofLog text).Knows id then
          (s.acknowledge inbox id st).1 = .ok () ∧
            Queue.ofLog text' = (Queue.ofLog text).acknowledge id ∧
            (id ∈ (Queue.ofLog text).acked → text' = text)
        else (s.acknowledge inbox id st).1 = .error (.notFound inbox id) ∧ text' = text) ∧
    (∀ maxAge : Nat, maxAge < 2 ^ 64 → Served (s.pruneOlder inbox maxAge st).1 →
      ∃ now, now = (UInt64.ofNat (s.pruneOlder inbox maxAge st).2.now).toNat ∧
        (s.pruneOlder inbox maxAge st).1 = .ok ((Queue.ofLog text).stale now maxAge) ∧
        ∃ text', s.Holds (s.pruneOlder inbox maxAge st).2.disk inbox (encodeChars text') ∧
          Queue.ofLog text' = (Queue.ofLog text).prune now maxAge ∧
          ((Queue.ofLog text).stale now maxAge = 0 → text' = text)) ∧
    (Short inbox → (∀ mode, s.Unlocked inbox mode st) →
      (∀ m : Message, m.inbox = inbox → Served (s.enqueue m st).1) ∧
      Served (s.poll inbox st).1 ∧
      (∀ id : MessageId, Served (s.acknowledge inbox id st).1) ∧
      ∀ maxAge : Nat, Served (s.pruneOlder inbox maxAge st).1) := by
  refine ⟨fun m hm => enqueue_refines h hm, poll_refines h, fun id => acknowledge_refines h,
    fun maxAge hage => prune_refines h hage,
    fun hs hu => ⟨fun m hm => ?_, ?_, fun id => ?_, fun maxAge => ?_⟩⟩
  · obtain ⟨_, ha⟩ := perform_answers h hs hu (.enqueue m) hm
    exact served_of_map ha
  · obtain ⟨_, ha⟩ := perform_answers h hs hu .poll trivial
    exact served_of_map ha
  · obtain ⟨_, ha⟩ := perform_answers h hs hu (.acknowledge id) trivial
    exact served_of_told ha
  · obtain ⟨_, ha⟩ := perform_answers h hs hu (.prune maxAge) trivial
    exact served_of_map ha

/-- An inbox whose log ends in a torn line, and a message whose payload looks like a record. -/
theorem store_refines_queue_torn :
    let s : InboxStore := ⟨["q"]⟩
    let st : Storage := {
      disk := ⟨[(["q"], .directory),
        (["q", "a.jsonl"], .file (encodeChars "\x7b\"kind\":\"mess".toList))]⟩
      now := 9 }
    let m : Message := ⟨⟨"1"⟩, ⟨"a"⟩, "\n\x7b\"kind\":\"ack\",\"id\":\"1\"\x7d\n", 0, none⟩
    (s.enqueue m st).1 = .ok ⟨"1"⟩ ∧ (s.poll ⟨"a"⟩ st).1 = .ok [] ∧
      (s.acknowledge ⟨"a"⟩ ⟨"1"⟩ st).1 = .error (.notFound ⟨"a"⟩ ⟨"1"⟩) ∧
      (s.pruneOlder ⟨"a"⟩ 5 st).1 = .ok 0 := by
  intro s st m
  have h : s.Holds st.disk ⟨"a"⟩ (encodeChars "\x7b\"kind\":\"mess".toList) :=
    ⟨rfl, .inl rfl, .inl rfl, .inr ⟨_, rfl⟩, rfl⟩
  have hq : Queue.ofLog "\x7b\"kind\":\"mess".toList = {} := by decide +kernel
  have hs : Short ⟨"a"⟩ := by unfold Short; decide +kernel
  have hu : ∀ mode, s.Unlocked ⟨"a"⟩ mode st := fun mode => by
    have : Storage.lockedAt [] (s.lockPlace ⟨"a"⟩) mode Storage.lockTries 9 = some 9 := rfl
    rw [Unlocked, this]
    exact Option.some_ne_none 9
  obtain ⟨henqueue, hpoll, hack, hprune, hserved⟩ := @store_refines_queue s ⟨"a"⟩ st _ h
  clear_value s st
  obtain ⟨h1, h2, h3, h4⟩ := hserved hs hu
  refine ⟨(henqueue m rfl (h1 m rfl)).1, ?_, ?_, ?_⟩
  · rw [(hpoll h2).1, hq]
    rfl
  · have hk : ¬ ({} : Queue).Knows ⟨"1"⟩ := by decide
    obtain ⟨text', hheld⟩ := hack ⟨"1"⟩ (h3 _)
    rw [hq, if_neg hk] at hheld
    exact hheld.2.1
  · obtain ⟨_, -, hcount, -⟩ := hprune 5 (by decide) (h4 5)
    rw [hcount, hq]
    rfl

end AgentSupervisor.InboxStore
