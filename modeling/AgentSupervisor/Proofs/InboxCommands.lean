import AgentSupervisor.Operator.Commands
import AgentSupervisor.Proofs.DeliveryModes
import AgentSupervisor.Proofs.InboxNames
import AgentSupervisor.Proofs.RequestEffects
import Mathlib.Data.String.Basic

/-!
# Commands for inboxes

An operator reaches the inbox of a session under any spelling of its name. Reading and
acknowledging need a log whose name fits into a directory. Pruning writes a draft, whose name is
longer, so that it may fail where the rest works.

* `InboxStore.underLock_fits` : how an operation ends where the log fits and the lock is free;
* `InboxStore.prune_fits`     : when pruning works, and when it does not;
* `Operator.inbox_eq`         : a command acts on the directory of inboxes;
* `Operator.serves_spelling`  : what the commands do under any spelling.
-/

namespace AgentSupervisor

open Utf8 (encodeChars)

/-! ## Directories that are there -/

namespace Disk

variable {d : Disk}

theorem at?_of_walk {at_ : Place} {ns : List String} (h : d.walk at_ ns = .ok (some .directory)) :
    d.at? at_ = some .directory := by
  cases ns with
  | nil => exact Except.ok.inj h
  | cons n ns =>
    rw [walk] at h
    split at h
    · cases h
    · assumption
    · cases h

theorem makeDirsFrom_of_walk {at_ : Place} {ns : List String}
    (h : d.walk at_ ns = .ok (some .directory)) : d.makeDirsFrom at_ ns = .ok d := by
  induction ns generalizing at_ with
  | nil => rfl
  | cons n ns ih =>
    have hhere := at?_of_walk h
    rw [walk, hhere] at h
    simp only at h
    split at h
    · cases h
    · rename_i hshort
      rw [makeDirsFrom, if_neg hshort, at?_of_walk h]
      exact ih h

/-- A directory that is there is not made again. -/
theorem IsDir.makeDirs {dir : Place} (h : d.IsDir dir) : d.makeDirs dir = .ok d :=
  makeDirsFrom_of_walk h

end Disk

/-! ## Operations on an inbox that fits -/

namespace InboxStore

variable {s : InboxStore} {inbox : InboxId} {st : Storage} {log : Bytes} {text : List Char}
  {mode : LockMode}

/-- The lock of an inbox that fits is had when nobody else has it. -/
theorem Holds.take_of_fits (h : s.Holds st.disk inbox log) (hf : Fits inbox)
    (hu : s.Unlocked inbox mode st) : ∃ st', st.lock (s.lockPlace inbox) mode = .ok (true, st') ∧
      s.Holds st'.disk inbox log := by
  have htouch : st.disk.touch (s.lockPlace inbox) = .ok (st.disk.put (s.lockPlace inbox)
      (.file (Disk.contentOf (st.disk.at? (s.lockPlace inbox))))) :=
    Disk.modify_child h.dir hf.lockName h.lock id
  unfold Storage.lock
  rw [htouch]
  cases hlock : Storage.lockedAt st.holds (s.lockPlace inbox) mode Storage.lockTries st.now with
  | none => exact absurd hlock hu
  | some t => exact ⟨_, rfl, h.put_lock _⟩

/-- How an operation ends where the log fits and can be read and the lock is free. `st'` is the
    storage when the lock was had. -/
inductive Fitting {α : Type} (inbox : InboxId)
    (decide : Snapshot → UInt64 → Except InboxError (α × Change)) (snapshot : Snapshot)
    (st' : Storage) : Except InboxError α × Storage → Prop where
  | refused (e : InboxError) (hd : decide snapshot (UInt64.ofNat st'.now) = .error e) :
      Fitting inbox decide snapshot st' (.error e, st')
  | done (a : α) (c : Change) (disk : Disk)
      (hd : decide snapshot (UInt64.ofNat st'.now) = .ok (a, c))
      (hs : ∀ kept, c = .replace kept → Short inbox) :
      Fitting inbox decide snapshot st' (.ok a, { st' with disk })
  | tooLong (a : α) (kept : List Message)
      (hd : decide snapshot (UInt64.ofNat st'.now) = .ok (a, .replace kept))
      (hs : ¬ Short inbox) :
      Fitting inbox decide snapshot st' (.error (.io .nameTooLong), st')

/-- **How an operation ends** where the log fits and can be read and the lock is free. -/
theorem underLock_fits {α : Type} {snapshot : Snapshot} (h : s.Holds st.disk inbox log)
    (hf : Fits inbox) (hu : s.Unlocked inbox mode st) (hread : Snapshot.ofLog log = .ok snapshot)
    (decide : Snapshot → UInt64 → Except InboxError (α × Change)) :
    ∃ st', s.Holds st'.disk inbox log ∧
      Fitting inbox decide snapshot st' (s.underLock inbox mode decide st) := by
  obtain ⟨st', hlock, h'⟩ := h.take_of_fits hf hu
  refine ⟨st', h', ?_⟩
  rw [underLock_eq]
  rw [hlock]
  simp only
  rw [h'.snapshot_of_fits hf, hread]
  simp only
  cases hd : decide snapshot (UInt64.ofNat st'.now) with
  | error e => exact .refused e hd
  | ok ac =>
    obtain ⟨a, c⟩ := ac
    simp only
    cases c with
    | keep => exact .done a .keep st'.disk hd nofun
    | append r =>
      obtain ⟨disk, hc, -⟩ := h'.append hf r
      rw [hc]
      exact .done a (.append r) disk hd nofun
    | replace kept =>
      by_cases hs : Short inbox
      · obtain ⟨disk, hc, -⟩ := h'.replace hs kept
        rw [hc]
        exact .done a (.replace kept) disk hd fun _ _ => hs
      · rw [h'.replace_tooLong hs kept]
        exact .tooLong a kept hd hs

/-- An operation that is not refused, and that writes no new log, is served. -/
theorem underLock_served {α : Type} {snapshot : Snapshot} (h : s.Holds st.disk inbox log)
    (hf : Fits inbox) (hu : s.Unlocked inbox mode st) (hread : Snapshot.ofLog log = .ok snapshot)
    {decide : Snapshot → UInt64 → Except InboxError (α × Change)}
    (hd : ∀ now, ∃ a c, decide snapshot now = .ok (a, c) ∧ ∀ kept, c ≠ .replace kept) :
    Served (s.underLock inbox mode decide st).1 := by
  obtain ⟨st', -, hfit⟩ := underLock_fits h hf hu hread decide
  obtain ⟨a, c, hdecided, hkeeps⟩ := hd (UInt64.ofNat st'.now)
  generalize s.underLock inbox mode decide st = r at hfit
  cases hfit with
  | refused e he =>
    rw [hdecided] at he
    cases he
  | done => trivial
  | tooLong a' kept he =>
    rw [hdecided] at he
    cases he
    exact absurd rfl (hkeeps kept)

theorem enqueue_fits {m : Message} (h : s.Holds st.disk m.inbox (encodeChars text))
    (hf : Fits m.inbox) (hu : s.Unlocked m.inbox .shared st) : ∃ st' text',
      s.enqueue m st = (.ok m.id, st') ∧ s.Holds st'.disk m.inbox (encodeChars text') ∧
        Queue.ofLog text' = (Queue.ofLog text).enqueue m := by
  obtain ⟨snapshot, hread, -⟩ := Snapshot.ofLog_toQueue text
  have hkeeps : ∀ kept, (snapshot.enqueue m).2 ≠ .replace kept := by
    intro kept hreplace
    rw [Snapshot.enqueue] at hreplace
    split at hreplace
    · cases hreplace
    · cases hreplace
  have hserved : Served (s.enqueue m st).1 :=
    underLock_served h hf hu hread fun now => ⟨_, _, rfl, hkeeps⟩
  obtain ⟨hid, text', hlog, hqueue, -⟩ := enqueue_refines h rfl hserved
  exact ⟨_, text', Prod.ext hid rfl, hlog, hqueue⟩

theorem poll_fits (h : s.Holds st.disk inbox (encodeChars text)) (hf : Fits inbox)
    (hu : s.Unlocked inbox .shared st) : ∃ st',
      s.poll inbox st = (.ok (Queue.ofLog text).pending, st') ∧
        s.Holds st'.disk inbox (encodeChars text) := by
  obtain ⟨snapshot, hread, -⟩ := Snapshot.ofLog_toQueue text
  have hserved : Served (s.poll inbox st).1 :=
    underLock_served h hf hu hread fun now => ⟨_, _, rfl, nofun⟩
  obtain ⟨hpending, hlog⟩ := poll_refines h hserved
  exact ⟨_, Prod.ext hpending rfl, hlog⟩

theorem acknowledge_fits (h : s.Holds st.disk inbox (encodeChars text)) (hf : Fits inbox)
    (hu : s.Unlocked inbox .exclusive st) {id : MessageId} (hk : (Queue.ofLog text).Knows id) :
    ∃ st' text', s.acknowledge inbox id st = (.ok (), st') ∧
      s.Holds st'.disk inbox (encodeChars text') ∧
      Queue.ofLog text' = (Queue.ofLog text).acknowledge id := by
  obtain ⟨snapshot, hread, hq⟩ := Snapshot.ofLog_toQueue text
  have hknown : snapshot.contains id = true := by
    rw [Snapshot.contains_iff, hq]
    exact hk
  have hserved : Served (s.acknowledge inbox id st).1 :=
    underLock_served h hf hu hread fun now => by
      rw [Snapshot.acknowledge, hknown]
      cases snapshot.isAcked id
      · exact ⟨_, _, rfl, fun kept h => by cases h⟩
      · exact ⟨_, _, rfl, fun kept h => by cases h⟩
  obtain ⟨text', hlog, hack⟩ := acknowledge_refines h hserved
  rw [if_pos hk] at hack
  exact ⟨_, text', Prod.ext hack.1 rfl, hlog, hack.2.1⟩

/-- **When pruning works.** It does when nothing is to be dropped, or when the name of the draft
    fits as well. Otherwise it fails, and the log is as it was. -/
theorem prune_fits (h : s.Holds st.disk inbox (encodeChars text)) (hf : Fits inbox)
    (hu : s.Unlocked inbox .exclusive st) (maxAge : Nat) :
    ∃ st' n, n = (Queue.ofLog text).stale (UInt64.ofNat st'.now).toNat (maxAge % 2 ^ 64) ∧
      (n = 0 ∨ Short inbox → s.pruneOlder inbox maxAge st = (.ok n, st') ∧
        ∃ text', s.Holds st'.disk inbox (encodeChars text') ∧
          Queue.ofLog text' =
            (Queue.ofLog text).prune (UInt64.ofNat st'.now).toNat (maxAge % 2 ^ 64)) ∧
      (n ≠ 0 → ¬ Short inbox →
        s.pruneOlder inbox maxAge st = (.error (.io .nameTooLong), st') ∧
          s.Holds st'.disk inbox (encodeChars text)) := by
  obtain ⟨snapshot, hread, hq⟩ := Snapshot.ofLog_toQueue text
  obtain ⟨locked, hlocked, hfit⟩ : ∃ st', s.Holds st'.disk inbox _ ∧
      Fitting inbox _ snapshot st' (s.pruneOlder inbox maxAge st) :=
    underLock_fits h hf hu hread _
  obtain ⟨text', hlog, href⟩ := perform_refines h (.prune maxAge) trivial
  simp only [perform] at hlog href
  generalize s.pruneOlder inbox maxAge st = r at hlog href hfit ⊢
  cases hfit with
  | refused e hd => cases hd
  | done a c disk hd hs =>
    obtain ⟨ha, -⟩ := href.answer
    obtain ⟨hn, hqueue⟩ := Prod.mk.inj ha
    refine ⟨_, a, InboxAnswer.pruned.inj hn, fun _ => ⟨rfl, text', hlog, hqueue⟩,
      fun hne hlong => ?_⟩
    -- something was dropped, so that a new log has been written
    have hdecided := Except.ok.inj hd
    rw [Snapshot.prune_eq, hq, Prod.mk.injEq] at hdecided
    rw [if_neg (hdecided.1 ▸ hne)] at hdecided
    exact absurd (hs _ hdecided.2.symm) hlong
  | tooLong a kept hd hs =>
    have hdecided := Except.ok.inj hd
    rw [Snapshot.prune_eq, hq, Prod.mk.injEq] at hdecided
    have hstale : (Queue.ofLog text).stale (UInt64.ofNat locked.now).toNat (maxAge % 2 ^ 64) ≠
        0 := by
      intro hzero
      rw [if_pos hzero] at hdecided
      cases hdecided.2
    refine ⟨locked, _, rfl, fun h => ?_, fun _ _ => ⟨rfl, hlocked⟩⟩
    rcases h with hzero | hshort
    · exact absurd hzero hstale
    · exact absurd hshort hs

theorem Holds.fits_of_snapshot {snapshot : Snapshot} (h : s.Holds st.disk inbox log)
    (hread : s.snapshot st.disk inbox = .ok snapshot) : Fits inbox := by
  by_contra hf
  have hlong := Disk.read_tooLong (n := logName inbox) h.dir (Nat.lt_of_not_le hf)
  rw [InboxStore.snapshot, InboxStore.log, logPlace, hlong] at hread
  cases hread

/-- A message is accepted only where the log fits and is a text, and joins its queue. -/
theorem Holds.enqueued {m : Message} {i : MessageId} (h : s.Holds st.disk m.inbox log)
    (hok : (s.enqueue m st).1 = .ok i) : Fits m.inbox ∧ ∃ text text', log = encodeChars text ∧
      s.Holds (s.enqueue m st).2.disk m.inbox (encodeChars text') ∧
      Queue.ofLog text' = (Queue.ofLog text).enqueue m := by
  obtain ⟨-, before, _, haccepts⟩ := enqueue_logged hok
  have hread := haccepts.read
  have hf := h.fits_of_snapshot hread
  rw [h.snapshot_of_fits hf] at hread
  obtain ⟨text, rfl⟩ := Snapshot.exists_text hread
  obtain ⟨-, text', hlog, hqueue, -⟩ := enqueue_refines h rfl (by rw [hok]; trivial)
  exact ⟨hf, text, text', rfl, hlog, hqueue⟩

end InboxStore

namespace Router

variable {store : InboxStore} {settle : Nat} {session : Session} {message : String}
  {id i : MessageId} {health : Option (Except IoError Report)} {terminal : Option Terminal}
  {st : Storage} {log : Bytes}

theorem queue_storage : (queueOn none store session message id terminal st).storage =
    (store.enqueue (envelope session message id (UInt64.ofNat st.now)) st).2 := by
  rw [queueOn, InboxStore.enqueueOn_none]
  split
  · rename_i h
    rw [h]
  · rename_i h
    rw [h]

theorem deliver_fits {text : List Char} (hmode : session.mode = .inbox)
    (h : store.Holds st.disk session.inbox (encodeChars text))
    (hf : InboxStore.Fits session.inbox) (hu : store.Unlocked session.inbox .shared st) :
    (deliver store settle session message id health terminal st).receipt.outcome = .queued id ∧
      ∃ text', store.Holds
        (deliver store settle session message id health terminal st).storage.disk session.inbox
          (encodeChars text') ∧
        Queue.ofLog text' =
          (Queue.ofLog text).enqueue (envelope session message id (UInt64.ofNat st.now)) := by
  have hm : store.Holds st.disk (envelope session message id (UInt64.ofNat st.now)).inbox _ := h
  obtain ⟨st', text', henqueue, hlog, hqueue⟩ := InboxStore.enqueue_fits hm hf hu
  rw [deliver_inbox hmode, queueOn, InboxStore.enqueueOn_none, henqueue]
  exact ⟨rfl, text', hlog, hqueue⟩

/-- A message that counts as queued is in the queue of the log, and the log fits. -/
theorem deliver_queued (hmode : session.mode = .inbox)
    (h : store.Holds st.disk session.inbox log)
    (hq : (deliver store settle session message id health terminal st).receipt.outcome =
      .queued i) :
    InboxStore.Fits session.inbox ∧ ∃ text text', log = encodeChars text ∧
      store.Holds (deliver store settle session message id health terminal st).storage.disk
        session.inbox (encodeChars text') ∧
      Queue.ofLog text' =
        (Queue.ofLog text).enqueue (envelope session message id (UInt64.ofNat st.now)) := by
  rw [deliver_inbox hmode] at hq ⊢
  rw [queue_storage]
  have hm : store.Holds st.disk (envelope session message id (UInt64.ofNat st.now)).inbox log := h
  exact hm.enqueued ((queue_queues.queued i).mp hq)

end Router

/-! ## Commands -/

namespace Operator

variable {site : Site} {p : Paths} {draw : Draw} {store : InboxStore} {inbox : InboxId}
  {text : List Char} {t name : String}

/-- The site with another storage. -/
def after (site : Site) (storage : Storage) : Site :=
  { site with host := { site.host with storage } }

/-- **A command for inboxes** acts on their directory, if it is there. -/
theorem inbox_eq (hplace : site.place p.state.inboxDir = store.dir)
    (hdir : site.disk.IsDir store.dir) (draw : Draw) (c : InboxCommand) :
    Operator.inbox site p draw c = (printed (inboxCommand site store p.config draw c).1,
      after site (inboxCommand site store p.config draw c).2) := by
  have hopen : InboxStore.openAt (site.place p.state.inboxDir) site.disk =
      .ok (store, site.disk) := by
    rw [hplace, InboxStore.openAt, hdir.makeDirs]
    rfl
  rw [Operator.inbox, hopen]
  rfl

/-- What the commands do to an inbox with a log of this text, when they are given `t` for its
    name. -/
structure Serves (store : InboxStore) (site : Site) (p : Paths) (draw : Draw) (t : String)
    (inbox : InboxId) (text : List Char) : Prop where
  /-- the waiting messages are printed -/
  poll : ∀ json, ∃ site',
    Operator.inbox site p draw (.poll t json) =
      ({ output := String.join ((Queue.ofLog text).pending.map (Printout.message json)) },
        site') ∧
    store.Holds site'.disk inbox (encodeChars text)
  /-- a message is acknowledged -/
  ack : ∀ id, (Queue.ofLog text).Knows ⟨id⟩ → ∃ site' text',
    Operator.inbox site p draw (.ack t id) = ({}, site') ∧
    store.Holds site'.disk inbox (encodeChars text') ∧
    Queue.ofLog text' = (Queue.ofLog text).acknowledge ⟨id⟩
  /-- what is stale is dropped and counted, unless the name of the draft is too long -/
  prune : ∀ age seconds, maxAge site p.config age = .ok seconds → ∃ site' now n,
    now = (UInt64.ofNat site'.host.storage.now).toNat ∧
    n = (Queue.ofLog text).stale now (seconds.toNat * 1000 % 2 ^ 64) ∧
    (n = 0 ∨ InboxStore.Short inbox →
      Operator.inbox site p draw (.prune (some t) age) =
        ({ output := Printout.pruned n 1 }, site') ∧
      ∃ text', store.Holds site'.disk inbox (encodeChars text') ∧
        Queue.ofLog text' = (Queue.ofLog text).prune now (seconds.toNat * 1000 % 2 ^ 64)) ∧
    (n ≠ 0 → ¬ InboxStore.Short inbox →
      Operator.inbox site p draw (.prune (some t) age) =
        ({ failure := some (.inbox (.io .nameTooLong)) }, site') ∧
      store.Holds site'.disk inbox (encodeChars text))

/-- **What the commands do under any spelling** of a name. -/
theorem serves_spelling (ht : InboxId.Spells t name)
    (hplace : site.place p.state.inboxDir = store.dir)
    (h : store.Holds site.disk (InboxId.ofName name) (encodeChars text))
    (hf : InboxStore.Fits (InboxId.ofName name))
    (hu : ∀ mode, store.Unlocked (InboxId.ofName name) mode site.host.storage) (draw : Draw) :
    Serves store site p draw t (InboxId.ofName name) text := by
  have hname := InboxId.ofName_of_spells ht
  have heq := inbox_eq hplace h.dir draw
  have h' : store.Holds site.host.storage.disk (InboxId.ofName name) (encodeChars text) := h
  refine ⟨fun json => ?_, fun id hk => ?_, fun age seconds hage => ?_⟩
  · obtain ⟨st', hpoll, hlog⟩ := InboxStore.poll_fits h' hf (hu .shared)
    refine ⟨after site st', ?_, hlog⟩
    rw [heq, inboxCommand, hname]
    simp only [hpoll]
    rfl
  · obtain ⟨st', text', hack, hlog, hqueue⟩ :=
      InboxStore.acknowledge_fits h' hf (hu .exclusive) hk
    refine ⟨after site st', text', ?_, hlog, hqueue⟩
    rw [heq, inboxCommand, hname]
    simp only [hack]
    rfl
  · obtain ⟨st', n, hn, hdone, hfailed⟩ :=
      InboxStore.prune_fits h' hf (hu .exclusive) (seconds.toNat * 1000)
    refine ⟨after site st', _, n, rfl, hn, fun hworks => ?_, fun hne hlong => ?_⟩
    · obtain ⟨hprune, hqueue⟩ := hdone hworks
      refine ⟨?_, hqueue⟩
      rw [heq, inboxCommand]
      simp only [hage, Operator.prune, hname, pruneAll, InboxStore.prune, hprune]
      rfl
    · obtain ⟨hprune, hlog⟩ := hfailed hne hlong
      refine ⟨?_, hlog⟩
      rw [heq, inboxCommand]
      simp only [hage, Operator.prune, hname, pruneAll, InboxStore.prune, hprune]
      rfl

/-! ## A supervisor that keeps its state in `/s` -/

/-- An operator who finds this disk. -/
def beside (disk : Disk) : Site := { host := { storage := { disk, now := 0 } }, dir := [] }

def drawn : Draw := ⟨⟨"k2"⟩, fun _ => ""⟩

def paths : Paths := ⟨"/s/sock", ⟨"/s"⟩, none⟩

def inboxes : InboxStore := ⟨["s", "inbox"]⟩

/-- The disk before the first message. -/
def bare : Disk := ⟨[(["s", "inbox"], .directory), (["s"], .directory)]⟩

/-- What a message comes to that is the first one for a session. -/
def delivered (session : Session) : Router.Delivery :=
  Router.deliver inboxes 50 session "m" ⟨"k1"⟩ none none { disk := bare, now := 0 }

/-- A session under any name, which is served by its inbox. -/
theorem make_true (name : String) : ∃ session,
    Session.make name .amp .inbox ⟨"true", []⟩ ⟨"/s"⟩ 0 = .ok session ∧
      session.inbox = InboxId.ofName name ∧ session.mode = .inbox := by
  have hread : ((Agent.patterns .amp ++ []).mapM Pattern.ofString?).isSome = true := by
    decide +kernel
  obtain ⟨patterns, hpatterns⟩ := Option.isSome_iff_exists.mp hread
  have hblank : Text.isBlankString "true" = false := by decide
  unfold Session.make
  simp only [hblank, Bool.false_eq_true, if_false, hpatterns]
  exact ⟨_, rfl, rfl, rfl⟩

theorem holds_bare (inbox : InboxId) : inboxes.Holds bare inbox (encodeChars []) := by
  have hnone (n : String) : bare.at? (inboxes.dir ++ [n]) = none := by
    simp [bare, inboxes, Disk.at?]
  refine ⟨rfl, .inl (hnone _), .inl (hnone _), .inl (hnone _), ?_⟩
  rw [InboxStore.logPlace, hnone]
  rfl

theorem place_beside (disk : Disk) : (beside disk).place paths.state.inboxDir = inboxes.dir := by
  have hplace : Place.ofPath [] paths.state.inboxDir = inboxes.dir := by decide +kernel
  exact hplace

theorem unlocked_beside (disk : Disk) (inbox : InboxId) (mode : LockMode) :
    inboxes.Unlocked inbox mode (beside disk).host.storage := Option.some_ne_none 0

theorem delivered_fits {session : Session} (hmode : session.mode = .inbox)
    (hf : InboxStore.Fits session.inbox) :
    (delivered session).receipt.outcome = .queued ⟨"k1"⟩ ∧
      ∃ text, inboxes.Holds (delivered session).storage.disk session.inbox (encodeChars text) ∧
        (Queue.ofLog text).Knows ⟨"k1"⟩ := by
  obtain ⟨hqueued, text, hholds, hqueue⟩ := @Router.deliver_fits inboxes 50 session "m" ⟨"k1"⟩
    none none ⟨bare, [], 0⟩ [] hmode (holds_bare _) hf (Option.some_ne_none 0)
  refine ⟨hqueued, text, hholds, ?_⟩
  rw [hqueue]
  exact Queue.knows_enqueue _ _

/-- A name of so many letters. -/
def letters (n : Nat) : String := String.ofList (List.replicate n 'n')

theorem ofName_letters {n : Nat} (hn : n ≠ 0) : InboxId.ofName (letters n) = ⟨letters n⟩ := by
  refine InboxId.ofName_eq_self.mpr ?_
  rw [letters, String.toList_ofList]
  refine ⟨by simp [hn], fun c hc => ?_, fun hdot => ?_⟩
  · rw [List.eq_of_mem_replicate hc]
    decide
  · rw [List.head?_replicate, if_neg hn] at hdot
    cases hdot

theorem size_letters (n : Nat) : (letters n).utf8ByteSize = n := by
  rw [letters, String.utf8ByteSize_ofList]
  induction n with
  | zero => rfl
  | succ n ih =>
    rw [List.replicate_succ, String.utf8Len_cons, ih]
    rfl

/-- Where the log fits and the draft of a new one does not, a message is delivered and
    acknowledged, and then cannot be pruned. -/
theorem prune_refused {name : String} (hf : InboxStore.Fits (InboxId.ofName name))
    (hlong : ¬ InboxStore.Short (InboxId.ofName name)) : ∃ session acked pruned,
    Session.make name .amp .inbox ⟨"true", []⟩ ⟨"/s"⟩ 0 = .ok session ∧
    (delivered session).receipt.outcome = .queued ⟨"k1"⟩ ∧
    Operator.inbox (beside (delivered session).storage.disk) paths drawn (.ack name "k1") =
      ({}, acked) ∧
    Operator.inbox (beside acked.disk) paths drawn (.prune (some name) (some 86400)) =
      ({ failure := some (.inbox (.io .nameTooLong)) }, pruned) := by
  obtain ⟨session, hmake, hinbox, hmode⟩ := make_true name
  rw [← hinbox] at hf hlong
  obtain ⟨hqueued, text, hdelivered, hknown⟩ := delivered_fits hmode hf
  have hserves (disk : Disk) (text : List Char)
      (h : inboxes.Holds (beside disk).disk session.inbox (encodeChars text)) :
      Serves inboxes (beside disk) paths drawn name session.inbox text := by
    rw [hinbox] at h hf ⊢
    exact serves_spelling (.inl rfl) (place_beside disk) h hf (unlocked_beside disk _) drawn
  obtain ⟨acked, text', hack, hacked, hqueue'⟩ := (hserves _ text hdelivered).ack "k1" hknown
  obtain ⟨pruned, now, n, -, hn, -, hprune⟩ :=
    (hserves acked.disk text' hacked).prune (some 86400) 86400 rfl
  have hstale : n ≠ 0 := by
    rw [hn, hqueue']
    exact Queue.stale_acknowledge hknown _ _
  exact ⟨session, acked, pruned, hmake, hqueued, hack, (hprune hstale hlong).1⟩

/-! ## Names and their inboxes -/

/-- **Names and their inboxes.** The inbox of a name has a canonical name, and exactly the
    canonical names lead to themselves. All spellings of a name lead to its inbox, whose files stay
    in the directories that they are put into. A message for a session counts as queued where the
    log of its inbox fits, is a text and is not locked. Whenever a message does, it has joined that
    inbox; and whatever has become of the inbox since, the commands poll and acknowledge it under
    each spelling of the session's name, and prune it unless something is to be dropped and the
    name of the draft is too long. -/
theorem inbox_names (name : String) :
    InboxId.Canonical (InboxId.ofName name).text.toList ∧
    (∀ text, InboxId.ofName text = ⟨text⟩ ↔ InboxId.Canonical text.toList) ∧
    (∀ t, InboxId.Spells t name → InboxId.ofName t = InboxId.ofName name) ∧
    (∀ a b, Text.isBlankString a = true → Text.isBlankString b = true →
      InboxId.Spells (a ++ name ++ b) name) ∧
    InboxId.Spells (InboxId.ofName name).text name ∧
    (∀ file ∈ InboxId.fileNames (InboxId.ofName name), InboxId.StaysIn file) ∧
    ∀ agent plan dir now session, Session.make name agent .inbox plan dir now = .ok session →
      ∀ (store : InboxStore) settle message id health terminal st log,
        store.Holds st.disk session.inbox log →
        (InboxStore.Fits session.inbox → (∃ text, log = encodeChars text) →
          store.Unlocked session.inbox .shared st →
          (Router.deliver store settle session message id health terminal st).receipt.outcome =
            .queued id) ∧
        ∀ i, (Router.deliver store settle session message id health terminal st).receipt.outcome =
            .queued i →
          (∃ text text', log = encodeChars text ∧
            store.Holds
              (Router.deliver store settle session message id health terminal st).storage.disk
              session.inbox (encodeChars text') ∧
            Queue.ofLog text' = (Queue.ofLog text).enqueue
              (Router.envelope session message id (UInt64.ofNat st.now))) ∧
          ∀ t site p draw text, InboxId.Spells t name →
            site.place p.state.inboxDir = store.dir →
            store.Holds site.disk session.inbox (encodeChars text) →
            (∀ mode, store.Unlocked session.inbox mode site.host.storage) →
            Serves store site p draw t session.inbox text := by
  refine ⟨InboxId.canonical_ofName name, fun text => InboxId.ofName_eq_self,
    fun t => InboxId.ofName_of_spells, fun a b ha hb => InboxId.spells_pad ha hb name,
    InboxId.spells_ofName name, InboxId.staysIn_fileNames name, ?_⟩
  intro agent plan dir now session hmake store settle message id health terminal st log h
  obtain ⟨patterns, rfl⟩ := Supervisor.make_ok hmake
  refine ⟨?_, fun i hq => ?_⟩
  · rintro hf ⟨text, rfl⟩ hu
    exact (Router.deliver_fits rfl h hf hu).1
  · obtain ⟨hf, hjoined⟩ := Router.deliver_queued rfl h hq
    exact ⟨hjoined, fun t site p draw text ht hplace hholds hu =>
      serves_spelling ht hplace hholds hf hu draw⟩

/-- **A name with a blank in it**, and a spelling of it with others around it. -/
theorem inbox_names_a_b : ∃ session site',
    Session.make "a b" .amp .inbox ⟨"true", []⟩ ⟨"/s"⟩ 0 = .ok session ∧
    (delivered session).receipt.outcome = .queued ⟨"k1"⟩ ∧
    Operator.inbox (beside (delivered session).storage.disk) paths drawn
      (.poll "\ta b " false) = ({ output := "k1\tm\n" }, site') := by
  obtain ⟨session, hmake, hinbox, -⟩ := make_true "a b"
  have hf : InboxStore.Fits session.inbox := by
    rw [hinbox]
    unfold InboxStore.Fits
    decide +kernel
  obtain ⟨-, -, -, -, -, -, hdeliver⟩ := inbox_names "a b"
  obtain ⟨haccepted, hfound⟩ := hdeliver .amp ⟨"true", []⟩ ⟨"/s"⟩ 0 session hmake inboxes 50 "m"
    ⟨"k1"⟩ none none ⟨bare, [], 0⟩ _ (holds_bare _)
  have hqueued : (delivered session).receipt.outcome = .queued ⟨"k1"⟩ :=
    haccepted hf ⟨_, rfl⟩ (Option.some_ne_none 0)
  obtain ⟨⟨text, text', hempty, hholds, hqueue⟩, hserves⟩ := hfound ⟨"k1"⟩ hqueued
  obtain rfl := Utf8.encodeChars_injective hempty
  have hspells : InboxId.Spells "\ta b " "a b" := .inl (by decide +kernel)
  have hserve := hserves _ (beside (delivered session).storage.disk) paths drawn text' hspells
    (place_beside _) hholds fun mode => unlocked_beside _ _ mode
  obtain ⟨site', hpoll, -⟩ := hserve.poll false
  rw [hqueue] at hpoll
  exact ⟨session, site', hmake, hqueued, hpoll⟩

/-- **A message in an inbox with a long name** is delivered and acknowledged, and then cannot be
    pruned. -/
theorem prune_refused_long_name : ∃ session acked pruned,
    Session.make (letters 246) .amp .inbox ⟨"true", []⟩ ⟨"/s"⟩ 0 = .ok session ∧
    (delivered session).receipt.outcome = .queued ⟨"k1"⟩ ∧
    Operator.inbox (beside (delivered session).storage.disk) paths drawn
      (.ack (letters 246) "k1") = ({}, acked) ∧
    Operator.inbox (beside acked.disk) paths drawn (.prune (some (letters 246)) (some 86400)) =
      ({ failure := some (.inbox (.io .nameTooLong)) }, pruned) := by
  refine prune_refused ?_ ?_
  · rw [ofName_letters (by decide), InboxStore.Fits, InboxStore.logName,
      String.utf8ByteSize_append, size_letters]
    decide
  · rw [ofName_letters (by decide), InboxStore.Short, InboxStore.draftName, InboxStore.logName,
      String.utf8ByteSize_append, String.utf8ByteSize_append, size_letters]
    decide

end Operator

end AgentSupervisor
