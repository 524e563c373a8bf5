import AgentSupervisor.Proofs.Elsewhere
import AgentSupervisor.Proofs.PidText
import AgentSupervisor.Proofs.SessionTable
import Mathlib.Logic.Relation

/-!
# Whose PID files they are

The shell of a session writes its number into the PID file of the session, at some time after it
has been started. If nothing else writes below the directory of PID files, then the PID file of a
running session is never that of another one.

* `Lets`                : what may happen on the host when the supervisor does nothing;
* `Sound`, `Step.kept`  : the invariant, and that every step keeps it;
* `runs_written`        : what a shell has written stays while its session is running;
* `reachable_pid_files` : what is found in the PID file of a running session.
-/

namespace AgentSupervisor

/-! ## Steps -/

/-- The place at which a new process is told to write its number. -/
def Child.numberPlace (c : Child) : Place :=
  Place.ofPath c.dir ((c.vars.lookup LaunchPlan.pidFileVariable).getD "")

namespace PidFiles

open Scene (Tidy Event)

/-- The directory of PID files. -/
def dirOf (s : Supervisor) : Place := Place.ofPath s.dir s.state.pidDir

/-- What stands in place of the PID file of a session. -/
def fileOf (s : Supervisor) (h : Host) (session : Session) : Option Entry :=
  h.storage.disk.seen (s.pidPlace session)

/-- The file into which a process has written its number. -/
def numberFile (pid : UInt32) : Entry := .file (Utf8.encodeChars (PidRead.textOf pid))

/-- What may happen on the host when the supervisor does nothing. `told` are the places at which
    processes were told to write their numbers. -/
inductive Lets (s : Supervisor) (told : UInt32 → Option Place) (h : Host) : Host → Prop where
  /-- a process that has not ended writes its number, in one step -/
  | write (pid : UInt32) (c : Child) (place : Place) (disk : Disk)
      (hc : h.child? pid = some c) (hlife : c.ended = none) (htold : told pid = some place)
      (hw : h.storage.disk.write place (Utf8.encodeChars (PidRead.textOf pid)) = .ok disk) :
      Lets s told h (h.withDisk disk)
  /-- processes go on and end, time passes, and files change elsewhere -/
  | other (h' : Host) (hgoes : h.Goes h')
      (hfiles : ∀ n, h'.storage.disk.seen (dirOf s ++ [n]) = h.storage.disk.seen (dirOf s ++ [n])) :
      Lets s told h h'

/-- The pauses of a request: the host before and after each of them. -/
def pauses (s : Supervisor) (draw : Draw) (h : Host) : Request → List (Host × Host)
  | .status name =>
    match s.table.named? name with
    | none => []
    | some m =>
      match s.health h m.session s.config.retryPolicy with
      | .error _ => []
      | .ok _ => [(h, s.waited h m)]
  | .inject name message id =>
    match s.table.named? name with
    | none => []
    | some m =>
      let id := id.getD draw.id
      [(s.typed h m message id,
          (s.typed h m message id).pass (s.delivery h m message id).slept),
        (s.entered h m message id, (s.entered h m message id).settle)]
  | _ => []

/-- What processes have been told, with those that are new on the host. -/
def noted (told : UInt32 → Option Place) (h h' : Host) (pid : UInt32) : Option Place :=
  match h.child? pid with
  | some _ => told pid
  | none => (h'.child? pid).map Child.numberPlace

/-- A supervisor with its host, and what processes have been told. -/
structure State where
  supervisor : Supervisor
  host : Host
  told : UInt32 → Option Place

/-- The supervisor and its host. -/
def State.scene (x : State) : Scene := (x.supervisor, x.host)

/-- A step. The host goes on by itself in the pauses of a request as it does between requests, and
    nothing is assumed of anything else that a request does. -/
inductive Step : State → Event → State → Prop where
  | request (s : Supervisor) (h : Host) (told : UInt32 → Option Place) (draw : Draw) (r : Request)
      (hpauses : ∀ p ∈ pauses s draw h r, Relation.ReflTransGen (Lets s told) p.1 p.2) :
      Step ⟨s, h, told⟩ (.request r (s.handle draw h r).1)
        ⟨(s.handle draw h r).2.1, (s.handle draw h r).2.2, noted told h (s.handle draw h r).2.2⟩
  | starved (s s' : Supervisor) (h h' : Host) (told : UInt32 → Option Place) (draw : Draw)
      (w : SpawnRequest) (p : Prepared) (e : String)
      (hr : s.ready w draw h = (.ok p, s', h')) :
      Step ⟨s, h, told⟩ (.request (.spawn w) (.error e)) ⟨s', h', told⟩
  | look (s : Supervisor) (h : Host) (told : UInt32 → Option Place) :
      Step ⟨s, h, told⟩ .look ⟨(s.drain h).1, (s.drain h).2, told⟩
  | world (s : Supervisor) (h h' : Host) (told : UInt32 → Option Place) (hl : Lets s told h h') :
      Step ⟨s, h, told⟩ .world ⟨s, h', told⟩

/-! ## The invariant -/

/-- Every process that may still write was told the PID file of its own running session, and every
    running session has its own number in its PID file or nothing. -/
structure Sound (s : Supervisor) (h : Host) (told : UInt32 → Option Place) : Prop where
  tidy : Tidy s
  rooted : s.store.dir = Place.ofPath s.dir s.state.inboxDir
  writers : ∀ pid c place, h.child? pid = some c → c.ended = none → told pid = some place →
    ∃ m ∈ s.table, m.isRunning = true ∧ m.pid = pid ∧ place = s.pidPlace m.session
  files : ∀ m ∈ s.table, m.isRunning = true →
    fileOf s h m.session = none ∨ fileOf s h m.session = some (numberFile m.pid)

/-- What happens on the host leaves the PID files of running sessions alone, unless their own
    processes write them. -/
structure Spares (s : Supervisor) (h h' : Host) : Prop where
  goes : h.Goes h'
  files : ∀ m ∈ s.table, m.isRunning = true →
    fileOf s h' m.session = fileOf s h m.session ∨ fileOf s h' m.session = some (numberFile m.pid)

variable {s : Supervisor} {h h' h'' : Host} {told : UInt32 → Option Place} {m : Managed}

theorem Spares.refl (s : Supervisor) (h : Host) : Spares s h h :=
  ⟨.refl h, fun _ _ _ => .inl rfl⟩

theorem Spares.trans (h1 : Spares s h h') (h2 : Spares s h' h'') : Spares s h h'' := by
  refine ⟨h1.goes.trans h2.goes, fun m hm hrun => ?_⟩
  rcases h2.files m hm hrun with h2 | h2
  · rw [h2]
    exact h1.files m hm hrun
  · exact .inr h2

/-- What has been written is still there on any host with the same storage. -/
theorem Spares.written {s' : Supervisor} (hsp : Spares s h h') (hstorage : h''.storage = h'.storage)
    (hdir : s'.dir = s.dir) (hm : m ∈ s.table) (hrun : m.isRunning = true)
    (hw : fileOf s h m.session = some (numberFile m.pid)) :
    fileOf s' h'' m.session = some (numberFile m.pid) := by
  have hsame : fileOf s' h'' m.session = fileOf s h' m.session := by
    simp only [fileOf, Supervisor.pidPlace, hstorage, hdir]
  rw [hsame]
  rcases hsp.files m hm hrun with h | h
  · rw [h, hw]
  · exact h

theorem Sound.spares (hs : Sound s h told) (hsp : Spares s h h') : Sound s h' told := by
  refine ⟨hs.tidy, hs.rooted, fun pid c' place hc' hlife htold => ?_, fun m hm hrun => ?_⟩
  · obtain ⟨c, hc, he⟩ := hsp.goes pid c' hc'
    exact hs.writers pid c place hc (he hlife) htold
  · rcases hsp.files m hm hrun with h | h
    · rw [h]
      exact hs.files m hm hrun
    · exact .inr h

/-! ## Places of PID files -/

theorem pidPlace_eq {session : Session} (hi : session.inbox = InboxId.ofName session.name)
    (hp : session.pidFile = s.state.pidFile session.inbox) :
    s.pidPlace session = dirOf s ++ [StateDir.pidFileName session.inbox] := by
  have hslash : '/' ∉ session.inbox.text.toList := by
    rw [hi]
    exact InboxId.slash_not_mem session.name
  rw [Supervisor.pidPlace, hp, StateDir.place_pidFile s.dir s.state hslash, dirOf]

theorem Sound.place (hs : Sound s h told) (hm : m ∈ s.table) :
    s.pidPlace m.session = dirOf s ++ [StateDir.pidFileName m.session.inbox] :=
  pidPlace_eq (hs.tidy.inbox m hm) (hs.tidy.pidFile m hm)

theorem planned_place {p : Prepared} (hp : s.Planned p) :
    s.pidPlace p.session = dirOf s ++ [StateDir.pidFileName p.session.inbox] :=
  pidPlace_eq hp.inbox hp.pidFile

/-- What leaves the directory of PID files alone spares them. -/
theorem Sound.spares_of_seen (hs : Sound s h told) (hgoes : h.Goes h')
    (hfiles : ∀ n, h'.storage.disk.seen (dirOf s ++ [n]) = h.storage.disk.seen (dirOf s ++ [n])) :
    Spares s h h' := by
  refine ⟨hgoes, fun m hm _ => .inl ?_⟩
  rw [fileOf, fileOf, hs.place hm]
  exact hfiles _

/-- So does a removal of the file of an inbox that no running session has. -/
theorem Sound.spares_remove (hs : Sound s h told) {inbox : InboxId} {disk : Disk}
    (hother : ∀ m ∈ s.table, m.isRunning = true → m.session.inbox ≠ inbox)
    (hr : h.storage.disk.remove (dirOf s ++ [StateDir.pidFileName inbox]) = .ok disk) :
    Spares s h (h.withDisk disk) := by
  refine ⟨.refl h, fun m hm hrun => .inl (Disk.seen_of_find ?_)⟩
  rw [hs.place hm]
  refine Disk.find_remove (Disk.not_prefix_sibling fun heq => ?_) hr
  exact hother m hm hrun (StateDir.pidFileName_inj heq).symm

/-! ## The world -/

theorem Sound.spares_write (hs : Sound s h told) {pid : UInt32} {c : Child} {place : Place}
    {disk : Disk} (hc : h.child? pid = some c) (hlife : c.ended = none)
    (htold : told pid = some place)
    (hw : h.storage.disk.write place (Utf8.encodeChars (PidRead.textOf pid)) = .ok disk) :
    Spares s h (h.withDisk disk) := by
  refine ⟨.refl h, fun m hm hrun => ?_⟩
  obtain ⟨owner, howner, hown, hpid, rfl⟩ := hs.writers pid c place hc hlife htold
  by_cases hinbox : m.session.inbox = owner.session.inbox
  · obtain rfl := hs.tidy.unique hm howner hinbox
    rw [← hpid] at hw
    exact .inr (Disk.seen_write hw)
  · refine .inl (Disk.seen_of_find ?_)
    rw [hs.place howner] at hw
    rw [hs.place hm]
    refine Disk.find_modify (Disk.not_prefix_sibling fun heq => hinbox ?_) hw
    exact (StateDir.pidFileName_inj heq).symm

theorem Lets.spares (hl : Lets s told h h') (hs : Sound s h told) : Spares s h h' := by
  cases hl with
  | write pid c place disk hc hlife htold hw => exact hs.spares_write hc hlife htold hw
  | other _ hgoes hfiles => exact hs.spares_of_seen hgoes hfiles

theorem lets_spares (hl : Relation.ReflTransGen (Lets s told) h h') (hs : Sound s h told) :
    Spares s h h' := by
  induction hl with
  | refl => exact .refl s h
  | tail _ hl ih => exact ih.trans (hl.spares (hs.spares ih))

/-! ## Requests -/

theorem Sound.spares_clear (hs : Sound s h told) {p : Prepared} (hp : s.Planned p) {disk : Disk}
    (hd : s.clearPidFile p.session h.storage.disk = .ok disk) :
    Spares s h (h.withDisk disk) ∧ fileOf s (h.withDisk disk) p.session = none := by
  unfold Supervisor.clearPidFile at hd
  cases hr : h.storage.disk.remove (s.pidPlace p.session) with
  | ok disk' =>
    rw [hr] at hd
    cases hd
    refine ⟨?_, Disk.seen_remove hr⟩
    rw [planned_place hp] at hr
    exact hs.spares_remove hp.free hr
  | error e =>
    rw [hr] at hd
    cases e with
    | notFound =>
      cases hd
      exact ⟨.refl s h, Disk.seen_of_remove hr⟩
    | _ => cases hd

theorem spares_update (s : Supervisor) (h : Host) (pid : UInt32) {f : Child → Child}
    (hpid : ∀ c, (f c).pid = c.pid) (hlife : ∀ c, (f c).ended = none → c.ended = none) :
    Spares s h (h.update pid f) :=
  ⟨.update h pid hpid hlife, fun _ _ _ => .inl rfl⟩

theorem spares_type (s : Supervisor) (h : Host) (pid : UInt32) (keys : Bytes) :
    Spares s h (h.type pid keys) :=
  spares_update s h pid (fun c => c.type_pid keys) fun _ => Child.type_ended keys

theorem spares_signal (s : Supervisor) (h : Host) (pid : UInt32) (n : Int32) :
    Spares s h (h.signal pid n) :=
  spares_update s h pid (fun c => c.receive_pid n) fun _ => Child.receive_ended n

/-- A signal to whoever has a number spares all files. -/
theorem spares_send {pid : UInt32} {n : Int32} (hsend : h.send pid n = .ok h') :
    Spares s h h' := by
  obtain ⟨-, rfl⟩ | ⟨-, -, rfl⟩ := Host.send_ok hsend
  · exact spares_signal s h pid n
  · exact ⟨.refl h, fun _ _ _ => .inl rfl⟩

/-- The directory of inboxes is not on the way to a PID file. -/
theorem Sound.inbox_apart (hs : Sound s h told) (m n : String) :
    ¬ s.store.dir ++ [m] <+: dirOf s ++ [n] := by
  rw [hs.rooted, dirOf, StateDir.inboxDir, StateDir.pidDir,
    Place.ofPath_join _ _ StateDir.isName_inbox, Place.ofPath_join _ _ StateDir.isName_pids]
  exact Disk.not_prefix_cousin (by decide) m n

theorem Sound.spares_delivery (hs : Sound s h told) (m : Managed) (message : String)
    (id : MessageId) : Spares s h { h with storage := (s.delivery h m message id).storage } :=
  hs.spares_of_seen (.refl h) fun n =>
    Disk.seen_of_find (Router.find_deliver (fun k => hs.inbox_apart k n) _ _ _ _ _ _ _)

/-- **A delivery** spares the PID files of running sessions. -/
theorem Sound.spares_inject (hs : Sound s h told) {draw : Draw} {message : String}
    {id : Option MessageId} (hm : s.table.named? m.name = some m)
    (hl : ∀ p ∈ pauses s draw h (.inject m.name message id),
      Relation.ReflTransGen (Lets s told) p.1 p.2) :
    Spares s h (s.entered h m message (id.getD draw.id)).settle := by
  simp only [pauses, hm, List.forall_mem_cons] at hl
  obtain ⟨hpause, hsettle, -⟩ := hl
  have htyped : Spares s h (s.typed h m message (id.getD draw.id)) :=
    (hs.spares_delivery m message _).trans (spares_type s _ m.pid _)
  have hpassed := htyped.trans (lets_spares hpause (hs.spares htyped))
  have hentered : Spares s h (s.entered h m message (id.getD draw.id)) :=
    hpassed.trans (spares_type s _ m.pid _)
  exact hentered.trans (lets_spares hsettle (hs.spares hentered))

/-- **The removal of a record** spares the PID files of running sessions. -/
theorem Sound.spares_drop (hs : Sound s h told) (hm : s.table.named? m.name = some m)
    (hend : m.isRunning = false) :
    Spares s h (h.withDisk ((s.dropped m.name).dropPidFile m h.storage.disk)) := by
  obtain ⟨hmem, -⟩ := Supervisor.named?_name hm
  have hother : ∀ d ∈ s.table, d.isRunning = true → d.session.inbox ≠ m.session.inbox := by
    intro d hd hrun heq
    obtain rfl := hs.tidy.unique hd hmem heq
    rw [hend] at hrun
    cases hrun
  unfold Supervisor.dropPidFile
  split
  · exact .refl s h
  · split
    · rename_i hr
      have hplace : (s.dropped m.name).pidPlace m.session = s.pidPlace m.session := rfl
      rw [hplace, hs.place hmem] at hr
      exact hs.spares_remove hother hr
    · exact .refl s h

/-! ## Changes of the table -/

theorem Sound.counters (hs : Sound s h told) (k : NameCounters) :
    Sound { s with counters := k } h told :=
  ⟨hs.tidy.sublist rfl (.refl _), hs.rooted, hs.writers, hs.files⟩

theorem Sound.tell {s' : Supervisor} (hgoes : h.Goes h') (hs : Sound s' h' told) :
    Sound s' h' (noted told h h') := by
  refine ⟨hs.tidy, hs.rooted, fun pid c' place hc' hlife htold => ?_, hs.files⟩
  obtain ⟨c, hc, -⟩ := hgoes pid c' hc'
  rw [noted, hc] at htold
  exact hs.writers pid c' place hc' hlife htold

theorem Sound.dropped (hs : Sound s h told) (hm : s.table.named? m.name = some m)
    (hend : m.isRunning = false) : Sound (s.dropped m.name) h told := by
  refine ⟨hs.tidy.sublist rfl List.filter_sublist, hs.rooted,
    fun pid c place hc hlife htold => ?_, fun d hd => hs.files d (List.mem_filter.mp hd).1⟩
  obtain ⟨owner, howner, hrun, hpid, hplace⟩ := hs.writers pid c place hc hlife htold
  exact ⟨owner, hs.tidy.mem_dropped hm hend howner hrun, hrun, hpid, hplace⟩

theorem Sound.drained (hs : Sound s h told) : Sound (s.drain h).1 (s.drain h).2 told := by
  have hstorage : (s.drain h).2.storage = h.storage := Supervisor.drainAll_storage s.table h
  have hshrinks : h.Shrinks (s.drain h).2 := (Supervisor.drainAll_looked s.table h).2
  refine ⟨hs.tidy.looked h, hs.rooted, fun pid c' place hc' hlife htold => ?_,
    fun m' hm' hrun' => ?_⟩
  · obtain ⟨c, hc, he⟩ := hshrinks pid c' hc'
    obtain ⟨m, hm, hrun, hpid, hplace⟩ :=
      hs.writers pid c place hc (he.trans hlife) htold
    obtain ⟨m', hm', hlooked⟩ := Scene.drain_mem s h hm
    cases hlooked with
    | ended he =>
      rw [he] at hrun
      cases hrun
    | running _ _ hs' hp' hr' => exact ⟨m', hm', hr', hp'.trans hpid, by rw [hs']; exact hplace⟩
    | reaped _ _ _ _ _ _ _ _ _ hgone =>
      -- a process that has been collected is not there any more
      rw [hpid, hc'] at hgone
      cases hgone
  · obtain ⟨m, hm, hlooked⟩ := Scene.mem_drain s h hm'
    have hfile : fileOf (s.drain h).1 (s.drain h).2 m'.session = fileOf s h m'.session := by
      rw [fileOf, hstorage]
      rfl
    rw [hfile]
    cases hlooked with
    | ended he =>
      rw [he] at hrun'
      cases hrun'
    | running _ hr hs' hp' _ =>
      rw [hs', hp']
      exact hs.files m hm hr
    | reaped _ _ _ _ _ _ he =>
      rw [Managed.isRunning, he] at hrun'
      cases hrun'

/-- **A session that has been started** has no PID file yet, and its process has been told to
    write that one. -/
theorem Sound.started (hs : Sound s h told) {p : Prepared} (hp : s.Planned p)
    (hnone : fileOf s h p.session = none) {k : NameCounters} {pid : UInt32}
    (hspawn : h.spawn s.dir p.argv p.size (p.session.exports s.state) = .ok (pid, h')) :
    Sound { s with counters := k, table := s.withStarted p pid } h' (noted told h h') := by
  have hstorage : h'.storage = h.storage := (Host.spawn_ok hspawn).2.1
  refine ⟨hs.tidy.started hp, hs.rooted, fun q c place hc hlife htold => ?_,
    fun m hm hrun => ?_⟩
  · have hchild := Host.child?_spawn hspawn q
    rw [hc] at hchild
    unfold noted at htold
    cases hq : h.child? q with
    | some c₀ =>
      -- a process that was there before, told what it was told before
      rw [hq, Option.some_or, Option.some.injEq] at hchild
      rw [hq] at htold
      rw [hchild] at hlife
      obtain ⟨m, hm, hrun, hpid, hplace⟩ := hs.writers q c₀ place hq hlife htold
      exact ⟨m, hs.tidy.mem_withStarted hp hm (hp.free m hm hrun), hrun, hpid, hplace⟩
    | none =>
      rw [hq, Option.none_or] at hchild
      rw [hq, hc] at htold
      split at hchild
      · rename_i hpid
        cases hchild
        exact ⟨_, Scene.mem_withStarted.mpr (.inl rfl), rfl, hpid, (Option.some.inj htold).symm⟩
      · cases hchild
  · show h'.storage.disk.seen (s.pidPlace m.session) = none ∨
      h'.storage.disk.seen (s.pidPlace m.session) = some (numberFile m.pid)
    rw [hstorage]
    rcases Scene.mem_withStarted.mp hm with rfl | ⟨hm, -⟩
    · exact .inl hnone
    · exact hs.files m hm hrun

/-! ## Runs -/

/-- What a step comes to: the invariant still holds, and what the process of a running session has
    written is still there. -/
structure Kept (x y : State) : Prop where
  sound : Sound y.supervisor y.host y.told
  written : ∀ m ∈ x.supervisor.table, m.isRunning = true →
    fileOf x.supervisor x.host m.session = some (numberFile m.pid) →
    fileOf y.supervisor y.host m.session = some (numberFile m.pid)

/-- What brings no new process leaves all as it was told. -/
theorem Spares.kept {s' : Supervisor} (hsp : Spares s h h') (hgoes : h'.Goes h'')
    (hstorage : h''.storage = h'.storage) (hdir : s'.dir = s.dir) (hs : Sound s' h'' told) :
    Kept ⟨s, h, told⟩ ⟨s', h'', noted told h h''⟩ :=
  ⟨hs.tell (hsp.goes.trans hgoes), fun _ => hsp.written hstorage hdir⟩

/-- A request keeps the invariant, and what has been written. -/
theorem Sound.handled (hs : Sound s h told) (draw : Draw) (r : Request)
    (hl : ∀ p ∈ pauses s draw h r, Relation.ReflTransGen (Lets s told) p.1 p.2) :
    Kept ⟨s, h, told⟩ ⟨(s.handle draw h r).2.1, (s.handle draw h r).2.2,
      noted told h (s.handle draw h r).2.2⟩ := by
  have hcases := s.handle_cases draw h r
  generalize s.handle draw h r = answered at hcases
  cases hcases with
  | unchanged => exact (Spares.refl s h).kept (.refl h) rfl rfl hs
  | refused w e k => exact (Spares.refl s h).kept (.refl h) rfl rfl (hs.counters k)
  | failed w e p k disk hp hd =>
    have hsp := (hs.spares_clear hp hd).1
    exact hsp.kept (.refl _) rfl rfl ((hs.spares hsp).counters k)
  | spawned w p k disk pid h' hp hd hspawn =>
    -- here a process is new, and the file that it was told has just been cleared
    obtain ⟨hsp, hnone⟩ := hs.spares_clear hp hd
    exact ⟨(hs.spares hsp).started hp hnone hspawn,
      fun _ => hsp.written (Host.spawn_ok hspawn).2.1 rfl⟩
  | checked m report hreport hm =>
    simp only [pauses, hm, hreport, List.forall_mem_singleton] at hl
    have hsp : Spares s h (s.waited h m) := lets_spares hl hs
    exact hsp.kept (Supervisor.drainAll_looked s.table (s.waited h m)).2.goes
      (Supervisor.drainAll_storage s.table (s.waited h m)) rfl (hs.spares hsp).drained
  | delivered m message id hm =>
    have hsp := hs.spares_inject hm hl
    exact hsp.kept (.refl _) rfl rfl (hs.spares hsp)
  | signalled m n h' hm hrun hsend =>
    have hsp := spares_send (s := s) hsend
    exact hsp.kept (.refl _) rfl rfl (hs.spares hsp)
  | removed m hm hend =>
    have hsp := hs.spares_drop hm hend
    exact hsp.kept (.refl _) rfl rfl ((hs.spares hsp).dropped hm hend)

variable {x y z : State} {e : Event} {es : List Event}

/-- **A step** keeps the invariant, and what has been written. -/
theorem Step.kept (hstep : Step x e y) (hs : Sound x.supervisor x.host x.told) : Kept x y := by
  cases hstep with
  | request s h told draw r hl => exact hs.handled draw r hl
  | starved s s' h h' told draw w p e hr =>
    have hready := s.ready_cases w draw h
    rw [hr] at hready
    cases hready with
    | cleared _ k disk hp hd =>
      have hsp := (hs.spares_clear hp hd).1
      exact ⟨(hs.spares hsp).counters k, fun _ => hsp.written rfl rfl⟩
  | look s h told =>
    have hstorage := Supervisor.drainAll_storage s.table h
    exact ⟨hs.drained, fun _ => (Spares.refl s h).written hstorage rfl⟩
  | world s h h' told hl =>
    have hsp := hl.spares hs
    exact ⟨hs.spares hsp, fun _ => hsp.written rfl rfl⟩

/-- A state that a supervisor may come to from its opening on, when no process had been started.
    Whatever then stood in the directory of PID files. -/
inductive Reachable (x : State) : Prop where
  | intro (config : Config) (state : StateDir) (dir : Place) (disk disk' : Disk) (s : Supervisor)
      (h : Host) (es : List Event)
      (hopen : Supervisor.openAt config state dir disk = .ok (s, disk'))
      (hnone : h.children = []) (hr : Runs Step ⟨s, h, fun _ => none⟩ es x)

theorem Reachable.step (hx : Reachable x) (hs : Step x e y) : Reachable y := by
  obtain ⟨config, state, dir, disk, disk', s, h, es, hopen, hnone, hr⟩ := hx
  exact .intro config state dir disk disk' s h (es ++ [e]) hopen hnone (hr.concat hs)

theorem openAt_rooted {config : Config} {state : StateDir} {dir : Place} {disk disk' : Disk}
    (hopen : Supervisor.openAt config state dir disk = .ok (s, disk')) :
    s.store.dir = Place.ofPath s.dir s.state.inboxDir := by
  unfold Supervisor.openAt InboxStore.openAt at hopen
  cases hdirs : disk.makeDirs (Place.ofPath dir state.inboxDir) with
  | error e =>
    rw [hdirs] at hopen
    cases hopen
  | ok made =>
    rw [hdirs] at hopen
    cases hopen
    rfl

/-- **The invariant holds in every reachable state.** -/
theorem Reachable.sound (hx : Reachable x) : Sound x.supervisor x.host x.told := by
  obtain ⟨config, state, dir, disk, disk', s, h, es, hopen, hnone, hr⟩ := hx
  have htable := Scene.openAt_table hopen
  have hstart : Sound s h fun _ => none := by
    refine ⟨.of_nil htable, openAt_rooted hopen, fun pid c place hc => ?_, fun m hm => ?_⟩
    · rw [Host.child?, hnone] at hc
      cases hc
    · rw [htable] at hm
      cases hm
  exact hr.invariant (P := fun x => Sound x.supervisor x.host x.told)
    (fun _ _ _ hstep hx => (hstep.kept hx).sound) hstart

/-- A step before which the session of a record is running. -/
def Beside (m : Managed) (x : State) (e : Event) (y : State) : Prop :=
  Scene.Running m x.scene ∧ Step x e y

/-- **What a process has written stays** while its session is running. -/
theorem runs_written (hr : Runs (Beside m) x es y) (hx : Reachable x)
    (hw : fileOf x.supervisor x.host m.session = some (numberFile m.pid)) :
    fileOf y.supervisor y.host m.session = some (numberFile m.pid) := by
  have hboth := hr.invariant
    (P := fun z => Reachable z ∧
      fileOf z.supervisor z.host m.session = some (numberFile m.pid)) ?_ ⟨hx, hw⟩
  · exact hboth.2
  · intro x e y ⟨⟨m', hm', hsession, hpid, hrun'⟩, hstep⟩ ⟨hx, hw⟩
    refine ⟨hx.step hstep, ?_⟩
    rw [← hsession, ← hpid] at hw ⊢
    exact (hstep.kept hx.sound).written m' hm' hrun' hw

/-! ## What is read -/

/-- **A look at the PID file of a running session** finds no number but its own. -/
theorem Sound.ofFile (hs : Sound s h told) (hm : m ∈ s.table) (hrun : m.isRunning = true)
    {q : UInt32} (hq : PidRead.ofFile h.storage.disk (s.pidPlace m.session) = .ok (.found q)) :
    q = m.pid := by
  rcases hs.files m hm hrun with hfile | hfile
  · exact absurd hq (PidRead.ofFile_of_none hfile q)
  · rw [PidRead.ofFile_of_seen hfile] at hq
    exact PidRead.eq_of_ofText_textOf (Except.ok.inj hq)

/-- **PID files of running sessions.** The file holds the number of the session's own process or
    is not there; once the process has written it, it stays as long as the session is running; and
    a check that finds a number, whatever happens between its looks, finds that one. -/
theorem reachable_pid_files (hx : Reachable x) (hm : m ∈ x.supervisor.table)
    (hrun : m.isRunning = true) :
    (fileOf x.supervisor x.host m.session = none ∨
      fileOf x.supervisor x.host m.session = some (numberFile m.pid)) ∧
    (fileOf x.supervisor x.host m.session = some (numberFile m.pid) →
      ∀ es y, Runs (Beside m) x es y →
        fileOf y.supervisor y.host m.session = some (numberFile m.pid)) ∧
    (∀ policy q a, x.supervisor.health x.host m.session policy = .ok ⟨.alive q, a⟩ → q = m.pid) ∧
    ∀ (read : Nat → Except IoError PidRead) policy q,
      (∀ k, ∃ z, Reachable z ∧ Scene.Running m z.scene ∧
        read k = PidRead.ofFile z.host.storage.disk (z.supervisor.pidPlace m.session)) →
      (Health.looks read policy).ending = .pid q → q = m.pid := by
  have hs := hx.sound
  refine ⟨hs.files m hm hrun, fun hw es y hr => runs_written hr hx hw, fun policy q a ha => ?_,
    fun read policy q hread hq => ?_⟩
  · obtain ⟨k, hk⟩ := Health.looks_found (Health.reportOf_alive ha)
    exact hs.ofFile hm hrun hk
  · obtain ⟨k, hk⟩ := Health.looks_found hq
    obtain ⟨z, hz, ⟨m', hm', hsession, hpid, hrun'⟩, hlook⟩ := hread k
    rw [hlook, ← hsession] at hk
    rw [← hpid]
    exact hz.sound.ofFile hm' hrun' hk

/-- A host with the directories of a supervisor. -/
def furnished : Host :=
  { storage := { now := 0, disk :=
      ⟨[(["s"], .directory), (["s", "pids"], .directory), (["s", "inbox"], .directory)]⟩ } }

/-- A session is started on it. -/
def begun : Response × Scene := Scene.bare.handle ⟨⟨"m"⟩, fun _ => ""⟩ furnished Scene.wanted

/-- A request for a session that would have the same inbox. -/
def twin : Request := .spawn { name := some "a/b", agent := some "claude" }

/-- The request for a session leads on. -/
theorem Reachable.spawn (hx : Reachable ⟨s, h, told⟩) {draw : Draw} {w : SpawnRequest}
    {answered : Response × Scene} (ha : s.handle draw h (.spawn w) = answered) :
    Reachable ⟨answered.2.1, answered.2.2, noted told h answered.2.2⟩ := by
  rw [← ha]
  exact hx.step (.request s h told draw (.spawn w) fun p hp => by cases hp)

/-- The disk when its process has written its number. -/
def numbered : Disk :=
  ⟨(["s", "pids", "a-b.pid"], numberFile 4000) :: furnished.storage.disk.entries⟩

/-- The process of a session has written its number. A second session for the same inbox, whether
    it is refused or not, leaves the file as it is. -/
theorem reachable_pid_files_twin :
    ∃ (x y : State) (m : Managed) (a : Response), Reachable x ∧ m ∈ x.supervisor.table ∧
      m.isRunning = true ∧ fileOf x.supervisor x.host m.session = some (numberFile m.pid) ∧
      Step x (.request twin a) y ∧
      fileOf y.supervisor y.host m.session = some (numberFile m.pid) := by
  have hstart : Reachable ⟨Scene.bare, furnished, fun _ => none⟩ :=
    .intro _ _ _ _ _ _ _ [] Scene.openAt_bare rfl (.nil _)
  have hanswer : Scene.bare.handle ⟨⟨"m"⟩, fun _ => ""⟩ furnished Scene.wanted = begun := rfl
  have hbegun := hstart.spawn hanswer
  have hlife : (begun.2.2.child? 4000).map Child.ended = some none := by decide +kernel
  have htold : noted (fun _ => none) furnished begun.2.2 4000 =
      some ["s", "pids", "a-b.pid"] := by decide +kernel
  have hdisk : begun.2.2.storage.disk = furnished.storage.disk := by decide +kernel
  have hw : furnished.storage.disk.write ["s", "pids", "a-b.pid"]
      (Utf8.encodeChars (PidRead.textOf 4000)) = .ok numbered := by decide +kernel
  obtain ⟨m, hm, hrun, hpid, hplace⟩ : ∃ m ∈ begun.2.1.table, m.isRunning = true ∧
      m.pid = 4000 ∧ begun.2.1.pidPlace m.session = ["s", "pids", "a-b.pid"] := by decide +kernel
  have hseen : numbered.seen ["s", "pids", "a-b.pid"] = some (numberFile 4000) := by
    decide +kernel
  -- from here on the scene is any scene of which these facts hold
  generalize noted (fun _ => none) furnished begun.2.2 = told at hbegun htold
  generalize begun.2.2 = h at hbegun hlife hdisk
  generalize begun.2.1 = s at hbegun hm hplace
  obtain ⟨c, hc, hlife⟩ := Option.map_eq_some_iff.mp hlife
  rw [← hdisk] at hw
  have hx := hbegun.step (.world s h _ told (.write 4000 c _ numbered hc hlife htold hw))
  have hfile : fileOf s (h.withDisk numbered) m.session = some (numberFile m.pid) := by
    rw [fileOf, hplace, hpid]
    exact hseen
  have hstep := Step.request s (h.withDisk numbered) told ⟨⟨"n"⟩, fun _ => ""⟩ twin
    fun p hp => by cases hp
  have hbeside : Beside m ⟨s, h.withDisk numbered, told⟩ _ _ :=
    ⟨⟨m, hm, rfl, rfl, hrun⟩, hstep⟩
  have hruns := Runs.cons hbeside (.nil _)
  exact ⟨_, _, m, _, hx, hm, hrun, hfile, hstep,
    (reachable_pid_files hx hm hrun).2.1 hfile _ _ hruns⟩

end PidFiles

end AgentSupervisor
