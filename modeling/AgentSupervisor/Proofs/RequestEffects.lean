import AgentSupervisor.Supervisor.Requests

/-!
# What requests do

Every way a request can end, with the supervisor and the host afterwards.

* `spawn_eq`      : starting a session is getting ready and then starting its process;
* `ready_cases`   : what getting ready leaves behind;
* `handle_cases`  : what a request leaves behind.
-/

namespace AgentSupervisor

/-- The host with another disk. -/
def Host.withDisk (h : Host) (disk : Disk) : Host := { h with storage := { h.storage with disk } }

namespace Supervisor

variable {s : Supervisor} {h : Host} {w : SpawnRequest} {draw : Draw}

/-! ## Getting ready for a session -/

/-- A session that fits into the table: its files are those of its name, and no running session
    uses its inbox. -/
structure Planned (s : Supervisor) (p : Prepared) : Prop where
  inbox : p.session.inbox = InboxId.ofName p.session.name
  pidFile : p.session.pidFile = s.state.pidFile p.session.inbox
  free : ∀ m ∈ s.table, m.isRunning = true → m.session.inbox ≠ p.session.inbox

theorem make_ok {name : String} {agent : Agent} {mode : DeliveryMode} {plan : LaunchPlan}
    {dir : StateDir} {now : UInt64} {session : Session}
    (hm : Session.make name agent mode plan dir now = .ok session) :
    ∃ patterns, session =
      { name, agent, mode, patterns
        command := plan.command
        pidFile := dir.pidFile (InboxId.ofName name)
        inbox := InboxId.ofName name
        startedAt := now } := by
  unfold Session.make at hm
  split at hm
  · cases hm
  · split at hm
    · cases hm
    · simp only [Except.ok.injEq] at hm
      exact ⟨_, hm.symm⟩

theorem make_files {name : String} {agent : Agent} {mode : DeliveryMode} {plan : LaunchPlan}
    {dir : StateDir} {now : UInt64} {session : Session}
    (hm : Session.make name agent mode plan dir now = .ok session) :
    session.inbox = InboxId.ofName session.name ∧
      session.pidFile = dir.pidFile session.inbox := by
  obtain ⟨patterns, rfl⟩ := make_ok hm
  exact ⟨rfl, by simp only⟩

theorem runningWith?_eq_none {t : SessionTable} {inbox : InboxId}
    (hn : t.runningWith? inbox = none) {m : Managed} (hm : m ∈ t) (hrun : m.isRunning = true) :
    m.session.inbox ≠ inbox := by
  intro heq
  have hsorted : m ∈ t.sorted := (List.mergeSort_perm t _).mem_iff.mpr hm
  have := List.find?_eq_none.mp hn m hsorted
  simp [hrun, heq] at this

/-- What a session that may be started is made of. -/
theorem prepare_ok {agent : Agent} {name : String} {now : Nat} {p : Prepared}
    (hp : s.prepare w agent name now = .ok p) :
    ∃ session, Session.make name agent w.mode
        (LaunchPlan.make agent w.command s.config.agent w.args) s.state (UInt64.ofNat now) =
          .ok session ∧
      s.table.runningWith? session.inbox = none ∧
      p = ⟨session, (LaunchPlan.make agent w.command s.config.agent w.args).argv,
        { rows := w.rows, cols := w.cols }⟩ := by
  unfold prepare at hp
  simp only at hp
  split at hp
  · cases hp
  · rename_i session hmake
    split at hp
    · cases hp
    · rename_i hnone
      cases hp
      exact ⟨session, hmake, hnone, rfl⟩

theorem prepare_planned {agent : Agent} {name : String} {now : Nat} {p : Prepared}
    (hp : s.prepare w agent name now = .ok p) : s.Planned p := by
  obtain ⟨session, hmake, hnone, rfl⟩ := prepare_ok hp
  obtain ⟨hinbox, hpid⟩ := make_files hmake
  exact ⟨hinbox, hpid, fun m hm hrun => runningWith?_eq_none hnone hm hrun⟩

/-- All that comes before the process of a session is started: the checks, and then the PID file
    that an earlier session may have left is removed. -/
def ready (s : Supervisor) (w : SpawnRequest) (draw : Draw) (h : Host) :
    Except RequestError Prepared × Supervisor × Host :=
  match s.agentFor w with
  | .error e => (.error e, s, h)
  | .ok agent =>
    match s.nameFor w draw with
    | .error e => (.error e, s, h)
    | .ok (name, counters) =>
      let s := { s with counters }
      match s.prepare w agent name h.storage.now with
      | .error e => (.error e, s, h)
      | .ok p =>
        match s.clearPidFile p.session h.storage.disk with
        | .error e => (.error e, s, h)
        | .ok disk => (.ok p, s, h.withDisk disk)

/-- Where all is ready, an agent and a name were found. -/
theorem ready_ok {p : Prepared} {s' : Supervisor} {h' : Host}
    (hr : s.ready w draw h = (.ok p, s', h')) :
    ∃ agent name k, s.agentFor w = .ok agent ∧ s.nameFor w draw = .ok (name, k) ∧
      ({ s with counters := k } : Supervisor).prepare w agent name h.storage.now = .ok p := by
  unfold ready at hr
  split at hr
  · cases hr
  · rename_i agent hagent
    split at hr
    · cases hr
    · rename_i name k hname
      simp only at hr
      split at hr
      · cases hr
      · rename_i p' hprepare
        split at hr
        · cases hr
        · cases hr
          exact ⟨agent, name, k, hagent, hname, hprepare⟩

/-- **Starting a session** is getting ready and then starting its process. -/
theorem spawn_eq (s : Supervisor) (w : SpawnRequest) (draw : Draw) (h : Host) :
    s.spawn w draw h =
      match s.ready w draw h with
      | (.error e, s, h) => (.error e.message, s, h)
      | (.ok p, s, h) =>
        match s.start p h with
        | .error e => (.error e.message, s, h)
        | .ok (pid, s, h) => (spawnedResponse p.session pid, s, h) := by
  unfold spawn ready
  cases s.agentFor w with
  | error e => rfl
  | ok agent =>
    simp only
    cases s.nameFor w draw with
    | error e => rfl
    | ok named =>
      obtain ⟨name, counters⟩ := named
      simp only
      cases ({ s with counters } : Supervisor).prepare w agent name h.storage.now with
      | error e => rfl
      | ok p =>
        simp only
        cases ({ s with counters } : Supervisor).clearPidFile p.session h.storage.disk with
        | error e => rfl
        | ok disk =>
          cases hs : ({ s with counters } : Supervisor).start p
              { h with storage := { h.storage with disk } } with
          | error e => simp only [Host.withDisk, hs]
          | ok r => simp only [Host.withDisk, hs]

/-- What getting ready leaves behind. -/
inductive Readied (s : Supervisor) (h : Host) :
    Except RequestError Prepared × Supervisor × Host → Prop where
  | refused (e : RequestError) (k : NameCounters) :
      Readied s h (.error e, { s with counters := k }, h)
  | cleared (p : Prepared) (k : NameCounters) (disk : Disk) (hp : s.Planned p)
      (hd : s.clearPidFile p.session h.storage.disk = .ok disk) :
      Readied s h (.ok p, { s with counters := k }, h.withDisk disk)

/-- **What getting ready leaves behind.** -/
theorem ready_cases (s : Supervisor) (w : SpawnRequest) (draw : Draw) (h : Host) :
    Readied s h (s.ready w draw h) := by
  unfold ready
  cases s.agentFor w with
  | error e => exact .refused e s.counters
  | ok agent =>
    simp only
    cases s.nameFor w draw with
    | error e => exact .refused e s.counters
    | ok named =>
      obtain ⟨name, counters⟩ := named
      simp only
      cases hp : ({ s with counters } : Supervisor).prepare w agent name h.storage.now with
      | error e => exact .refused e counters
      | ok p =>
        simp only
        cases hd : ({ s with counters } : Supervisor).clearPidFile p.session h.storage.disk with
        | error e => exact .refused e counters
        | ok disk =>
          have hplan := prepare_planned hp
          exact .cleared p counters disk ⟨hplan.inbox, hplan.pidFile, hplan.free⟩ hd

/-! ## Requests -/

/-- The table after the process of a session has been started. -/
def withStarted (s : Supervisor) (p : Prepared) (pid : UInt32) : SessionTable :=
  (s.table.withoutReplaced p.session).insert { session := p.session, pid }

/-- The supervisor without the record of a name. -/
def dropped (s : Supervisor) (name : String) : Supervisor :=
  { s with table := s.table.without name }

/-- The delivery of a message to a session. -/
def delivery (s : Supervisor) (h : Host) (m : Managed) (message : String) (id : MessageId) :
    Router.Delivery :=
  Router.deliver s.store Terminal.settleDelay m.session message id
    (some (s.health h m.session s.config.retryPolicy)) (terminalOf m) h.storage

/-- The host when all keys of a delivery but the last have been typed. -/
def typed (s : Supervisor) (h : Host) (m : Managed) (message : String) (id : MessageId) : Host :=
  { h with storage := (s.delivery h m message id).storage }.type m.pid
    (s.delivery h m message id).typed.dropLast

/-- The host when, after a pause, the last key has been typed as well. -/
def entered (s : Supervisor) (h : Host) (m : Managed) (message : String) (id : MessageId) :
    Host :=
  ((s.typed h m message id).pass (s.delivery h m message id).slept).type m.pid
    (s.delivery h m message id).typed.getLast?.toList

/-- The host when the looks of a status request are over. -/
def waited (s : Supervisor) (h : Host) (m : Managed) : Host :=
  h.pass (s.looks h m.session s.config.retryPolicy).slept

/-- What a request leaves behind, with its answer. -/
inductive Handled (s : Supervisor) (draw : Draw) (h : Host) :
    Request → Response × Supervisor × Host → Prop where
  /-- nothing has changed -/
  | unchanged (r : Request) (a : Response)
      (ha : ∀ name pid agent mode, a ≠ .spawned name pid agent mode) : Handled s draw h r (a, s, h)
  /-- a session is refused before its process is to be started -/
  | refused (w : SpawnRequest) (e : String) (k : NameCounters) :
      Handled s draw h (.spawn w) (.error e, { s with counters := k }, h)
  /-- the process of a session cannot be started -/
  | failed (w : SpawnRequest) (e : String) (p : Prepared) (k : NameCounters) (disk : Disk)
      (hp : s.Planned p) (hd : s.clearPidFile p.session h.storage.disk = .ok disk) :
      Handled s draw h (.spawn w) (.error e, { s with counters := k }, h.withDisk disk)
  | spawned (w : SpawnRequest) (p : Prepared) (k : NameCounters) (disk : Disk) (pid : UInt32)
      (h' : Host) (hp : s.Planned p) (hd : s.clearPidFile p.session h.storage.disk = .ok disk)
      (hs : (h.withDisk disk).spawn s.dir p.argv p.size (p.session.exports s.state) =
        .ok (pid, h')) :
      Handled s draw h (.spawn w)
        (spawnedResponse p.session pid,
          { s with counters := k, table := s.withStarted p pid }, h')
  /-- a session has been looked at for some time, and then the processes -/
  | checked (m : Managed) (report : Report)
      (hreport : s.health h m.session s.config.retryPolicy = .ok report)
      (hm : s.table.named? m.name = some m) :
      Handled s draw h (.status m.name)
        ((s.drain (s.waited h m)).1.statusAnswer m.name report, s.drain (s.waited h m))
  /-- a message has been delivered -/
  | delivered (m : Managed) (message : String) (id : Option MessageId)
      (hm : s.table.named? m.name = some m) :
      Handled s draw h (.inject m.name message id)
        (.receipt (s.delivery h m message (id.getD draw.id)).receipt, s,
          (s.entered h m message (id.getD draw.id)).settle)
  | signalled (m : Managed) (n : Int32) (h' : Host) (hm : s.table.named? m.name = some m)
      (hrun : m.isRunning = true) (hs : h.send m.pid n = .ok h') :
      Handled s draw h (.kill m.name n) (.ok, s, h')
  | removed (m : Managed) (hm : s.table.named? m.name = some m) (hend : m.isRunning = false) :
      Handled s draw h (.remove m.name)
        (.ok, s.dropped m.name,
          h.withDisk ((s.dropped m.name).dropPidFile m h.storage.disk))

theorem named?_name {t : SessionTable} {name : String} {m : Managed}
    (hm : t.named? name = some m) : m ∈ t ∧ m.name = name := by
  have hname := List.find?_some hm
  exact ⟨List.mem_of_find?_eq_some hm, by simpa using hname⟩

theorem record_cases (s : Supervisor) (name : String) :
    s.record name = .error (.notFound name) ∨
      ∃ m, s.record name = .ok m ∧ s.table.named? m.name = some m ∧ m.name = name := by
  unfold record
  cases hm : s.table.named? name with
  | none => exact .inl rfl
  | some m =>
    have hname := (named?_name hm).2
    exact .inr ⟨m, rfl, by rw [hname]; exact hm, hname⟩

/-- A name that is not found is the name of no record. -/
theorem record_unknown {name : String} {e : RequestError} (he : s.record name = .error e) :
    e = .notFound name ∧ ∀ m ∈ s.table, m.name ≠ name := by
  unfold record at he
  cases hm : s.table.named? name with
  | none =>
    rw [hm] at he
    cases he
    refine ⟨rfl, fun m hmem hname => ?_⟩
    have hnot := List.find?_eq_none.mp hm m hmem
    simp [hname] at hnot
  | some m =>
    rw [hm] at he
    cases he

theorem Handled.refusal (r : Request) (e : RequestError) : Handled s draw h r (s.refuse h e) :=
  .unchanged r _ fun _ _ _ _ hne => by cases hne

theorem spawn_handled (s : Supervisor) (w : SpawnRequest) (draw : Draw) (h : Host) :
    Handled s draw h (.spawn w) (s.spawn w draw h) := by
  rw [spawn_eq]
  have hready := ready_cases s w draw h
  generalize s.ready w draw h = r at hready
  cases hready with
  | refused e k => exact .refused w e.message k
  | cleared p k disk hp hd =>
    simp only [start]
    cases hs : (h.withDisk disk).spawn s.dir p.argv p.size (p.session.exports s.state) with
    | error e => exact .failed w _ p k disk hp hd
    | ok started => exact .spawned w p k disk started.1 started.2 hp hd hs

theorem status_handled (s : Supervisor) (draw : Draw) (name : String) (h : Host) :
    Handled s draw h (.status name) (s.status name h) := by
  unfold status
  rcases record_cases s name with hnone | ⟨m, hm, hnamed, rfl⟩
  · rw [hnone]
    exact .refusal _ _
  · rw [hm]
    simp only
    cases hreport : s.health h m.session s.config.retryPolicy with
    | error e => exact .refusal _ _
    | ok report => exact .checked m report hreport hnamed

theorem inject_handled (s : Supervisor) (name message : String) (id : Option MessageId)
    (draw : Draw) (h : Host) :
    Handled s draw h (.inject name message id) (s.inject name message (id.getD draw.id) h) := by
  unfold inject
  rcases record_cases s name with hnone | ⟨m, hm, hnamed, rfl⟩
  · rw [hnone]
    exact .refusal _ _
  · rw [hm]
    exact .delivered m message id hnamed

theorem kill_handled (s : Supervisor) (draw : Draw) (name : String) (n : Int32) (h : Host) :
    Handled s draw h (.kill name n) (s.kill name n h) := by
  unfold kill
  split
  · rcases record_cases s name with hnone | ⟨m, hm, hnamed, rfl⟩
    · rw [hnone]
      exact .refusal _ _
    · rw [hm]
      simp only
      split
      · rename_i hrun
        cases hs : h.send m.pid n with
        | error e => exact .refusal _ _
        | ok h' => exact .signalled m n h' hnamed hrun hs
      · exact .unchanged _ _ fun _ _ _ _ hne => by cases hne
  · exact .refusal _ _

theorem remove_handled (s : Supervisor) (draw : Draw) (name : String) (h : Host) :
    Handled s draw h (.remove name) (s.remove name h) := by
  unfold remove
  rcases record_cases s name with hnone | ⟨m, hm, hnamed, rfl⟩
  · rw [hnone]
    exact .refusal _ _
  · rw [hm]
    simp only
    split
    · exact .refusal _ _
    · exact .removed m hnamed (Bool.eq_false_iff.mpr ‹_›)

/-- **What a request leaves behind.** -/
theorem handle_cases (s : Supervisor) (draw : Draw) (h : Host) (r : Request) :
    Handled s draw h r (s.handle draw h r) := by
  cases r with
  | ping => exact .unchanged _ _ fun _ _ _ _ hne => by cases hne
  | spawn w => exact spawn_handled s w draw h
  | list => exact .unchanged _ _ fun _ _ _ _ hne => by cases hne
  | status name => exact status_handled s draw name h
  | inject name message id => exact inject_handled s name message id draw h
  | kill name n => exact kill_handled s draw name n h
  | tail name lines =>
    show Handled s draw h _ (s.tail name lines h)
    unfold tail
    rcases record_cases s name with hnone | ⟨m, hm, -, -⟩
    · rw [hnone]
      exact .refusal _ _
    · rw [hm]
      exact .unchanged _ _ fun _ _ _ _ hne => by cases hne
  | remove name => exact remove_handled s draw name h
  | shutdown => exact .unchanged _ _ fun _ _ _ _ hne => by cases hne

end Supervisor

end AgentSupervisor
