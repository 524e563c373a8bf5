import AgentSupervisor.Delivery.Router
import AgentSupervisor.Supervisor.Spawn

/-!
# Requests to the supervisor

What each request leads to: a response, and the supervisor and its host afterwards. A request
that is refused is answered with an error.

* `handle` : one request.
-/

namespace AgentSupervisor.Supervisor

/-- A refusal, by which nothing changes. -/
def refuse (s : Supervisor) (h : Host) (e : RequestError) : Response × Supervisor × Host :=
  (.error e.message, s, h)

/-! ## Looking -/

/-- One row of the list of sessions. A check that fails leaves the health unknown. -/
def info (s : Supervisor) (h : Host) (m : Managed) : SessionInfo :=
  let health := match s.health h m.session .single with
    | .ok report => settledHealth report.health m.exitCode
    | .error _ => .unknown
  { name := m.name, agent := m.session.agent.name, mode := m.session.mode, pid := m.pid
    state := m.state, health, command := m.session.command, inbox := m.session.inbox
    startedAt := m.session.startedAt, exitCode := m.exitCode }

/-- All sessions by name. -/
def list (s : Supervisor) (h : Host) : Response := .sessions (s.table.sorted.map (s.info h))

/-- The exit code that is on record under a name. -/
def exitCodeOf (s : Supervisor) (name : String) : Option Int32 :=
  (s.table.named? name).bind Managed.exitCode

/-- The answer to a status request, from the report of the check that it began with. The exit
    code is looked up when the check is over. -/
def statusAnswer (s : Supervisor) (name : String) (report : Report) : Response :=
  let exitCode := s.exitCodeOf name
  .status name (settledHealth report.health exitCode) report.attempts exitCode

/-- The status of a session. Time passes while its PID file is looked at. -/
def status (s : Supervisor) (name : String) (h : Host) : Response × Supervisor × Host :=
  match s.record name with
  | .error e => s.refuse h e
  | .ok m =>
    let policy := s.config.retryPolicy
    match s.health h m.session policy with
    | .error e => s.refuse h (.health e)
    | .ok report =>
      let (s, h) := s.drain (h.pass (s.looks h m.session policy).slept)
      (s.statusAnswer name report, s, h)

/-- The last lines of a session's output. -/
def tail (s : Supervisor) (name : String) (lines : UInt64) (h : Host) :
    Response × Supervisor × Host :=
  match s.record name with
  | .error e => s.refuse h e
  | .ok m => (.output (m.transcript.tail lines.toNat), s, h)

/-! ## Acting -/

/-- The terminal that messages for a session are typed into. -/
def terminalOf (m : Managed) : Option Terminal :=
  match m.session.mode with
  | .terminal => some []
  | .inbox => none

/-- Deliver a message to a session. The Enter key comes last, after the pause. -/
def inject (s : Supervisor) (name message : String) (id : MessageId) (h : Host) :
    Response × Supervisor × Host :=
  match s.record name with
  | .error e => s.refuse h e
  | .ok m =>
    let health := s.health h m.session s.config.retryPolicy
    let d := Router.deliver s.store Terminal.settleDelay m.session message id (some health)
      (terminalOf m) h.storage
    let h := { h with storage := d.storage }.type m.pid d.typed.dropLast
    let h := (h.pass d.slept).type m.pid d.typed.getLast?.toList
    (.receipt d.receipt, s, h.settle)

/-- Send a signal to the number of a session's process, unless its exit code is on record. -/
def kill (s : Supervisor) (name : String) (signal : Int32) (h : Host) :
    Response × Supervisor × Host :=
  if Signal.isValid signal then
    match s.record name with
    | .error e => s.refuse h e
    | .ok m =>
      if m.isRunning then
        match h.send m.pid signal with
        | .error e => s.refuse h (.signal name e)
        | .ok h => (.ok, s, h)
      else (.ok, s, h)
  else s.refuse h (.badSignal signal)

/-- The disk without the PID file of a record that has been dropped, unless another record uses
    it. A file that cannot be removed stays. -/
def dropPidFile (s : Supervisor) (m : Managed) (disk : Disk) : Disk :=
  if s.table.usesPidFile m.session.pidFile then disk
  else match disk.remove (s.pidPlace m.session) with
    | .ok disk => disk
    | .error _ => disk

/-- Drop the record of a session that has ended. -/
def remove (s : Supervisor) (name : String) (h : Host) : Response × Supervisor × Host :=
  match s.record name with
  | .error e => s.refuse h e
  | .ok m =>
    if m.isRunning then s.refuse h (.stillRunning name)
    else
      let s := { s with table := s.table.without name }
      (.ok, s, { h with storage := { h.storage with disk := s.dropPidFile m h.storage.disk } })

/-! ## Requests -/

/-- One request. -/
def handle (s : Supervisor) (draw : Draw) (h : Host) : Request → Response × Supervisor × Host
  | .ping => (.pong, s, h)
  | .spawn w => s.spawn w draw h
  | .list => (s.list h, s, h)
  | .status name => s.status name h
  | .inject name message id => s.inject name message (id.getD draw.id) h
  | .kill name signal => s.kill name signal h
  | .tail name lines => s.tail name lines h
  | .remove name => s.remove name h
  | .shutdown => (.ok, s, h)

end AgentSupervisor.Supervisor
