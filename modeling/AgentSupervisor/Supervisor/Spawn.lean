import AgentSupervisor.Supervisor.Basic

/-!
# Starting sessions

A session is started in two parts. First everything is checked and nothing is changed: the
agent, the name, the plan and the inbox, which no running session may use already. Then the PID
file that an earlier session may have left is removed, because it would look like a crash, and
the process is started; the records of ended sessions that used the name or the inbox go only
when that has worked.

* `prepare` : the checks;
* `spawn`   : a whole request.
-/

namespace AgentSupervisor

/-- A session that may be started. -/
structure Prepared where
  session : Session
  argv : List String
  size : WindowSize

namespace Supervisor

/-- The agent that is wanted, or the configured one. -/
def agentFor (s : Supervisor) (w : SpawnRequest) : Except RequestError Agent :=
  match w.agent <|> s.config.agent.default with
  | none => .error .noAgent
  | some name =>
    match Agent.resolve? name with
    | some a => .ok a
    | none => .error (.unknownAgent name)

/-- The name that is wanted, without the blanks around it, or a proposed one. The name of a
    session that has ended may be used again. -/
def nameFor (s : Supervisor) (w : SpawnRequest) (draw : Draw) :
    Except RequestError (String × NameCounters) :=
  match w.name with
  | none => .ok (s.counters.pick s.table.isTaken draw.names (s.table.length + 1) 0)
  | some given =>
    let name := Text.trim given
    if name.isEmpty then .error .emptyName
    else if (s.table.named? name).any Managed.isRunning then .error (.nameInUse name)
    else .ok (name, s.counters)

/-- The session of a name, unless its inbox is in use. -/
def prepare (s : Supervisor) (w : SpawnRequest) (agent : Agent) (name : String) (now : Nat) :
    Except RequestError Prepared :=
  let plan := LaunchPlan.make agent w.command s.config.agent w.args
  match Session.make name agent w.mode plan s.state (UInt64.ofNat now) with
  | .error e => .error (.session e)
  | .ok session =>
    match s.table.runningWith? session.inbox with
    | some other => .error (.sameInbox name other.name)
    | none => .ok ⟨session, plan.argv, { rows := w.rows, cols := w.cols }⟩

/-- The disk without the PID file that an earlier session may have left. -/
def clearPidFile (s : Supervisor) (session : Session) (disk : Disk) : Except RequestError Disk :=
  match disk.remove (s.pidPlace session) with
  | .ok disk => .ok disk
  | .error .notFound => .ok disk
  | .error e => .error (.stalePidFile e)

/-- Start the process of a session, on a host without a stale PID file. -/
def start (s : Supervisor) (p : Prepared) (h : Host) :
    Except RequestError (UInt32 × Supervisor × Host) :=
  match h.spawn s.dir p.argv p.size (p.session.exports s.state) with
  | .error e => .error (.spawn e)
  | .ok (pid, h) =>
    let table := (s.table.withoutReplaced p.session).insert { session := p.session, pid }
    .ok (pid, { s with table }, h)

/-- The response to a spawn that has worked. -/
def spawnedResponse (session : Session) (pid : UInt32) : Response :=
  .spawned session.name pid session.agent.name session.mode

/-- Start a session. -/
def spawn (s : Supervisor) (w : SpawnRequest) (draw : Draw) (h : Host) :
    Response × Supervisor × Host :=
  let refuse (e : RequestError) (s : Supervisor) (h : Host) : Response × Supervisor × Host :=
    (.error e.message, s, h)
  match s.agentFor w with
  | .error e => refuse e s h
  | .ok agent =>
    match s.nameFor w draw with
    | .error e => refuse e s h
    | .ok (name, counters) =>
      let s := { s with counters }
      match s.prepare w agent name h.storage.now with
      | .error e => refuse e s h
      | .ok p =>
        match s.clearPidFile p.session h.storage.disk with
        | .error e => refuse e s h
        | .ok disk =>
          let h := { h with storage := { h.storage with disk } }
          match s.start p h with
          | .error e => refuse e s h
          | .ok (pid, s, h) => (spawnedResponse p.session pid, s, h)

end Supervisor

end AgentSupervisor
