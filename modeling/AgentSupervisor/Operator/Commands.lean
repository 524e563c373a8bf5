import AgentSupervisor.CommandLine.Invocation
import AgentSupervisor.Config.Printed
import AgentSupervisor.Operator.Doctor

/-!
# Commands of the operator

What each command of the command line does: it prints something, or fails with a complaint. A
command line that breaks the grammar ends with its own status.

* `Operator.run` : a whole command line.
-/

namespace AgentSupervisor

/-- Why a command fails. -/
inductive OperatorError where
  | config (e : ConfigError)
  | inbox (e : InboxError)
  | client (e : ClientError)
  | supervisor (e : OpenError)
  /-- the supervisor has refused the request -/
  | refused (message : String)
  | undelivered (session reason : String)
  /-- the answer belongs to another request -/
  | unexpected
  /-- the self-check has found something wrong -/
  | unhealthy
  deriving Repr, DecidableEq

/-- What the operator is told. -/
def OperatorError.message : OperatorError → String
  | .config e => e.message
  | .inbox e => e.message
  | .client e => e.message
  | .supervisor e => e.message
  | .refused message => message
  | .undelivered session reason => "delivery to " ++ session ++ " failed: " ++ reason
  | .unexpected => "unexpected response"
  | .unhealthy => "Some checks failed"

/-- How a command ends: what it has printed, and why it failed if it did. -/
structure CommandResult where
  output : String := ""
  failure : Option OperatorError := none
  deriving Repr, DecidableEq

namespace Operator

/-! ## Inboxes -/

/-- Print something, or fail. -/
def printed : Except OperatorError String → CommandResult
  | .ok output => { output }
  | .error e => { failure := some e }

/-- Prune inboxes one after another, and count what is dropped. -/
def pruneAll (store : InboxStore) (age : UInt64) :
    List InboxId → Storage → Except InboxError Nat × Storage
  | [], st => (.ok 0, st)
  | i :: is, st =>
    match store.prune i age st with
    | (.error e, st) => (.error e, st)
    | (.ok n, st) =>
      let (rest, st) := pruneAll store age is st
      (rest.map (n + ·), st)

/-- Prune one inbox or all. -/
def prune (store : InboxStore) (inbox : Option String) (age : UInt64) (st : Storage) :
    Except OperatorError String × Storage :=
  let inboxes : Except IoError (List InboxId) := match inbox with
    | some name => .ok [InboxId.ofName name]
    | none => store.list st.disk
  match inboxes with
  | .error e => (.error (.inbox (.io e)), st)
  | .ok inboxes =>
    let (n, st) := pruneAll store age inboxes st
    ((n.mapError .inbox).map fun n => Printout.pruned n inboxes.length, st)

/-- The age at which messages are dropped. -/
def maxAge (s : Site) (config : Option String) : Option UInt64 → Except OperatorError UInt64
  | some age => .ok age
  | none => ((s.config config).mapError .config).map fun c => c.inbox.maxAgeSeconds

/-- What is asked of a store of inboxes. -/
def inboxCommand (s : Site) (store : InboxStore) (config : Option String) (draw : Draw)
    (c : InboxCommand) : Except OperatorError String × Storage :=
  let st := s.host.storage
  match c with
  | .send inbox payload id sender =>
    let m : Message :=
      { id := (id.map MessageId.mk).getD draw.id, inbox := InboxId.ofName inbox, payload
        enqueuedAt := UInt64.ofNat st.now, sender }
    let (r, st) := store.enqueue m st
    ((r.mapError .inbox).map fun id => id.text ++ "\n", st)
  | .poll inbox json =>
    let (r, st) := store.poll (InboxId.ofName inbox) st
    ((r.mapError .inbox).map fun ms => String.join (ms.map (Printout.message json)), st)
  | .ack inbox id =>
    let (r, st) := store.acknowledge (InboxId.ofName inbox) ⟨id⟩ st
    ((r.mapError .inbox).map fun _ => "", st)
  | .prune inbox age =>
    match maxAge s config age with
    | .error e => (.error e, st)
    | .ok age => prune store inbox age st

/-- A command for inboxes. The supervisor is not asked. -/
def inbox (s : Site) (p : Paths) (draw : Draw) (c : InboxCommand) : CommandResult × Site :=
  match InboxStore.openAt (s.place p.state.inboxDir) s.disk with
  | .error e => ({ failure := some (.inbox (.io e)) }, s)
  | .ok (store, disk) =>
    let (r, storage) := inboxCommand (s.withDisk disk) store p.config draw c
    (printed r, { s with host := { s.host with storage } })

/-! ## Requests -/

/-- The request of a command, if it is one that the supervisor answers. -/
def request? : Command → Option Request
  | .spawn w => some (.spawn w)
  | .list _ => some .list
  | .status name _ => some (.status name)
  | .inject name message id => some (.inject name message (id.map MessageId.mk))
  | .kill name signal => some (.kill name signal)
  | .tail name lines => some (.tail name lines)
  | .remove name => some (.remove name)
  | .shutdown => some .shutdown
  | _ => none

/-- What is printed about a delivery. -/
def delivery (r : Receipt) : Except OperatorError String :=
  match r.outcome with
  | .queued id => .ok ("queued " ++ id.text ++ "\n")
  | .typed => .ok "typed\n"
  | .failed reason => .error (.undelivered r.session reason)

/-- What is printed about the answer to a command. -/
def answer : Command → Response → Except OperatorError String
  | _, .error message => .error (.refused message)
  | .spawn _, .spawned name .. => .ok (name ++ "\n")
  | .list json, .sessions all => .ok (Printout.sessions json all)
  | .status _ json, .status name health attempts exitCode =>
    .ok (Printout.status json name health attempts exitCode)
  | .inject .., .receipt r => delivery r
  | .kill .., .ok => .ok "Signal sent\n"
  | .tail .., .output data => .ok data
  | .remove _, .ok => .ok ""
  | .shutdown, .ok => .ok ""
  | _, _ => .error .unexpected

/-- A command that the supervisor answers. -/
def asked (s : Site) (p : Paths) (draw : Draw) (c : Command) (r : Request) : CommandResult × Site :=
  match s.ask p draw r with
  | (.error e, s) => ({ failure := some (.client e) }, s)
  | (.ok response, s) => (printed (answer c response), s)

/-! ## Commands -/

/-- Run a supervisor until it is asked to shut down. Where nothing else happens meanwhile, only
    its start can be seen. -/
def serve (s : Site) (p : Paths) : CommandResult × Site :=
  match s.config p.config with
  | .error e => ({ failure := some (.config e) }, s)
  | .ok config =>
    match Supervisor.listen config p.state s.dir (s.place p.socket) s.disk with
    | .error e => ({ failure := some (.supervisor e) }, s)
    | .ok (supervisor, disk) => ({}, (s.withDisk disk).put (s.place p.socket) supervisor)

/-- The paths that a command line leads to. -/
def pathsOf (e : Environment) (i : Invocation) : Paths :=
  { socket := i.socket.getD e.socketPath
    state := ⟨i.stateDir.getD e.stateDir⟩
    config := i.config }

/-- One command. -/
def perform (s : Site) (p : Paths) (draw : Draw) (c : Command) : CommandResult × Site :=
  match request? c with
  | some r => asked s p draw c r
  | none =>
    match c with
    | .agents json => ({ output := Printout.agents json }, s)
    | .config => (printed (((s.config p.config).bind Config.printed).mapError .config), s)
    | .inbox c => inbox s p draw c
    | .doctor =>
      let (checks, s) := Doctor.examine s p
      ({ output := Doctor.print checks
         failure := if Doctor.isHealthy checks then none else some .unhealthy }, s)
    | .server => serve s p
    | _ => ({ failure := some .unexpected }, s)

/-- A whole command line; the first word is the name of the program. -/
def run (s : Site) (lookup : String → Option String) (draw : Draw) (words : List String) :
    Except CommandLine.Refusal CommandResult × Site :=
  match Invocation.read lookup words with
  | .error r => (.error r, s)
  | .ok i =>
    let (result, s) := perform s (pathsOf s.environment i) draw i.command
    (.ok result, s)

/-- The exit status of a program. -/
def exitStatus : Except CommandLine.Refusal CommandResult → Nat
  | .error .usage => 2
  | .error _ => 0
  | .ok o => if o.failure.isSome then 1 else 0

/-- What a program prints. Help and version are the outer layer's. -/
def output : Except CommandLine.Refusal CommandResult → String
  | .ok o => o.output
  | .error _ => ""

end Operator

end AgentSupervisor
