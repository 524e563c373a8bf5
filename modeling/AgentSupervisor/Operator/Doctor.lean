import AgentSupervisor.Operator.Printout
import AgentSupervisor.Operator.Site

/-!
# The self-check

Whether everything that a supervisor needs is there: settings that can be read, directories for
its state, a socket path that is free or answers, and terminals. The programs of the agents and
the retry policy are reported as well, but nothing is wrong without them.

* `Doctor.examine` : the findings, and the site afterwards.
-/

namespace AgentSupervisor

/-- What a check finds. -/
inductive Finding where
  | good (remark : String)
  | warning (remark : String)
  /-- something that is not needed is missing -/
  | absent (remark : String)
  | bad (remark : String)
  deriving Repr, DecidableEq

/-- A check with what it finds. -/
structure Check where
  subject : String
  finding : Finding
  deriving Repr, DecidableEq

namespace Finding

/-- The finding in print. -/
def text : Finding → String
  | .good remark => "[OK]" ++ remark
  | .warning remark => "[WARN]" ++ remark
  | .absent remark => "[--]" ++ remark
  | .bad remark => "[FAIL]" ++ remark

/-- Is something wrong? -/
def isBad : Finding → Bool
  | .bad _ => true
  | _ => false

end Finding

namespace Doctor

/-- A finding from an attempt. -/
def attempt {ε α : Type} (message : ε → String) : Except ε α → Finding
  | .ok _ => .good ""
  | .error e => .bad (" " ++ message e)

/-! ## Checks -/

/-- Make the directories for the state. -/
def makeState (s : Site) (state : StateDir) : Except IoError Disk := do
  (← s.disk.makeDirs (s.place state.pidDir)).makeDirs (s.place state.inboxDir)

/-- What stands at the path of the socket. -/
def socketFinding (s : Site) (socket : Place) : Finding :=
  match s.disk.find socket with
  | .ok (some (.socket _)) =>
    if (s.supervisorAt? socket).isSome then .good " server responding"
    else .warning " socket exists but server not responding (stale?)"
  | .ok (some _) => .bad " path exists but is not a socket"
  | _ => .good " no server running"

/-- The directories that are searched for programs. -/
def searchPath (s : Site) : List Place := s.host.path ++ Child.programDirs

/-- Is there a file of this path among the installed programs or on the disk? -/
def isProgramFile (s : Site) (p : Place) : Bool :=
  s.disk.isFile p ||
    (Child.programDirs.contains p.dropLast && Program.installed.contains (p.getLastD ""))

/-- Can a program be found? -/
def isOnPath (s : Site) (program : String) : Bool :=
  if program.toList.contains '/' then isProgramFile s (s.place program)
  else !program.isEmpty && (searchPath s).any fun dir => isProgramFile s (dir ++ [program])

/-- The program that an agent is launched by. -/
def programOf (c : AgentConfig) (a : Agent) : String :=
  String.ofList (Text.firstWord ((c.command? a.name).getD a.defaultCommand).toList)

/-- The program of an agent. -/
def agentCheck (s : Site) (c : AgentConfig) (a : Agent) : Check :=
  let program := programOf c a
  ⟨"Agent " ++ a.name ++ ":",
    if isOnPath s program then .good (" " ++ program)
    else .absent (" " ++ program ++ " not on PATH")⟩

/-- The retry policy. -/
def policyFinding (p : RetryPolicy) : Finding :=
  if p.maxAttempts = 0 then .warning " max_retry_attempts is 0, a single read will be made"
  else .good (" " ++ Printout.number p.maxAttempts.toNat ++ " attempt(s), " ++
    Printout.number p.delay.toNat ++ "ms apart")

/-- All checks, and the site afterwards. -/
def examine (s : Site) (p : Paths) : List Check × Site :=
  let loaded := s.config p.config
  let config := match loaded with
    | .ok c => c
    | .error _ => {}
  let made := makeState s p.state
  let s := match made with
    | .ok disk => s.withDisk disk
    | .error _ => s
  ([⟨"Config:", attempt ConfigError.message loaded⟩,
    ⟨"State directory: " ++ p.state.root, attempt IoError.message made⟩,
    ⟨"Socket: " ++ p.socket, socketFinding s (s.place p.socket)⟩,
    ⟨"PTY allocation:", .good ""⟩] ++
    Agent.all.map (agentCheck s config.agent) ++
    [⟨"Health checks:", policyFinding config.retryPolicy⟩], s)

/-! ## Print -/

/-- Is nothing wrong? -/
def isHealthy (cs : List Check) : Bool := !cs.any fun c => c.finding.isBad

/-- The checks in print. -/
def print (cs : List Check) : String :=
  String.join (cs.map fun c => c.subject ++ " " ++ c.finding.text ++ "\n") ++ "\n" ++
    (if isHealthy cs then "All checks passed!\n" else "")

end Doctor

end AgentSupervisor
