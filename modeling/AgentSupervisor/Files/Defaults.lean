import AgentSupervisor.Files.Path
import AgentSupervisor.Text.Numeral

/-!
# Default places

Where the state, the socket and the settings are when nobody says otherwise. A directory given
by the environment counts only when its path is absolute.
-/

namespace AgentSupervisor

/-- What the environment says about directories. -/
structure Environment where
  home : Option String := none
  stateHome : Option String := none
  configHome : Option String := none
  runtimeDir : Option String := none
  dataHome : Option String := none
  /-- the number of the user -/
  user : Nat := 0
  deriving Repr, DecidableEq

namespace Environment

/-- The variables that say where directories are. -/
def names : List String :=
  ["HOME", "XDG_STATE_HOME", "XDG_CONFIG_HOME", "XDG_RUNTIME_DIR", "XDG_DATA_HOME"]

/-- The environment of a user. A missing or empty home directory is the one that the system has
    on record. -/
def ofVariables (lookup : String → Option String) (user : Nat) (homeOnRecord : Option String) :
    Environment :=
  { home := (lookup "HOME").filter (!·.isEmpty) <|> homeOnRecord
    stateHome := lookup "XDG_STATE_HOME"
    configHome := lookup "XDG_CONFIG_HOME"
    runtimeDir := lookup "XDG_RUNTIME_DIR"
    dataHome := lookup "XDG_DATA_HOME"
    user }

/-- A directory that the environment gives, if it counts. -/
def given (dir : Option String) : Option String := dir.filter Path.isAbsolute

/-- A directory below the home directory. -/
def belowHome (e : Environment) (name : String) : Option String :=
  e.home.map fun h => Path.join h name

/-- A path in the directory for temporary files that belongs to the user. -/
def temporary (e : Environment) (suffix : String) : String :=
  "/tmp/corral-" ++ String.ofList (Text.decimal e.user) ++ suffix

/-- Where state is kept. -/
def stateDir (e : Environment) : String :=
  let dir := (given e.stateHome <|> e.belowHome ".local/state") <|>
    (given e.dataHome <|> e.belowHome ".local/share")
  match dir with
  | some d => Path.join d "corral"
  | none => e.temporary ""

/-- Where the socket is. -/
def socketPath (e : Environment) : String :=
  match given e.runtimeDir with
  | some d => Path.join d "corral.sock"
  | none => e.temporary ".sock"

/-- Where the settings of the user are. -/
def userConfig (e : Environment) : Option String :=
  (given e.configHome <|> e.belowHome ".config").map fun d =>
    Path.join (Path.join d "corral") "config.toml"

/-- Where the settings of a project are, seen from its directory. -/
def projectConfig : String := Path.join ".corral" "config.toml"

end Environment

end AgentSupervisor
