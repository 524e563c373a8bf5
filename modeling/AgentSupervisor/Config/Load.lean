import AgentSupervisor.Config.Layers
import AgentSupervisor.Files.Disk

/-!
# Loading settings

The settings of the user come first, then those of the project, then those of a file that the
operator names. The first two are passed over where there is no such file.
-/

namespace AgentSupervisor.Config

/-- The layer in a file. -/
def readLayer (disk : Disk) (dir : Place) (path : String) : Except ConfigError Toml.Entries :=
  match disk.readText (Place.ofPath dir path) with
  | .error e => .error (.read path e)
  | .ok cs =>
    match Toml.parse? cs with
    | none => .error (.parse path)
    | some es => .ok es

/-- The files that give layers, seen from a directory. -/
def layerFiles (disk : Disk) (dir : Place) (user : Option String) (project : String)
    (explicit : Option String) : List String :=
  (user.toList ++ [project]).filter (fun p => disk.isFile (Place.ofPath dir p)) ++ explicit.toList

/-- The settings of all files. -/
def load (disk : Disk) (dir : Place) (user : Option String) (project : String)
    (explicit : Option String) : Except ConfigError Config := do
  ofLayers (← (layerFiles disk dir user project explicit).mapM (readLayer disk dir))

end AgentSupervisor.Config
