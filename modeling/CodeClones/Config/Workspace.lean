import CodeClones.Config.Document

/-!
# Configuration of a workspace

Settings lie in a directory of their own below the workspace root, and so does the vector database
unless the configuration names another directory. Without a settings file the defaults hold.
-/

namespace CodeClones

/-- The name of the settings directory. -/
def settingsDirName : String := ".simdup"

/-- The settings directory of a workspace. -/
def settingsDir (root : String) : String := FilePath.join root settingsDirName

/-- The settings file of a workspace. -/
def settingsFile (root : String) : String := FilePath.join (settingsDir root) "config.toml"

/-- The directory of the vector database. -/
def vectorDir (root : String) (persistDir : Option String) : String :=
  FilePath.join (settingsDir root) (persistDir.getD "vectors")

namespace Config

/-- Reads the configuration of a workspace, or takes the defaults if it has no settings file. -/
def load (root : String) (t : Tree) : Except ConfigError Config :=
  if t.holds (settingsFile root) then
    match t.readText (settingsFile root) with
    | .ok text => ofText text
    | .error cause => .error (.io cause)
  else .ok {}

/-- Reads the configuration of a workspace, writing the defaults to a new settings file if it has
none. -/
def ensure (root : String) (t : Tree) : Except ConfigError (Config × Tree) :=
  match t.makeDirectory (settingsDir root) with
  | .error cause => .error (.io cause)
  | .ok t =>
    if t.holds (settingsFile root) then (load root t).map fun c => (c, t)
    else
      let c : Config := {}
      match t.write (settingsFile root) c.text.toUTF8 with
      | .ok t => .ok (c, t)
      | .error cause => .error (.io cause)

end Config

end CodeClones
