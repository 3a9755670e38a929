import CodeClones.Config.Workspace
import CodeClones.Store.Backend
import CodeClones.Workspace.FileState

/-!
# Disks

A disk is a file tree together with the contents of the databases in it. A database is a file that
was empty or missing when it was first opened; opening any other file fails.
-/

namespace CodeClones

/-- A file tree with the contents of its databases by their paths. -/
structure Disk where
  tree : Tree
  vectors : SortedMap Database := {}
  fileStates : SortedMap FileState := {}

namespace Disk

/-- Makes the file of a database, if it is missing; `known` tells that the file is a database. -/
def touch (t : Tree) (path : String) (known : Bool) : Except String Tree :=
  match t.read path with
  | .ok bytes =>
    if known || bytes.isEmpty then .ok t else .error "file is not a database"
  | .error .notFound =>
    match t.write path .empty with
    | .ok t => .ok t
    | .error _ => .error ("unable to open database file: " ++ path)
  | .error _ => .error ("unable to open database file: " ++ path)

/-- The file with the vectors of a workspace. -/
def vectorFile (root : String) (config : StoreConfig) : String :=
  FilePath.join (vectorDir root config.persistDir) "vectors.sqlite"

/-- The file with the file states of a workspace. -/
def fileStateFile (root : String) : String := FilePath.join (settingsDir root) "file_state.sqlite"

/-- Opens the database of vectors of a workspace. -/
def openVectors (d : Disk) (root : String) (config : StoreConfig) :
    Except StoreError (Disk × Database) :=
  let path := vectorFile root config
  match d.tree.makeDirectory (vectorDir root config.persistDir) with
  | .error cause => .error (.io cause)
  | .ok tree =>
    match touch tree path (d.vectors.contains path) with
    | .error reason => .error (.unavailable "sqlite" (path ++ ": " ++ reason))
    | .ok tree =>
      .ok ({ d with tree }, ((if d.tree.holds path then d.vectors.get? path else none)).getD {})

/-- Opens the file states of a workspace; the error is its text. -/
def openFileState (d : Disk) (root : String) : Except String (Disk × FileState) :=
  let path := fileStateFile root
  match d.tree.makeDirectory (settingsDir root) with
  | .error cause => .error ("io error: " ++ cause.message)
  | .ok tree =>
    match touch tree path (d.fileStates.contains path) with
    | .error reason => .error ("sqlite error: " ++ reason)
    | .ok tree =>
      .ok ({ d with tree }, ((if d.tree.holds path then d.fileStates.get? path else none)).getD {})

/-- Keeps the contents of the database of vectors. -/
def saveVectors (d : Disk) (root : String) (config : StoreConfig) (backend : Backend) : Disk :=
  match backend with
  | .database db _ => { d with vectors := d.vectors.insert (vectorFile root config) db }
  | .memory .. => d

/-- Keeps the file states. -/
def saveFileState (d : Disk) (root : String) (s : FileState) : Disk :=
  { d with fileStates := d.fileStates.insert (fileStateFile root) s }

/-- Opens the backend of a configuration. -/
def openBackend (d : Disk) (root : String) (config : StoreConfig) :
    Except StoreError (Disk × Backend) :=
  match config.backend with
  | .memory => .ok (d, .memory "memory" {})
  | .sqlite =>
    (d.openVectors root config).map fun (d, db) => (d, .database db config.collection)

end Disk

end CodeClones
