import CodeClones.Embedding.ModelFiles
import CodeClones.Embedding.Engine
import CodeClones.Finder.Error
import CodeClones.Report.Basic
import CodeClones.Store.Batch
import CodeClones.Symbol.Canonical
import CodeClones.Symbol.Metadata
import CodeClones.Workspace.Discovery
import CodeClones.Workspace.Disk

/-!
# Finders

A finder keeps the symbols of a workspace in a vector store and remembers the state of every file
that it has indexed. What the surroundings do during a run (the files that are seen at each access,
the refusals of the store and of the file states, the time) is an input of the run.
-/

namespace CodeClones

/-- A finder. -/
structure Finder where
  /-- The workspace. -/
  root : String
  config : Config
  extractor : Extractor
  filter : SymbolFilter
  engine : Engine
  store : VectorStore
  fileState : FileState
  progress : Progress := {}

/-- The file trees that a run sees, access by access. -/
structure Views where
  /-- When it looks for files. -/
  scan : Tree
  /-- When it takes the digest of the file at a position to tell whether it has changed. -/
  digests : Nat → Tree
  /-- When it reads the symbols of the file at a position. -/
  reads : Nat → Tree
  /-- When it takes the digest of the file at a position to record it. -/
  records : Nat → Tree

/-- The views of a tree that does not change. -/
def Views.still (t : Tree) : Views := ⟨t, fun _ => t, fun _ => t, fun _ => t⟩

/-- An access to the recorded file states. -/
inductive StateAccess where
  | clear
  | detect
  | lookup (position : Nat)
  | change (position : Nat)
  deriving DecidableEq, Repr

/-- The surroundings of a run. -/
structure RunConditions where
  views : Views
  clear : Conditions := {}
  /-- When the symbols of the changed file at a position are removed. -/
  purge : Nat → Conditions := fun _ => {}
  upsert : Conditions := {}
  search : BatchConditions
  stats : Conditions := {}
  /-- The share of memory in use when the run is reported, in percent. -/
  usage : Float := 0
  /-- Why an access to the file states is refused. -/
  stateRefusal : StateAccess → Option String := fun _ => none
  /-- How long the run takes, in seconds. -/
  seconds : Float := 0
  timestamp : String := ""

/-- What a caller asks of a run. -/
structure RunOptions where
  /-- The least score of a duplicate, instead of the configured one. -/
  threshold : Option Float32 := none
  /-- Whether reports show symbols as a whole. -/
  verbose : Bool := false

namespace Finder

/-- The store configuration of a finder, where caching may be switched off. -/
def storeConfig (config : Config) : StoreConfig :=
  { config.store with
    enableQueryCache := config.store.enableQueryCache && config.finder.enableCaching }

/-- A failure before a run. -/
def startFailure (fault : Fault) (reason : String) : FinderError := ⟨fault, .initializing, reason⟩

/-- The engine of a configuration. -/
def openEngine (root : String) (t : Tree) (config : Config) : Except FinderError Engine :=
  match (loadModel root t config.embeddings).bind (Engine.start · config.embeddings) with
  | .ok engine => .ok engine
  | .error cause => .error (startFailure .dependency cause.message)

/-- The store of a configuration. -/
def openStore (root : String) (d : Disk) (config : Config) (c : Conditions) :
    Except FinderError (Disk × VectorStore) :=
  let opened : Except StoreError (Disk × VectorStore) := do
    let (d, backend) ← d.openBackend root (storeConfig config)
    let store ← VectorStore.start backend (storeConfig config) c
    pure (d, { store with queryBatchSize := max config.finder.batchSize 1 })
  match opened with
  | .ok opened => .ok opened
  | .error cause => .error (startFailure .dependency cause.message)

/-- Refuses a configuration with a limit of zero. -/
def checkConfig (config : Config) : Except FinderError Unit :=
  match config.validate with
  | .ok () => .ok ()
  | .error cause => .error (startFailure .configuration cause.message)

/-- A finder around an engine and a store. -/
def assemble (root : String) (d : Disk) (config : Config) (readers : Readers)
    (engine : Engine) (store : VectorStore) : Except FinderError (Disk × Finder) := do
  checkConfig config
  let filter ← match SymbolFilter.make config.finder.includeSymbolTypes
      config.finder.minSymbolLength config.finder.excludeFilePatterns with
    | .ok filter => .ok filter
    | .error refused =>
      .error (startFailure .configuration ("invalid exclusion pattern: " ++ refused.message))
  match d.openFileState root with
  | .error reason => .error (startFailure .dependency reason)
  | .ok (d, fileState) =>
    .ok (d, { root, config, extractor := { readers with root }, filter, engine, store, fileState })

/-- Opens the finder of a workspace. -/
def start (root : String) (d : Disk) (config : Config) (readers : Readers)
    (c : Conditions) : Except FinderError (Disk × Finder) := do
  checkConfig config
  let engine ← openEngine root d.tree config
  let (d, store) ← openStore root d config c
  assemble root d config readers engine store

/-- The disk with all that the finder has stored. -/
def save (f : Finder) (d : Disk) : Disk :=
  (d.saveVectors f.root f.config.store f.store.backend).saveFileState f.root f.fileState

/-- The parts of the finder as a report shows them. -/
def components (f : Finder) (c : Conditions) (usage : Float) :
    Finder × Except StoreError ComponentInfo :=
  let (store, answer) := f.store.stats c usage
  ({ f with store }, answer.map fun stats =>
    { extraction := f.extractor.stats
      server := f.extractor.server
      embedding := f.engine.info
      store := stats })

end Finder

end CodeClones
