import CodeClones.Finder.Basic
import CodeClones.Finder.Pairs

/-!
# Runs of a finder

A full run indexes all files anew; an incremental run indexes the files that have changed and removes
what was stored for them before. Both then embed the symbols, store their vectors, search for
neighbours and record the files. A run stops at its first failure, which ends its progress; where the
program itself stops, nothing else happens.
-/

namespace CodeClones

/-- A part of a run, which changes the finder also when it fails. -/
abbrev RunStep := ExceptT FinderError (StateM Finder)

namespace Finder

/-- The files that an incremental run indexes again, and the files that are gone. -/
structure Plan where
  targets : List String := []
  deleted : List String := []
  deriving DecidableEq, Repr

/-- A failure at a stage. -/
def failAt (fault : Fault) (stage : Stage) (reason : String) : RunStep α :=
  throw ⟨fault, stage, reason⟩

/-- Moves on to a stage. -/
def advance (next : Stage) : RunStep Unit :=
  modify fun f => { f with progress := f.progress.advance next }

/-- What a failure of the store is for a run. -/
def faultOf : StoreError → Fault
  | .aborted _ => .aborted
  | _ => .similarity

/-- Calls the store. -/
def callStore (stage : Stage) (call : VectorStore → VectorStore × Except StoreError α) :
    RunStep α := do
  let f ← get
  let (store, answer) := call f.store
  set { f with store }
  match answer with
  | .ok a => pure a
  | .error cause => failAt (faultOf cause) stage cause.message

/-- Stops if an access to the file states is refused. -/
def accessState (c : RunConditions) (stage : Stage) (access : StateAccess) : RunStep Unit :=
  match c.stateRefusal access with
  | none => pure ()
  | some reason => failAt .dependency stage reason

/-- Removes all vectors and all file states. -/
def clearAll (c : RunConditions) : RunStep Unit := do
  let stage := (← get).progress.current
  callStore stage (·.clear c.clear)
  accessState c stage .clear
  modify fun f => { f with fileState := {} }

/-- The records of files that were read, as far as their digests can be taken. -/
def recordsOf (c : RunConditions) (root : String) (files : List (String × List Symbol)) :
    List (String × FileRecord) :=
  files.zipIdx.filterMap fun ((path, symbols), i) =>
    ((c.views.records i).digest? path).map fun digest =>
      (relativePath root path, ⟨digest, symbols.map (·.id)⟩)

/-- The symbols of some files, and the records to keep of them. -/
def extractTargets (c : RunConditions) (files : List String) :
    RunStep (List Symbol × List (String × FileRecord)) := do
  let f ← get
  let (extractor, answer) := f.extractor.extract c.views.reads files
  set { f with extractor }
  match answer with
  | .error cause => failAt .aborted .extractingSymbols cause.message
  | .ok batch =>
    match batch.files, batch.skipped.getLast? with
    | [], some (_, cause) =>
      failAt .extraction .extractingSymbols ("none of " ++ toString batch.skipped.length ++
        " files could be read, last error: " ++ cause.message)
    | _, _ => pure (batch.symbols, recordsOf c f.root batch.files)

/-- The symbols that are compared, at most as many as the configuration allows. -/
def selected (f : Finder) (symbols : List Symbol) : List Symbol :=
  (f.filter.apply symbols).take f.config.finder.maxSymbols

/-- One vector for each symbol. -/
def embedSymbols (symbols : List Symbol) : RunStep (List Embedding) := do
  advance .generatingEmbeddings
  let f ← get
  let (engine, answer) := f.engine.embed (symbols.map Symbol.canonicalText)
  set { f with engine }
  match answer with
  | .ok vectors => pure vectors
  | .error cause => failAt .embedding .generatingEmbeddings cause.message

/-- Stores the vectors of some symbols and searches for their neighbours. -/
def searchNeighbours (c : RunConditions) (symbols : List Symbol) (vectors : List Embedding)
    (threshold : Float32) : RunStep BatchAnswer := do
  advance .buildingIndex
  callStore .buildingIndex
    (·.upsert c.upsert (symbols.map (·.id)) vectors (symbols.map Symbol.toMetadata))
  advance .findingDuplicates
  callStore .findingDuplicates (·.batch c.search false vectors threshold)

/-- What a search for duplicates gives. -/
structure Detection where
  duplicates : List Duplicate
  symbolsAnalyzed : Nat
  embeddingsGenerated : Nat

/-- Searches for the duplicates of some symbols. -/
def detect (c : RunConditions) (symbols : List Symbol) (threshold : Option Float32) :
    RunStep Detection := do
  let f ← get
  let thresholds := f.config.finder.thresholds
  let threshold := threshold.getD thresholds.medium
  if !inUnitRange threshold then
    failAt .configuration f.progress.current
      (ConfigError.thresholdOutOfRange "query" threshold).message
  let symbols := f.selected symbols
  let vectors ← embedSymbols symbols
  let answers ← searchNeighbours c symbols vectors threshold
  advance .formattingResults
  pure ⟨duplicatesIn symbols answers thresholds, symbols.length, vectors.length⟩

/-- Changes the file states one by one. -/
def commitFrom (c : RunConditions) (stage : Stage) (position : Nat) :
    List (FileState → FileState) → RunStep Unit
  | [] => pure ()
  | change :: rest => do
    accessState c stage (.change position)
    modify fun f => { f with fileState := change f.fileState }
    commitFrom c stage (position + 1) rest

/-- Records the files that were indexed and forgets those that are gone. -/
def commit (c : RunConditions) (records : List (String × FileRecord)) (deleted : List String) :
    RunStep Unit := do
  let stage := (← get).progress.current
  commitFrom c stage 0 ((records.map fun (path, record) s => s.insert path record) ++
    deleted.map fun path s => s.erase path)

/-- The parts of the finder. -/
def describe (c : RunConditions) : RunStep ComponentInfo := do
  let (f, answer) := (← get).components c.stats c.usage
  set f
  match answer with
  | .ok info => pure info
  | .error cause => failAt (faultOf cause) f.progress.current cause.message

/-- The report of a run, which completes it. -/
def finishReport (c : RunConditions) (o : RunOptions) (d : Detection) (mode : AnalysisMode)
    (changedFiles : Option (List String)) : RunStep Report := do
  let components ← describe c
  advance .completed
  let f ← get
  pure <| Report.make d.duplicates
    { root := f.root
      mode, components
      settings := f.config.finder
      stats := ⟨d.symbolsAnalyzed, d.embeddingsGenerated, d.duplicates.length, c.seconds⟩
      changedFiles
      timestamp := c.timestamp }
    o.verbose

/-- Indexes some files, records them, forgets the files that are gone, and reports the duplicates. -/
def indexFiles (c : RunConditions) (o : RunOptions) (files deleted : List String)
    (mode : AnalysisMode) (changedFiles : Option (List String)) : RunStep Report := do
  let (symbols, records) ← extractTargets c files
  let d ← detect c symbols o.threshold
  commit c records deleted
  finishReport c o d mode changedFiles

/-- Ends the progress of a run that fails, unless the program stops. -/
def fail (f : Finder) (e : FinderError) : Finder :=
  if e.fault = .aborted then f else { f with progress := f.progress.fail e.message }

/-- A whole run: its progress starts anew, and a failure ends it. -/
def running (work : RunStep α) : RunStep α := fun f =>
  match work { f with progress := Progress.advance {} .extractingSymbols } with
  | (.ok a, f) => (.ok a, f)
  | (.error e, f) => (.error e, f.fail e)

/-- Finds the duplicates of some symbols among them and all that is stored. -/
def findDuplicates (c : RunConditions) (symbols : List Symbol) (threshold : Option Float32) :
    RunStep (List Duplicate) :=
  running do
    let d ← detect c symbols threshold
    advance .completed
    pure d.duplicates

/-- Indexes all files below a directory anew and reports their duplicates. -/
def analyze (c : RunConditions) (o : RunOptions) (top : String) (patterns : List String) :
    RunStep Report :=
  running do
    let f ← get
    let top := FilePath.tidy (FilePath.join f.root top)
    if !c.views.scan.holdsDirectory top then
      failAt .configuration .extractingSymbols (top ++ " is not a directory")
    clearAll c
    match discover c.views.scan f.root top patterns f.filter with
    | .error refused => failAt .configuration .extractingSymbols refused.message
    | .ok files => indexFiles c o files [] .full none

/-- The plan for files that a caller lists: those that are no files any more count as gone. -/
def planListed (t : Tree) (root : String) (files : List String) : Plan :=
  let paths := files.map (FilePath.join root)
  { targets := paths.filter t.holdsFile
    deleted := (paths.filter fun path => !t.holdsFile path).map (relativePath root) }

/-- The plan for the files whose digests differ from the recorded ones. -/
def planChanged (c : RunConditions) : RunStep Plan := do
  let f ← get
  match discover c.views.scan f.root f.root [] f.filter with
  | .error refused => failAt .configuration .extractingSymbols refused.message
  | .ok files =>
    accessState c .extractingSymbols .detect
    let changes := FileState.detect f.fileState (digests c.views.digests f.root files)
    pure ⟨changes.changed.map (FilePath.join f.root), changes.deleted⟩

/-- Removes the vectors that are recorded for some files, the first one at the given position. -/
def purgeFrom (c : RunConditions) (position : Nat) : List String → RunStep Unit
  | [] => pure ()
  | path :: rest => do
    accessState c .extractingSymbols (.lookup position)
    match (← get).fileState.get? path with
    | none => pure ()
    | some record =>
      let _ ← callStore .extractingSymbols (·.delete (c.purge position) record.symbolIds)
    purgeFrom c (position + 1) rest

/-- Indexes files again by a plan and reports the duplicates in them. -/
def runPlan (c : RunConditions) (o : RunOptions) (plan : Plan) : RunStep Report := do
  let f ← get
  let changed := plan.targets.map (relativePath f.root) ++ plan.deleted
  purgeFrom c 0 changed
  indexFiles c o plan.targets plan.deleted .incremental (some changed)

/-- Indexes the listed files again, or without a list those that have changed. -/
def analyzeChanges (c : RunConditions) (o : RunOptions) (files : Option (List String)) :
    RunStep Report := do
  let f ← get
  match files with
  | some files => running (runPlan c o (planListed c.views.scan f.root files))
  | none =>
    if f.config.finder.enableIncremental then running do runPlan c o (← planChanged c)
    else analyze c o f.root []

end Finder

end CodeClones
