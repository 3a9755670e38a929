/-!
# Progress of a run

A run passes through its stages in a fixed order, and may fail at any of them. The history lists the
stages of the run, the present one last.
-/

namespace CodeClones

/-- A stage of a run. -/
inductive Stage where
  | initializing
  | extractingSymbols
  | generatingEmbeddings
  | buildingIndex
  | findingDuplicates
  | formattingResults
  | completed
  | failed
  deriving DecidableEq, Repr

namespace Stage

/-- Every stage. -/
def all : List Stage := [initializing, extractingSymbols, generatingEmbeddings, buildingIndex,
  findingDuplicates, formattingResults, completed, failed]

/-- The name of a stage. -/
def name : Stage → String
  | initializing => "initializing"
  | extractingSymbols => "extracting_symbols"
  | generatingEmbeddings => "generating_embeddings"
  | buildingIndex => "building_index"
  | findingDuplicates => "finding_duplicates"
  | formattingResults => "formatting_results"
  | completed => "completed"
  | failed => "failed"

/-- The stage with a name. -/
def ofName? (name : String) : Option Stage := all.find? fun s => s.name == name

/-- The stage that must come directly before a stage. -/
def predecessor? : Stage → Option Stage
  | initializing => none
  | extractingSymbols => some initializing
  | generatingEmbeddings => some extractingSymbols
  | buildingIndex => some generatingEmbeddings
  | findingDuplicates => some buildingIndex
  | formattingResults => some findingDuplicates
  | completed => some formattingResults
  | failed => none

/-- Whether a run ends at a stage. -/
def isTerminal (s : Stage) : Bool := s == completed || s == failed

end Stage

/-- The stages of a run. -/
structure Progress where
  current : Stage := .initializing
  history : List Stage := [.initializing]
  /-- Why the run failed. -/
  failure : Option String := none
  deriving DecidableEq, Repr

namespace Progress

/-- Moves on to a stage, if it is the next one. -/
def advance (p : Progress) (next : Stage) : Progress :=
  if next.predecessor? = some p.current then
    { p with current := next, history := p.history ++ [next] }
  else p

/-- Ends the run with a failure. -/
def fail (p : Progress) (reason : String) : Progress :=
  { current := .failed, history := p.history ++ [.failed], failure := some reason }

end Progress

end CodeClones
