import CodeClones.Config.Basic
import CodeClones.Decimal.Notation
import CodeClones.Duplicate.Basic
import CodeClones.Embedding.Engine
import CodeClones.Extraction.Basic
import CodeClones.Store.VectorStore

/-!
# Reports

A report has a finding for every duplicate, in the same order, a summary that counts them, and the
circumstances of the run.
-/

namespace CodeClones

/-- A symbol as a finding shows it. -/
structure EvidenceSymbol where
  name : String
  kind : Kind
  filePath : String
  lineNumber : Nat
  lineCount : Nat
  content : String
  deriving DecidableEq, Repr

/-- What a finding rests on. -/
structure Evidence where
  score : Float32
  confidence : Float32
  comparison : Comparison
  reason : Reason
  a : EvidenceSymbol
  b : EvidenceSymbol

/-- A duplicate in a report. -/
structure Finding where
  id : String
  title : String
  description : String
  severity : Severity
  filePath : String
  lineNumber : Nat
  evidence : Evidence

/-- The number of findings of each severity. -/
structure SeverityCounts where
  critical : Nat
  high : Nat
  medium : Nat
  low : Nat
  deriving DecidableEq, Repr

/-- The parts of a finder as a report shows them. -/
structure ComponentInfo where
  extraction : ExtractionStats
  server : Option SymbolServer
  embedding : EngineInfo
  store : StoreStats

/-- Counts of a run. -/
structure RunStats where
  symbolsExtracted : Nat
  embeddingsGenerated : Nat
  duplicatesFound : Nat
  /-- How long the run took, in seconds. -/
  seconds : Float

/-- The circumstances of a run. -/
structure RunContext where
  root : String
  mode : AnalysisMode
  components : ComponentInfo
  settings : FinderConfig
  stats : RunStats
  changedFiles : Option (List String)
  timestamp : String

/-- What a run found. -/
structure Report where
  findings : List Finding
  counts : SeverityCounts
  context : RunContext

/-- The number of characters that are kept of a symbol's content. -/
def evidenceLength : Nat := 100

/-- A text cut after `limit` characters, with dots for what is cut off. -/
def shorten (limit : Nat) (text : String) : String :=
  if text.length ≤ limit then text
  else String.ofList (text.toList.take limit) ++ "..."

/-- A symbol as evidence; the content is shortened unless all of it is wanted. -/
def Symbol.toEvidence (s : Symbol) (whole : Bool) : EvidenceSymbol where
  name := s.name
  kind := s.kind
  filePath := s.filePath
  lineNumber := s.lineNumber
  lineCount := s.lineCount
  content := if whole then s.content else shorten evidenceLength s.content

/-- A position with at least four digits. -/
def fourDigits (n : Nat) : String :=
  let digits := toString n
  Decimal.zeros (4 - digits.length) ++ digits

/-- The finding of the duplicate at a position. -/
def Duplicate.toFinding (d : Duplicate) (position : Nat) (whole : Bool) : Finding where
  id := "duplicate_" ++ fourDigits position
  title := "Duplicate: " ++ d.a.name ++ " & " ++ d.b.name
  description := "Found " ++ d.comparison.name ++ " between symbols with " ++
    Decimal.fixedText 3 (Decimal.read32 d.score) ++ " similarity"
  severity := d.severity
  filePath := d.a.filePath
  lineNumber := d.a.lineNumber
  evidence :=
    { score := d.score
      confidence := d.confidence
      comparison := d.comparison
      reason := d.reason
      a := d.a.toEvidence whole
      b := d.b.toEvidence whole }

namespace Report

/-- The number of findings of each severity. -/
def countsOf (findings : List Finding) : SeverityCounts :=
  let count := fun severity => findings.countP fun f => f.severity == severity
  ⟨count .critical, count .high, count .medium, count .low⟩

/-- The report of some duplicates. -/
def make (duplicates : List Duplicate) (context : RunContext) (whole : Bool) : Report :=
  let findings := duplicates.mapIdx fun i d => d.toFinding i whole
  { findings, counts := countsOf findings, context }

/-- The number of duplicates. -/
def total (r : Report) : Nat := r.findings.length

/-- Whether there are no duplicates. -/
def isEmpty (r : Report) : Bool := r.findings.isEmpty

end Report

end CodeClones
