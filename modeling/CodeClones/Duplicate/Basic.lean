import CodeClones.Config.Thresholds
import CodeClones.Decimal.Binary
import CodeClones.Symbol.Basic

/-!
# Duplicates

Two symbols with a similarity score are classified by the thresholds: the cutoff that the score
reaches decides how they were found to be similar, why they may be alike, and how grave that is.
-/

namespace CodeClones

/-- How two symbols are similar. -/
inductive Comparison where
  | exactMatch
  | semanticSimilarity
  | structuralSimilarity
  deriving DecidableEq, Repr

/-- The name of a comparison. -/
def Comparison.name : Comparison → String
  | exactMatch => "exact_match"
  | semanticSimilarity => "semantic_similarity"
  | structuralSimilarity => "structural_similarity"

/-- Why two symbols may be alike. -/
inductive Reason where
  | identicalImplementation
  | copyPasteError
  | similarFunctionality
  | refactorCandidate
  deriving DecidableEq, Repr

/-- The name of a reason. -/
def Reason.name : Reason → String
  | identicalImplementation => "identical_implementation"
  | copyPasteError => "copy_paste_error"
  | similarFunctionality => "similar_functionality"
  | refactorCandidate => "refactor_candidate"

/-- How grave a duplicate is. -/
inductive Severity where
  | critical
  | high
  | medium
  | low
  deriving DecidableEq, Repr

/-- The name of a severity. -/
def Severity.name : Severity → String
  | critical => "critical"
  | high => "high"
  | medium => "medium"
  | low => "low"

/-- How a score is interpreted: exact matches first, then high scores, then all others. -/
def classify (score : Float32) (sameFile : Bool) (t : Thresholds) : Comparison × Reason :=
  if t.exact ≤ score then (.exactMatch, .identicalImplementation)
  else if t.high ≤ score then
    (.semanticSimilarity, if sameFile then .similarFunctionality else .copyPasteError)
  else (.structuralSimilarity, .refactorCandidate)

/-- The severity of a score. -/
def severityOf (score : Float32) (t : Thresholds) : Severity :=
  if t.exact ≤ score then .critical
  else if t.high ≤ score then .high
  else if t.medium ≤ score then .medium
  else .low

/-- The ratio of a score to the cutoff of exact matches, at most one, to three places. -/
def confidenceOf (score : Float32) (t : Thresholds) : Float32 :=
  let ratio := score / t.exact
  Decimal.roundHalfAway ((if ratio < 1 then ratio else 1) * 1000) / 1000

/-- A pair of similar symbols. -/
structure Duplicate where
  a : Symbol
  b : Symbol
  score : Float32
  confidence : Float32
  reason : Reason
  comparison : Comparison
  severity : Severity

namespace Duplicate

/-- The duplicate of two symbols with a score. -/
def make (a b : Symbol) (score : Float32) (t : Thresholds) : Duplicate :=
  let (comparison, reason) := classify score (a.filePath == b.filePath) t
  { a, b, score
    confidence := confidenceOf score t
    reason, comparison
    severity := severityOf score t }

/-- The place of a number among all numbers: negative zero comes before zero. -/
def place (x : Float32) : Int :=
  let bits := x.toBits.toNat
  let half := UInt32.size / 2
  if bits < half then bits else (half : Int) - 1 - bits

/-- The order of listings: high scores first, then by the identifiers of the symbols. -/
def before (x y : Duplicate) : Bool :=
  place y.score < place x.score || (place x.score == place y.score &&
    (x.a.id < y.a.id || (x.a.id == y.a.id && x.b.id ≤ y.b.id)))

end Duplicate

end CodeClones
