import CodeClones.Decimal.Notation
import CodeClones.Workspace.Tree

/-!
# Similarity thresholds

Four cutoffs within 0 and 1 in strictly ascending order, which the type guarantees. A ladder that
breaks the rule is refused with the reason; a cutoff out of range is reported before a wrong order.
-/

namespace CodeClones

/-- Why a configuration is refused. -/
inductive ConfigError where
  | io (cause : FileError)
  /-- The text is no configuration. -/
  | malformed
  | thresholdOutOfRange (name : String) (value : Float32)
  | thresholdOrder (low medium high exact : Float32)
  | zeroValue (name : String)

/-- The text of an error. -/
def ConfigError.message : ConfigError → String
  | io cause => "io error: " ++ cause.message
  | malformed => "failed to parse config TOML"
  | thresholdOutOfRange name value =>
    "threshold '" ++ name ++ "' must be within [0, 1], got " ++ Decimal.plain32 value
  | thresholdOrder low medium high exact =>
    "thresholds must satisfy low < medium < high < exact, got " ++
      " / ".intercalate ([low, medium, high, exact].map Decimal.plain32)
  | zeroValue name => "'" ++ name ++ "' must be greater than zero"

/-- Whether a value lies within 0 and 1. -/
def inUnitRange (x : Float32) : Bool := 0 ≤ x && x ≤ 1

/-- Whether four values are within range and strictly ascend. -/
def isLadder (low medium high exact : Float32) : Bool :=
  inUnitRange low && inUnitRange medium && inUnitRange high && inUnitRange exact &&
    low < medium && medium < high && high < exact

/-- Cutoffs of similarity scores. -/
structure Thresholds where
  low : Float32
  medium : Float32
  high : Float32
  exact : Float32
  valid : isLadder low medium high exact = true

namespace Thresholds

/-- The thresholds of a configuration that gives none. -/
def default : Thresholds := ⟨0.65, 0.75, 0.85, 0.95, by decide +kernel⟩

instance : Inhabited Thresholds := ⟨default⟩

/-- The first of named values that is out of range. -/
def outOfRange? (values : List (String × Float32)) : Option (String × Float32) :=
  values.find? fun (_, x) => !inUnitRange x

/-- The ladder of four values, or why they are none. -/
def make? (low medium high exact : Float32) : Except ConfigError Thresholds :=
  match outOfRange? [("low", low), ("medium", medium), ("high", high), ("exact", exact)] with
  | some (name, value) => .error (.thresholdOutOfRange name value)
  | none =>
    if valid : isLadder low medium high exact then .ok ⟨low, medium, high, exact, valid⟩
    else .error (.thresholdOrder low medium high exact)

/-- Equality of ladders. -/
def equal (a b : Thresholds) : Bool :=
  a.low == b.low && a.medium == b.medium && a.high == b.high && a.exact == b.exact

end Thresholds

end CodeClones
