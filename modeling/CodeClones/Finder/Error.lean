import CodeClones.Finder.Progress

/-!
# Failures of a run

A failure names the part of the run that failed, the stage and the reason, and decides the exit code
of the program.
-/

namespace CodeClones

/-- What failed. -/
inductive Fault where
  | dependency
  | extraction
  | embedding
  | similarity
  | configuration
  /-- No failure that a caller is told of: the program stops. -/
  | aborted
  deriving DecidableEq, Repr

/-- What a fault means. -/
def Fault.meaning : Fault → String
  | dependency => "required component unavailable"
  | extraction => "symbol extraction failed"
  | embedding => "embedding generation failed"
  | similarity => "similarity search failed"
  | configuration => "invalid configuration"
  | aborted => "stopped"

/-- The exit code for a fault. -/
def Fault.exitCode : Fault → Nat
  | dependency => 2
  | configuration => 8
  | extraction => 1
  | embedding => 1
  | similarity => 1
  | aborted => 101

/-- Why a run fails. -/
structure FinderError where
  fault : Fault
  stage : Stage
  reason : String
  deriving DecidableEq, Repr

namespace FinderError

/-- The text of an error. -/
def message (e : FinderError) : String :=
  e.stage.name ++ ": " ++ e.fault.meaning ++ ": " ++ e.reason

/-- The exit code of the program. -/
def exitCode (e : FinderError) : Nat := e.fault.exitCode

end FinderError

end CodeClones
