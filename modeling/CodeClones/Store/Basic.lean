import CodeClones.Embedding.Vector
import CodeClones.Json.Value
import CodeClones.Word
import CodeClones.Workspace.Tree

/-!
# Stored vectors

A record is a vector with an identifier and metadata. A search gives matches: records with their
score and their distance from the vector that was asked for.
-/

namespace CodeClones

/-- A vector to be stored. -/
structure Record where
  id : String
  vector : Embedding
  metadata : Json.Object

/-- A stored vector that is similar to the one asked for. -/
structure Match where
  id : String
  score : Float32
  distance : Float32
  metadata : Json.Object

/-- Why a stored row cannot be read. -/
inductive ReadFault where
  /-- A component of the vector is no number; its text ends at the column. -/
  | missingComponent (column : Nat)
  /-- A container of the metadata has too many others around it; its text starts at the column. -/
  | nestedTooDeep (column : Nat)
  deriving DecidableEq, Repr

/-- The text of such a fault. -/
def ReadFault.message : ReadFault → String
  | missingComponent column =>
    "invalid type: null, expected f32 at line 1 column " ++ toString column
  | nestedTooDeep column => "recursion limit exceeded at line 1 column " ++ toString column

/-- Why a call on a store fails. -/
inductive StoreError where
  | io (cause : FileError)
  | sqlite (reason : String)
  | json (cause : ReadFault)
  | lengthMismatch (ids vectors metadata : Nat)
  | poolTimeout (milliseconds : Nat)
  | searchTimeout (seconds : Nat)
  | unavailable (backend reason : String)
  | runtime (reason : String)
  /-- No failure that a caller is told of: the program stops. -/
  | aborted (cause : Abort)
  deriving DecidableEq, Repr

/-- The text of an error. -/
def StoreError.message : StoreError → String
  | io cause => "io error: " ++ cause.message
  | sqlite reason => "sqlite error: " ++ reason
  | json cause => "json error: " ++ cause.message
  | lengthMismatch ids vectors metadata =>
    "upsert received " ++ toString ids ++ " ids, " ++ toString vectors ++ " vectors and " ++
      toString metadata ++ " metadata entries"
  | poolTimeout milliseconds =>
    "timed out after " ++ toString milliseconds ++ "ms waiting for a pooled connection"
  | searchTimeout seconds => "search timed out after " ++ toString seconds ++ "s"
  | unavailable backend reason => "vector backend " ++ backend ++ " unavailable: " ++ reason
  | runtime reason => "async runtime error: " ++ reason
  | aborted cause => cause.message

end CodeClones
