import CodeClones.Digest.Fnv
import CodeClones.Embedding.Vector
import CodeClones.Text.Basic
import CodeClones.Workspace.Tree

/-!
# Embedding models

A model turns texts into vectors of one dimension. Its answer to a call may depend on the calls
before. The model of hashed words adds one to a component for every word, or takes one away, so that
texts with equal words have equal vectors.
-/

namespace CodeClones

/-- Why there are no vectors. -/
inductive EmbedError where
  | io (cause : FileError)
  /-- The configuration of the model cannot be read. -/
  | json
  /-- The words of the model cannot be read. -/
  | tokenizer
  | wrongDimension (expected actual : Nat)
  | lengthMismatch (expected actual : Nat)
  | unavailable (reason : String)
  deriving DecidableEq, Repr

/-- The text of an error. -/
def EmbedError.message : EmbedError → String
  | io cause => "io failed: " ++ cause.message
  | json => "model config decoding failed"
  | tokenizer => "tokenizer operation failed"
  | wrongDimension expected actual =>
    "invalid embedding response: expected " ++ toString expected ++ " dimensions, got " ++
      toString actual
  | lengthMismatch expected actual =>
    "embedding model returned " ++ toString actual ++ " vectors for " ++ toString expected ++
      " inputs"
  | unavailable reason => "embedding model unavailable: " ++ reason

/-- A model: its answer to the last of a row of calls, the earlier calls last. -/
structure Model where
  name : String
  dimension : Nat
  answer : List (List String) → Except EmbedError (List Embedding)

/-- The words of a text: runs of Latin letters and digits, in lower case. -/
def words (text : String) : List String :=
  (Text.fields (fun c => !c.isAlphanum) text.toList).map fun w =>
    Text.lowerLatin (String.ofList w)

/-- Adds a word to a vector at the place that its hash selects. -/
def addWord (v : Embedding) (word : String) : Embedding :=
  let hash := Digest.fnv1a word.toUTF8
  let sign : Float32 := if hash >>> 8 &&& 1 = 0 then 1 else -1
  v.modify (hash.toNat % v.length) (· + sign)

/-- The vector of the words of a text. -/
def hashedWords (dimension : Nat) (text : String) : Embedding :=
  (words text).foldl addWord (List.replicate dimension 0)

/-- The model of hashed words. -/
def Model.hashed (dimension : Nat) : Model :=
  let dimension := max dimension 1
  { name := "mock-hashed-tokens"
    dimension
    answer := fun calls => .ok ((calls.headD []).map (hashedWords dimension)) }

end CodeClones
