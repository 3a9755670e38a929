import CodeClones.Config.Workspace
import CodeClones.Digest.Sha256
import CodeClones.Embedding.Model
import CodeClones.Json.Reader

/-!
# Files of a language model

A model lies in a directory of its own with a list of checksums. It is used only if every required
file has the listed digest. Running a language model is not part of this library: once the files and
the configuration are accepted, the model is reported as one whose words cannot be read.
-/

namespace CodeClones

/-- The files of a model that must be there. -/
def requiredFiles : List String := ["config.json", "tokenizer.json", "model.safetensors"]

/-- The only dimension in use. -/
def languageModelDimension : Nat := 1024

/-- The model that is used unless another one is named. -/
def defaultModel : String := "Qwen/Qwen3-Embedding-0.6B"

/-- The name of a model's directory. -/
def modelDirName (model : String) : String :=
  Text.lowerLatin (String.ofList (model.toList.flatMap fun c => if c = '/' then ['-', '-'] else [c]))

/-- The directory of a model in a workspace. -/
def modelDir (root model : String) : String :=
  FilePath.join (FilePath.join (settingsDir root) "models") (modelDirName model)

/-- The digest and the file name on a line of a list of checksums. -/
def checksumLine? (line : String) : Option (String × String) :=
  match Text.fields Text.isBlank line.toList with
  | digest :: name :: _ => some (String.ofList digest, String.ofList name)
  | _ => none

/-- The list of checksums in a model's directory. -/
def checksumsFile (dir : String) : String := FilePath.join dir "checksums.txt"

/-- The present digest of a file of a model, if there is such a file. -/
def modelDigest? (t : Tree) (dir name : String) : Except FileError (Option String) :=
  if t.holds (FilePath.join dir name) then
    (t.read (FilePath.join dir name)).map fun bytes => some (Digest.Sha256.hexOf bytes)
  else .ok none

/-- The lines of a file without their line ends, each with its text if it is one. The bytes of the
present line that were read come first, the last one in front. -/
def linesOfBytes (line : List UInt8) : List UInt8 → List (Option String)
  | [] => if line.isEmpty then [] else [String.fromUTF8? ⟨line.reverse.toArray⟩]
  | byte :: rest =>
    if byte = 10 then
      ((String.fromUTF8? ⟨line.reverse.toArray⟩).map fun text =>
        String.ofList (Text.dropReturn text.toList)) :: linesOfBytes [] rest
    else linesOfBytes (byte :: line) rest

/-- Goes through the lines of a list of checksums up to the first one that is no text or names a
required file with a digest other than its present one. In the end every required file must have
been seen. -/
def checkLines (digest? : String → Except FileError (Option String)) (seen : List String) :
    List (Option String) → Except FileError Bool
  | [] => .ok (requiredFiles.all seen.contains)
  | none :: _ => .error .notText
  | some line :: rest =>
    match checksumLine? line with
    | none => checkLines digest? seen rest
    | some (digest, name) =>
      if requiredFiles.contains name then
        match digest? name with
        | .error cause => .error cause
        | .ok present =>
          if present = some digest then checkLines digest? (name :: seen) rest else .ok false
      else checkLines digest? seen rest

/-- Whether the files of a model have the digests in its list of checksums. -/
def verifyChecksums (t : Tree) (dir : String) : Except FileError Bool :=
  if t.holds (checksumsFile dir) then
    match t.read (checksumsFile dir) with
    | .error cause => .error cause
    | .ok bytes => checkLines (modelDigest? t dir) [] (linesOfBytes [] bytes.toList)
  else .ok false

/-- The line of a list of checksums about a file. -/
def checksumText (digest name : String) : String := digest ++ "  " ++ name ++ "\n"

/-- Writes the line about a file of a model to its list of checksums, behind the text that it has.
Gives the text of the list with it. -/
def writeLine (t : Tree) (dir text name : String) : Except FileError (Tree × String) := do
  let bytes ← t.read (FilePath.join dir name)
  let text := text ++ checksumText (Digest.Sha256.hexOf bytes) name
  let t ← t.write (checksumsFile dir) text.toUTF8
  .ok (t, text)

/-- Writes the lines about files of a model one after the other. -/
def writeLines (t : Tree) (dir text : String) : List String → Except FileError Tree
  | [] => .ok t
  | name :: rest => do
    let written ← writeLine t dir text name
    writeLines written.1 dir written.2 rest

/-- Writes a new list of checksums for the required files of a model. -/
def writeChecksums (t : Tree) (dir : String) : Except FileError Tree :=
  match t.write (checksumsFile dir) "".toUTF8 with
  | .error cause => .error cause
  | .ok t => writeLines t dir "" requiredFiles

/-- Whether the files of a model are there and intact. -/
def modelIsIntact (t : Tree) (dir : String) : Except FileError Bool :=
  if requiredFiles.all fun name => t.holds (FilePath.join dir name) then verifyChecksums t dir
  else .ok false

/-- The width of the hidden layers that a model's configuration states. -/
def hiddenSize? (config : Json.Value) : Option Nat :=
  match config with
  | .object _ => (config.get? "hidden_size").bind Json.Value.asWord?
  | .array [v] => v.asWord?
  | _ => none

/-- Names of functions between layers. -/
def activations : List String :=
  ["gelu", "gelu_new", "newgelu", "relu", "relu2", "relu6", "silu", "sigmoid", "hardsigmoid",
    "swiglu", "swish", "mish", "hardswish", "gelupytorchtanh", "gelu_pytorch_tanh"]

/-- Whether a model's configuration states all that is needed to build the model. -/
def describesModel (config : Json.Value) : Bool :=
  let words := ["vocab_size", "hidden_size", "intermediate_size", "num_hidden_layers",
    "num_attention_heads", "num_key_value_heads", "max_position_embeddings", "sliding_window",
    "max_window_layers"]
  let isNumber : Json.Value → Bool := fun v => match v with
    | .number _ => true
    | _ => false
  words.all (fun w => ((config.get? w).bind Json.Value.asWord?).isSome) &&
    ["tie_word_embeddings", "use_sliding_window"].all (fun w =>
      ((config.get? w).bind Json.Value.asBool?).isSome) &&
    ["rope_theta", "rms_norm_eps"].all (fun w => (config.get? w).any isNumber) &&
    match config.get? "hidden_act" with
    | some (.string name) => activations.contains name
    | some (.object [(name, v)]) => (name == "elu" || name == "leakyrelu") && isNumber v
    | _ => false

/-- Loads a language model from its directory. -/
def loadLanguageModel (t : Tree) (dir : String) : Except EmbedError Model :=
  match modelIsIntact t dir with
  | .error cause => .error (.io cause)
  | .ok false => .error (.unavailable ("model not found at " ++ dir))
  | .ok true =>
    match t.readText (FilePath.join dir "config.json") with
    | .error cause => .error (.io cause)
    | .ok text =>
      match Json.Value.ofText? text with
      | none => .error .json
      | some config =>
        match hiddenSize? config with
        | none => .error .json
        | some size =>
          if size ≠ languageModelDimension then
            .error (.unavailable ("unexpected model hidden size " ++ toString size ++
              " (expected " ++ toString languageModelDimension ++ ")"))
          else if describesModel config then .error .tokenizer
          else .error .json

/-- The model of a configuration. -/
def loadModel (root : String) (t : Tree) (config : EmbeddingsConfig) : Except EmbedError Model :=
  match config.provider with
  | .mock => .ok (Model.hashed config.dimension)
  | .candle => loadLanguageModel t (modelDir root (config.model.getD defaultModel))

end CodeClones
