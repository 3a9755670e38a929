import CodeClones.Config.Basic
import CodeClones.Embedding.Model

/-!
# Embedding engines

An engine feeds texts to a model in chunks and checks what comes back: one vector for each text, each
of the dimension of the model. A probe at the start makes a broken model fail early.
-/

namespace CodeClones

/-- What a report says about an engine. -/
structure EngineInfo where
  model : String
  dimension : Nat
  batchSize : Nat
  normalize : Bool
  deriving DecidableEq, Repr

/-- A model with the calls it has had. -/
structure Engine where
  model : Model
  /-- Greatest number of texts in a call, never zero. -/
  batchSize : Nat
  normalize : Bool
  /-- The texts of every call so far, the last call first. -/
  calls : List (List String) := []

/-- The consecutive pieces of a list of at most `n` items, at least one. -/
def chunks (n : Nat) (items : List α) : List (List α) :=
  match items with
  | [] => []
  | x :: rest => (x :: rest).take (n - 1 + 1) :: chunks n ((x :: rest).drop (n - 1 + 1))
termination_by items.length
decreasing_by
  simp only [List.length_drop, List.length_cons]
  omega

namespace Engine

/-- The text that a new engine tries its model on. -/
def probeText : String := "name: probe | type: function | content: probe"

/-- Calls the model. -/
def call (e : Engine) (texts : List String) : Engine × Except EmbedError (List Embedding) :=
  let calls := texts :: e.calls
  ({ e with calls }, e.model.answer calls)

/-- The vectors of one call, if they are as many as the texts and of the right dimension. -/
def checked (e : Engine) (texts : List String) (vectors : List Embedding) :
    Except EmbedError (List Embedding) :=
  if vectors.length ≠ texts.length then .error (.lengthMismatch texts.length vectors.length)
  else
    match vectors.find? fun v => v.length != e.model.dimension with
    | some v => .error (.wrongDimension e.model.dimension v.length)
    | none => .ok (if e.normalize then vectors.map Embedding.normalize else vectors)

/-- Embeds chunks one after the other up to the first failure. -/
def embedChunks (e : Engine) : List (List String) → Engine × Except EmbedError (List Embedding)
  | [] => (e, .ok [])
  | chunk :: rest =>
    let (e, answer) := e.call chunk
    match answer.bind (e.checked chunk) with
    | .error cause => (e, .error cause)
    | .ok vectors =>
      let (e, more) := e.embedChunks rest
      (e, more.map (vectors ++ ·))

/-- One vector for each text, in order. -/
def embed (e : Engine) (texts : List String) : Engine × Except EmbedError (List Embedding) :=
  e.embedChunks (chunks e.batchSize texts)

/-- An engine around a model that passes the probe, with the calls made so far. -/
def start (model : Model) (config : EmbeddingsConfig) : Except EmbedError Engine :=
  if model.dimension = 0 then
    .error (.unavailable ("model " ++ model.name ++ " reports zero dimensions"))
  else
    let (e, probe) := Engine.call
      { model, batchSize := max config.batchSize 1, normalize := config.normalize } [probeText]
    match probe with
    | .error cause => .error cause
    | .ok [v] =>
      if v.length = model.dimension then .ok e
      else
        .error (.unavailable ("model " ++ model.name ++ " produced " ++ toString v.length ++
          " dimensions, expected " ++ toString model.dimension))
    | .ok vectors => .error (.lengthMismatch 1 vectors.length)

/-- What a report says about the engine. -/
def info (e : Engine) : EngineInfo := ⟨e.model.name, e.model.dimension, e.batchSize, e.normalize⟩

end Engine

end CodeClones
