import CodeClones.Json.Value
import CodeClones.Symbol.Basic

/-!
# Symbols as metadata

A symbol is stored beside its vector as a JSON object and restored from it. Restoring checks the
required fields in a fixed order and finally that a stored identifier is that of the fields.
-/

namespace CodeClones

/-- Why stored metadata is no symbol. -/
inductive MetadataError where
  | missingField (field : String)
  | invalidField (field reason : String)
  deriving DecidableEq, Repr

/-- The text of a metadata error. -/
def MetadataError.message : MetadataError → String
  | .missingField field => "stored metadata is missing field '" ++ field ++ "'"
  | .invalidField field reason =>
    "stored metadata field '" ++ field ++ "' is invalid: " ++ reason

namespace Symbol

/-- The metadata of a symbol. -/
def toMetadata (s : Symbol) : Json.Object :=
  Json.Object.ofList <|
    [("id", .string s.id), ("name", .string s.name), ("kind", .string s.kind.name),
      ("file_path", .string s.filePath), ("line_number", .ofNat s.lineNumber),
      ("line_count", .ofNat s.lineCount), ("content", .string s.content),
      ("content_hash", .string (contentDigest s.content)), ("scope", .string s.scope),
      ("is_import", .bool s.isImport)] ++
    (s.parameters.map fun ps => ("parameters", Json.Value.array (ps.map .string))).toList ++
    (s.returnType.map fun t => ("return_type", Json.Value.string t)).toList

/-- A required text field. -/
def requiredText (m : Json.Object) (field : String) : Except MetadataError String :=
  match m.get? field with
  | none => .error (.missingField field)
  | some v =>
    match v.asString? with
    | some s => .ok s
    | none => .error (.invalidField field "expected a string")

/-- A required count. -/
def requiredCount (m : Json.Object) (field : String) : Except MetadataError Nat :=
  match m.get? field with
  | none => .error (.missingField field)
  | some v =>
    match v.asWord? with
    | some n => .ok n
    | none => .error (.invalidField field "expected a non-negative integer")

/-- The symbol that stored metadata describes. -/
def ofMetadata (m : Json.Object) : Except MetadataError Symbol := do
  let name ← requiredText m "name"
  let filePath ← requiredText m "file_path"
  let kindText ← requiredText m "kind"
  let kind ← match Kind.ofName? kindText with
    | some kind => .ok kind
    | none => .error (.invalidField "kind" (Kind.refusal kindText))
  let lineNumber ← requiredCount m "line_number"
  let content ← requiredText m "content"
  let base := make name kind filePath lineNumber content
  let symbol : Symbol :=
    { base with
      lineCount := match (m.get? "line_count").bind (·.asWord?) with
        | some n => max n 1
        | none => base.lineCount
      scope := ((m.get? "scope").bind (·.asString?)).getD base.scope
      parameters := ((m.get? "parameters").bind (·.asArray?)).map (·.filterMap (·.asString?))
      returnType := (m.get? "return_type").bind (·.asString?)
      isImport := ((m.get? "is_import").bind (·.asBool?)).getD (kind == .import) }
  match (m.get? "id").bind (·.asString?) with
  | some stored =>
    if stored = symbol.id then .ok symbol
    else .error (.invalidField "id" ("expected " ++ symbol.id ++ ", found " ++ stored))
  | none => .ok symbol

end Symbol

end CodeClones
