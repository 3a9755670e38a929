import CodeClones.Digest.Blake3
import CodeClones.FilePath
import CodeClones.Symbol.Kind
import CodeClones.Word

/-!
# Symbols

A symbol is a declaration found in a source file. Its identifier is a digest of the file path, the
name, the line and the kind.
-/

namespace CodeClones

/-- The scope of declarations outside classes and functions. -/
def moduleScope : String := "module"

/-- The scope of members of classes. -/
def classScope : String := "class"

/-- A declaration found in a source file. -/
structure Symbol where
  id : String
  name : String
  kind : Kind
  filePath : String
  /-- The first line, counted from one. -/
  lineNumber : Nat
  lineCount : Nat
  content : String
  scope : String
  parameters : Option (List String)
  returnType : Option String
  isImport : Bool
  deriving DecidableEq, Repr

namespace Symbol

/-- The text that an identifier is the digest of. -/
def identityText (filePath name : String) (lineNumber : Nat) (kind : Kind) : String :=
  normalizePath filePath ++ "\n" ++ name ++ "\n" ++ toString lineNumber ++ "\n" ++ kind.name

/-- The identifier of a symbol. -/
def identity (filePath name : String) (lineNumber : Nat) (kind : Kind) : String :=
  Digest.Blake3.hexOfText (identityText filePath name lineNumber kind)

/-- The digest of a text. -/
def contentDigest (content : String) : String := Digest.Blake3.hexOfText content

/-- A symbol in module scope whose content fills its lines. -/
def make (name : String) (kind : Kind) (filePath : String) (lineNumber : Nat)
    (content : String) : Symbol :=
  let filePath := normalizePath filePath
  let lineNumber := max lineNumber 1
  { id := identity filePath name lineNumber kind
    name, kind, filePath, lineNumber
    lineCount := max content.sourceLines.length 1
    content
    scope := moduleScope
    parameters := none
    returnType := none
    isImport := kind == .import }

end Symbol

/-- A declaration before it is tied to a file, with its first and last line counted from one. -/
structure Declaration where
  name : String
  kind : Kind
  startLine : Nat
  endLine : Nat
  content : String
  scope : String
  parameters : Option (List String) := none
  returnType : Option String := none
  deriving DecidableEq, Repr

/-- The symbol of a declaration in a file. -/
def Declaration.toSymbol (d : Declaration) (filePath : String) : Symbol :=
  { Symbol.make d.name d.kind filePath d.startLine d.content with
    lineCount := d.endLine - d.startLine + 1
    scope := d.scope
    parameters := d.parameters
    returnType := d.returnType }

/-- The symbol of a declaration whose lines are any words, not counted in a source. -/
def Declaration.symbolInWord (d : Declaration) (filePath : String) : Except Abort Symbol :=
  (word .sum (d.endLine - d.startLine + 1)).map fun _ => d.toSymbol filePath

end CodeClones
