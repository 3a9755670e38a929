import CodeClones.Outline.Walk

/-!
# Declarations in Python

Functions are methods directly inside a class. Assignments to a plain name declare only at module
scope, and imports everywhere.
-/

namespace CodeClones.Outline.Python

open Syntax

/-- Whether a name is written in capitals, digits and low lines with at least one letter. -/
def isConstantName (name : String) : Bool :=
  name.toList.any Char.isAlpha &&
    name.toList.all fun c => c.isUpper || c.isDigit || c == '_'

/-- The declaration of an assignment to a plain name. -/
def assignment (src : SourceText) (n : Node) (scope : Scope) : Option Declaration := do
  let assignment ← n.namedChildren.head?
  let left ← assignment.child? "left"
  if assignment.kind = "assignment" ∧ left.kind = "identifier" then
    let name ← src.fieldText? assignment "left"
    some (src.declaration n name (if isConstantName name then .constant else .variable) scope)
  else none

/-- The declaration of a node. -/
def declares (src : SourceText) (_ : Option Node) (n : Node) (scope : Scope) :
    Option Declaration :=
  match n.kind with
  | "function_definition" =>
    (src.namedBy n "name" (if scope = .class then .method else .function) scope).map fun d =>
      { d with
        parameters := (n.child? "parameters").map src.parameterNames
        returnType := src.fieldText? n "return_type" }
  | "class_definition" => src.namedBy n "name" .class scope
  | "import_statement" => src.namedBy n "name" .import scope
  | "import_from_statement" => src.namedBy n "module_name" .import scope
  | "expression_statement" => if scope = .module then assignment src n scope else none
  | _ => none

/-- The scope that a node opens. -/
def opens (n : Node) : Option Scope :=
  match n.kind with
  | "class_definition" => some .class
  | "function_definition" | "lambda" => some .function
  | _ => none

/-- How nodes become declarations. -/
def dialect : Dialect := ⟨declares, opens⟩

end CodeClones.Outline.Python
