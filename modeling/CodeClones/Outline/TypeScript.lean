import CodeClones.Outline.Walk

/-!
# Declarations in TypeScript

A variable whose value is a function declares a function in every scope; other variables declare
only at module scope. Methods are methods wherever they stand.
-/

namespace CodeClones.Outline.TypeScript

open Syntax

/-- The kind of symbol that a node declares by its name. -/
def kindOf? : String → Option Kind
  | "function_declaration" | "generator_function_declaration" => some .function
  | "method_definition" => some .method
  | "class_declaration" | "abstract_class_declaration" => some .class
  | "interface_declaration" => some .interface
  | "type_alias_declaration" | "enum_declaration" => some .type
  | _ => none

/-- A declaration with the parameters and the return type of a function. -/
def withSignature (src : SourceText) (function : Node) (d : Declaration) : Declaration :=
  let result := (function.child? "return_type").map fun annotation =>
    Text.trim ((src.textOf annotation).dropWhile (· == ':'))
  { d with
    parameters := (function.child? "parameters").map src.parameterNames
    returnType := (result.filter (!·.isEmpty)).map String.ofList }

/-- Whether a node declares constants. -/
def isConstant (n : Node) : Bool := (n.children.head?.map Node.kind) == some "const"

/-- The declaration of one variable. -/
def ofDeclarator (src : SourceText) (above : Option Node) (n : Node) (scope : Scope) :
    Option Declaration :=
  match (n.child? "value").filter fun v => ["arrow_function", "function_expression"].contains v.kind
  with
  | some value => (src.namedBy n "name" .function scope).map (withSignature src value)
  | none =>
    if scope = .module ∧ ((n.child? "name").any fun name => name.kind == "identifier") then
      src.namedBy n "name" (if above.any isConstant then .constant else .variable) scope
    else none

/-- The declaration of a node. -/
def declares (src : SourceText) (above : Option Node) (n : Node) (scope : Scope) :
    Option Declaration :=
  match n.kind with
  | "variable_declarator" => ofDeclarator src above n scope
  | "import_statement" =>
    (src.fieldText? n "source").map fun text =>
      let isQuote := fun c : Char => c == '"' || c == '\'' || c == '`'
      let name := Text.trimEndWith isQuote (Text.trimStartWith isQuote text.toList)
      src.declaration n (String.ofList name) .import scope
  | kind => do
    let d ← src.namedBy n "name" (← kindOf? kind) scope
    pure (if d.kind = .function ∨ d.kind = .method then withSignature src n d else d)

/-- The scope that a node opens. -/
def opens (n : Node) : Option Scope :=
  match n.kind with
  | "class_declaration" | "abstract_class_declaration" | "class" => some .class
  | "function_declaration" | "generator_function_declaration" | "method_definition"
  | "arrow_function" | "function_expression" => some .function
  | _ => none

/-- How nodes become declarations. -/
def dialect : Dialect := ⟨declares, opens⟩

end CodeClones.Outline.TypeScript
