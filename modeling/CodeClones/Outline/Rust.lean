import CodeClones.Outline.Walk

/-!
# Declarations in Rust

Functions are methods directly inside an implementation or a trait. Types of any form are classes,
traits are interfaces, and constants and statics are constants.
-/

namespace CodeClones.Outline.Rust

open Syntax

/-- The kind of symbol that a node declares by its name, in a scope. -/
def kindOf? (nodeKind : String) (scope : Scope) : Option Kind :=
  match nodeKind with
  | "function_item" | "function_signature_item" =>
    some (if scope = .class then .method else .function)
  | "struct_item" | "enum_item" | "union_item" => some .class
  | "trait_item" => some .interface
  | "type_item" => some .type
  | "const_item" | "static_item" => some .constant
  | _ => none

/-- The declaration of a node. -/
def declares (src : SourceText) (_ : Option Node) (n : Node) (scope : Scope) :
    Option Declaration :=
  if n.kind = "use_declaration" then src.namedBy n "argument" .import scope
  else do
    let kind ← kindOf? n.kind scope
    let d ← src.namedBy n "name" kind scope
    if kind = .function ∨ kind = .method then
      pure { d with
        parameters := (n.child? "parameters").map src.parameterNames
        returnType := src.fieldText? n "return_type" }
    else pure d

/-- The scope that a node opens. -/
def opens (n : Node) : Option Scope :=
  match n.kind with
  | "impl_item" | "trait_item" => some .class
  | "function_item" | "closure_expression" => some .function
  | _ => none

/-- How nodes become declarations. -/
def dialect : Dialect := ⟨declares, opens⟩

end CodeClones.Outline.Rust
