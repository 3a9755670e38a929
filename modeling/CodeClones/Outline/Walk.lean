import CodeClones.Symbol.Basic
import CodeClones.Syntax.Lexeme

/-!
# Declarations of a syntax tree

A dialect says which nodes declare something and which open a scope. The walk visits every named
node, gives it the scope that its nearest scope-opening ancestor opens, and collects declarations in
order.
-/

namespace CodeClones

open Syntax

/-- The container that a node lies in. -/
inductive Scope where
  | module
  | «class»
  | function
  deriving DecidableEq, Repr

/-- The name of a scope. -/
def Scope.name : Scope → String
  | .module => moduleScope
  | .class => classScope
  | .function => "function"

/-- A source with its lines. -/
structure SourceText where
  chars : Source
  lines : List String

/-- A source and its lines. -/
def SourceText.of (text : String) : SourceText := ⟨text.toList.toArray, text.sourceLines⟩

/-- How the nodes of a language become declarations. -/
structure Dialect where
  /-- The declaration of a node with the node above it, in a scope. -/
  declares : SourceText → Option Node → Node → Scope → Option Declaration
  /-- The scope that the parts of a node lie in, if the node opens one. -/
  opens : Node → Option Scope

mutual

/-- The declarations of a node and of the nodes below it. -/
def Dialect.outline (d : Dialect) (src : SourceText) (scope : Scope) (above : Option Node) :
    Node → List Declaration
  | .mk kind named field start stop children =>
    let n := Node.mk kind named field start stop children
    (d.declares src above n scope).toList ++
      d.outlineAll src ((d.opens n).getD scope) n children

/-- The declarations of the named nodes among the parts of a node. -/
def Dialect.outlineAll (d : Dialect) (src : SourceText) (scope : Scope) (above : Node) :
    List Node → List Declaration
  | [] => []
  | n :: rest =>
    (if n.isNamed then d.outline src scope (some above) n else []) ++
      d.outlineAll src scope above rest

end

/-- Drops every symbol with the identifier of the symbol before it. -/
def dropRepeats : List Symbol → List Symbol
  | [] => []
  | [s] => [s]
  | s :: t :: rest =>
    if s.id = t.id then
      dropRepeats (s :: rest)
    else s :: dropRepeats (t :: rest)
termination_by l => l.length

/-- The order of symbols in a file: by line, then by identifier. -/
def Symbol.before (a b : Symbol) : Bool :=
  a.lineNumber < b.lineNumber || (a.lineNumber == b.lineNumber && a.id ≤ b.id)

/-- The symbols of a tree in order, each identifier once. -/
def Dialect.symbols (d : Dialect) (src : SourceText) (filePath : String) (root : Node) :
    List Symbol :=
  dropRepeats <|
    ((d.outline src .module none root).map (·.toSymbol filePath)).mergeSort Symbol.before

namespace SourceText

/-- The text of a node, empty unless the node has a place in the source. -/
def textOf (src : SourceText) (n : Node) : List Char :=
  if n.start < n.stop ∧ n.stop ≤ src.chars.size then (src.chars.extract n.start n.stop).toList
  else []

/-- The text of the part that fills a field, without blanks around it, unless that is empty. -/
def fieldText? (src : SourceText) (n : Node) (field : String) : Option String :=
  match n.child? field with
  | some child =>
    let text := Text.trim (src.textOf child)
    if text.isEmpty then none else some (String.ofList text)
  | none => none

/-- The number of lines that end before a place. -/
def row (src : SourceText) (place : Nat) : Nat :=
  (src.chars.extract 0 place).foldl (fun n c => if c = '\n' then n + 1 else n) 0

/-- The parameter names of a node that lists parameters. -/
def parameterNames (src : SourceText) (n : Node) : List String :=
  (n.namedChildren.filter fun c => c.kind != "comment").filterMap fun c =>
    let head := Text.trim ((src.textOf c).takeWhile fun c => c != ':' && c != '=')
    if head.isEmpty ∨ head = ['*'] ∨ head = ['/'] then none else some (String.ofList head)

/-- A declaration over the whole lines that a node touches. -/
def declaration (src : SourceText) (n : Node) (name : String) (kind : Kind) (scope : Scope) :
    Declaration :=
  let first := src.row n.start
  let last := src.row n.stop
  { name, kind
    startLine := first + 1
    endLine := last + 1
    content := "\n".intercalate ((src.lines.drop first).take (last - first + 1))
    scope := scope.name }

/-- A declaration named by a field of its node. -/
def namedBy (src : SourceText) (n : Node) (field : String) (kind : Kind) (scope : Scope) :
    Option Declaration :=
  (src.fieldText? n field).map fun name => src.declaration n name kind scope

end SourceText

end CodeClones
