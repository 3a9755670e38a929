/-!
# Syntax trees

A node has a kind, a range of characters in its source, and its parts in order. Nodes of fixed
tokens such as keywords are anonymous and carry the token as their kind. A part may carry the name
of the field it fills in the node above it.
-/

namespace CodeClones.Syntax

/-- A node of a syntax tree. -/
inductive Node where
  | mk (kind : String) (named : Bool) (field : Option String) (start stop : Nat)
    (children : List Node)
  deriving Inhabited

namespace Node

/-- The kind of a node. -/
def kind : Node → String
  | mk kind .. => kind

/-- Whether the node is more than a fixed token. -/
def isNamed : Node → Bool
  | mk _ named .. => named

/-- The field that the node fills in the node above it. -/
def field? : Node → Option String
  | mk _ _ field .. => field

/-- The place of the first character. -/
def start : Node → Nat
  | mk _ _ _ start .. => start

/-- The place behind the last character. -/
def stop : Node → Nat
  | mk _ _ _ _ stop _ => stop

/-- The parts in order. -/
def children : Node → List Node
  | mk _ _ _ _ _ children => children

/-- The parts that are more than fixed tokens. -/
def namedChildren (n : Node) : List Node := n.children.filter isNamed

/-- The first part that fills a field. -/
def child? (n : Node) (field : String) : Option Node :=
  n.children.find? fun c => c.field? == some field

/-- Whether the node is a comment. -/
def isComment (n : Node) : Bool := ["comment", "line_comment", "block_comment"].contains n.kind

/-- The node with a field label. -/
def label (field : String) : Node → Node
  | mk kind named _ start stop children => mk kind named (some field) start stop children

/-- The node with further parts in front. -/
def adopt (before : List Node) : Node → Node
  | mk kind named field start stop children =>
    mk kind named field ((before.head?.map Node.start).getD start) stop (before ++ children)

end Node

end CodeClones.Syntax
