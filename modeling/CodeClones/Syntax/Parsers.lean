import CodeClones.Syntax.Python.Grammar
import CodeClones.Syntax.Rust.Grammar
import CodeClones.Syntax.TypeScript.Grammar

/-!
# Parsers

What reads a source by the grammar of its language. Which sources a parser accepts, and which trees it
gives, is up to the parser; the parsers of this library cover the common part of each language.
-/

namespace CodeClones.Syntax

/-- The parsers of the languages with a grammar. A parser gives the tree of a source, or nothing if
the tree has an error. -/
structure Parsers where
  python : Source → Option Node
  rust : Source → Option Node
  typeScript : Source → Option Node
  tsx : Source → Option Node

/-- The parsers of this library. -/
def Parsers.standard : Parsers where
  python := Python.parse?
  rust := Rust.parse?
  typeScript := TypeScript.parse? false
  tsx := TypeScript.parse? true

end CodeClones.Syntax
