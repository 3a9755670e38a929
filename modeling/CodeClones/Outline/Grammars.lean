import CodeClones.Language
import CodeClones.Outline.Python
import CodeClones.Outline.Rust
import CodeClones.Outline.TypeScript
import CodeClones.Syntax.Parsers

/-!
# Languages with a grammar

A grammar serves files by their extension. A file whose tree has an error has no symbols.
-/

namespace CodeClones

open Syntax

/-- A language whose files are read with a grammar. -/
structure GrammarEntry where
  id : String
  language : Language
  extensions : List String
  /-- Its parser. -/
  parse? : Parsers → Source → Option Node
  dialect : Dialect

namespace GrammarEntry

/-- All grammars, in order. -/
def all : List GrammarEntry := [
  ⟨"python", .python, ["py", "pyi"], Parsers.python, Outline.Python.dialect⟩,
  ⟨"rust", .rust, ["rs"], Parsers.rust, Outline.Rust.dialect⟩,
  ⟨"typescript", .typeScript, ["ts", "mts", "cts"], Parsers.typeScript,
    Outline.TypeScript.dialect⟩,
  ⟨"tsx", .typeScript, ["tsx"], Parsers.tsx, Outline.TypeScript.dialect⟩]

/-- An extension without leading dots, blanks around it and capitals. -/
def normalExtension (ext : String) : String :=
  String.ofList ((Text.trim (ext.toList.dropWhile (· == '.'))).map Char.toLower)

/-- The grammar for an extension. -/
def ofExtension? (ext : String) : Option GrammarEntry :=
  all.find? fun e => e.extensions.contains (normalExtension ext)

/-- The grammar for a file. -/
def ofPath? (path : String) : Option GrammarEntry :=
  (FilePath.extension? path).bind ofExtension?

/-- The grammar with an identifier. -/
def ofId? (id : String) : Option GrammarEntry := all.find? fun e => e.id == id

/-- The symbols of a source text, none if its tree has an error. -/
def symbols (e : GrammarEntry) (parsers : Parsers) (filePath source : String) : List Symbol :=
  let src := SourceText.of source
  match e.parse? parsers src.chars with
  | some root => e.dialect.symbols src filePath root
  | none => []

end GrammarEntry

end CodeClones
