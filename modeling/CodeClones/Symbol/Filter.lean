import CodeClones.Glob.Reader
import CodeClones.Symbol.Basic

/-!
# Symbols to compare

A filter keeps symbols of certain kinds that are no imports, are long enough and lie in files that no
exclusion pattern fits. A pattern without a slash or two stars at its start fits in any directory.
-/

namespace CodeClones

/-- Which symbols are compared. -/
structure SymbolFilter where
  kinds : List Kind
  /-- Least number of characters of the content without blanks around it. -/
  minLength : Nat
  exclusions : List Glob

namespace SymbolFilter

/-- The globs that an exclusion pattern stands for. -/
def globsOf (pattern : String) : List String :=
  let text := pattern.trimBlanks
  if text.isEmpty then []
  else if text.startsWith "/" || text.startsWith "**" then [text]
  else [text, "**/" ++ text]

/-- The filter for some kinds, a least length and exclusion patterns. -/
def make (kinds : List Kind) (minLength : Nat) (patterns : List String) :
    Except RefusedGlob SymbolFilter :=
  (Glob.parseAll (patterns.flatMap globsOf)).map fun exclusions => { kinds, minLength, exclusions }

/-- Whether the symbols of a file are left out. -/
def excludes (f : SymbolFilter) (path : String) : Bool :=
  Glob.fitsAny f.exclusions (normalizePath path)

/-- Whether a symbol is compared. -/
def accepts (f : SymbolFilter) (s : Symbol) : Bool :=
  f.kinds.contains s.kind && !s.isImport && f.minLength ≤ s.content.trimBlanks.length &&
    !f.excludes s.filePath

/-- The symbols that are compared. -/
def apply (f : SymbolFilter) (symbols : List Symbol) : List Symbol := symbols.filter f.accepts

end SymbolFilter

end CodeClones
