import CodeClones.Language
import CodeClones.Symbol.Kind
import CodeClones.Text.Classes
import CodeClones.Text.Pattern

/-!
# Patterns of declaring lines

For languages without a grammar, what a line declares is told from the line alone: each language has
patterns for imports and for the headers of declarations, and the name is the captured piece.
-/

namespace CodeClones

open Pattern

/-- How the lines of a language declare symbols. -/
structure LinePatterns where
  /-- Finds an import and captures what is imported. -/
  imports : Pattern Char
  /-- Patterns of headers, which capture the name, with the kind that they declare. -/
  headers : List (Pattern Char × Kind)
  /-- The header of a class. -/
  classHeader : Pattern Char
  /-- The word of a parameter that is its name. -/
  nameWord? : List (List Char) → Option (List Char)

namespace LinePatterns

/-- Blanks, maybe none. -/
def gap : Pattern Char := many (one Text.isBlank)

/-- At least one blank. -/
def space : Pattern Char := oneOrMore (one Text.isBlank)

/-- A word. -/
def word : Pattern Char := oneOrMore (one Text.isWord)

/-- A word and at least one blank, or nothing. -/
def modifier (w : String) : Pattern Char := maybe (row [text w, space])

/-- One of some words, or nothing. -/
def oneOfWords (ws : List String) : Pattern Char := maybe (firstOf (ws.map text))

/-- Characters outside parentheses, maybe none, between parentheses. -/
def parenthesized : Pattern Char := row [text "(", many (one (· != ')')), text ")"]

/-- A quoted text whose content is captured. -/
def quoted (isQuote : Char → Bool) : Pattern Char :=
  row [one isQuote, capture (oneOrMore (one (!isQuote ·))), one isQuote]

namespace JavaScript

/-- Modifiers before a class. -/
def classStart : Pattern Char :=
  row [gap, modifier "export", modifier "default", text "class", space]

/-- A quotation mark. -/
def isQuote (c : Char) : Bool := c == '\'' || c == '"'

/-- Functions, arrow functions bound to a name, classes, and imports of both styles. -/
def patterns : LinePatterns where
  imports := anywhere <| or
    (row [text "import", space, few (one (· != '\n')), text "from", space, quoted isQuote])
    (row [text "require(", quoted isQuote, text ")"])
  headers := [
    (row [gap, modifier "export", modifier "default", modifier "async", text "function", gap,
      maybe (text "*"), space, capture word, gap, text "("], .function),
    (row [gap, modifier "export", firstOf [text "const", text "let", text "var"], space,
      capture word, gap, text "=", gap, modifier "async", or parenthesized word, gap, text "=>"],
      .function),
    (row [classStart, capture word], .class)]
  classHeader := row [classStart, word]
  nameWord? := List.head?

end JavaScript

namespace Go

/-- The start of the declaration of a named type. -/
def typeStart (name : Pattern Char) : Pattern Char := row [gap, text "type", space, name, space]

/-- Functions and methods, structures and interfaces. -/
def patterns : LinePatterns where
  imports := row [gap, modifier "import", maybe (row [word, space]), quoted (· == '"'), gap, stop]
  headers := [
    (row [gap, text "func", space,
      maybe (row [text "(", word, space, maybe (text "*"), word, text ")", space]),
      capture word, gap, text "("], .function),
    (row [typeStart (capture word), text "struct"], .type),
    (row [typeStart (capture word), text "interface"], .interface)]
  classHeader := row [typeStart word, text "struct"]
  nameWord? := List.head?

end Go

namespace Java

/-- Who may use a declaration. -/
def access : Pattern Char := row [gap, oneOfWords ["public", "private", "protected"], gap]

/-- The start of the declaration of a class. -/
def classStart : Pattern Char :=
  row [access, modifier "static", modifier "final", modifier "abstract", text "class", space]

/-- Whether a character may occur in the name of a type. -/
def isTypeChar (c : Char) : Bool :=
  Text.isWord c || c == '<' || c == '>' || c == '[' || c == ']' || c == ','

/-- Whether a character may occur in a list of exceptions. -/
def isListChar (c : Char) : Bool := Text.isWord c || c == ',' || Text.isBlank c

/-- Classes, interfaces and methods with a body. -/
def patterns : LinePatterns where
  imports := row [gap, text "import", space, modifier "static",
    capture (oneOrMore (one (· != ';'))), text ";"]
  headers := [
    (row [classStart, capture word], .class),
    (row [access, text "interface", space, capture word], .interface),
    (row [access, modifier "static", modifier "final", modifier "synchronized",
      oneOrMore (row [oneOrMore (one isTypeChar), space]), capture word, gap, parenthesized, gap,
      maybe (row [text "throws", space, oneOrMore (one isListChar)]), gap, text "\x7b"],
      .function)]
  classHeader := row [classStart, word]
  nameWord? := List.getLast?

end Java

/-- The patterns of a language without a grammar. -/
def ofLanguage? : Language → Option LinePatterns
  | .javaScript => some JavaScript.patterns
  | .go => some Go.patterns
  | .java => some Java.patterns
  | _ => none

end LinePatterns

end CodeClones
