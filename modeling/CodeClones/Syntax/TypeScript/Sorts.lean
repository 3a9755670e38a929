import CodeClones.Syntax.TypeScript.Lexicon

/-!
# Sorts and tokens of the TypeScript grammar

Keywords are words like any other: a rule that expects a name takes every word, and only places that
could go on either way refuse some. An expression that may end a line asks for the next token on the
same line.
-/

namespace CodeClones.Syntax.TypeScript

open Rule

/-- The sorts of the grammar that refer to each other. -/
inductive Sorts where
  | file
  | statement
  | block
  | expression
  /-- An expression that is no arrow function and no assignment. -/
  | conditional
  | operand
  /-- An operand with calls and accesses behind it. -/
  | postfixed
  | pattern
  | element
  | type
  /-- A type without a condition. -/
  | unionType
  /-- A type that binds stronger than unions and intersections. -/
  | typeTerm
  | typeArguments
  | objectType
  | classBody
  | callSignature

/-- A fixed token. -/
def tok (s : String) : Rule Sorts := .leaf s false (token lead (fixed s))

/-- A fixed token that must not be the start of a longer one. -/
def tokBefore (s : String) (refused : List Char) : Rule Sorts :=
  .leaf s false (token lead (fixedBefore s refused))

/-- A fixed token that opens a bracket. -/
def openTok (s : String) : Rule Sorts := .leaf s false (opening lead (fixed s))

/-- A fixed token that closes a bracket. -/
def closeTok (s : String) : Rule Sorts := .leaf s false (closing lead (fixed s))

/-- A keyword. -/
def kw (s : String) : Rule Sorts := .leaf s false (token lead (wholeWord isIdentifierPart s))

/-- A keyword on the line where the last token ended. -/
def kwHere (s : String) : Rule Sorts := .seq (.silent sameLine) (kw s)

/-- Any word as a node. -/
def word (kind : String) : Rule Sorts := .leaf kind true (token lead identifier)

/-- A word other than the given ones. -/
def wordExcept (refused : List String) (kind : String) : Rule Sorts :=
  .leaf kind true (token lead fun src i =>
    (identifier src i).filter fun j => !refused.contains (slice src i j))

/-- The first of several tokens that can be taken. -/
def firstOf (choices : List Recogniser) : Recogniser := fun src i =>
  choices.findSome? fun r => r src i

/-- Items in round brackets with commas between them. -/
def inParens (item : Rule Sorts) : Rule Sorts :=
  all [openTok "(", item, closeTok ")"]

/-- Items in square brackets. -/
def inSquares (item : Rule Sorts) : Rule Sorts :=
  all [openTok "[", item, closeTok "]"]

/-- Items in curly brackets inside which line ends carry no meaning. -/
def inCurlies (item : Rule Sorts) : Rule Sorts :=
  all [openTok "\x7b", item, closeTok "\x7d"]

/-- Items in curly brackets inside which line ends close what stands before them. -/
def inBlock (items : Rule Sorts) : Rule Sorts :=
  all [.leaf "\x7b" false blockOpening, items, .leaf "\x7d" false blockClosing]

/-- Items with commas between them, any of which may be missing. -/
def commaList (item : Rule Sorts) : Rule Sorts := listOf (opt item) (tok ",")

/-- A semicolon, or a line end that closes an expression. -/
def semicolon : Rule Sorts := .alt (tok ";") (.silent (statementEnd true false))

/-- A semicolon, or a line end that closes a name or a type. -/
def plainSemicolon : Rule Sorts := .alt (tok ";") (.silent (statementEnd false false))

/-- The end of a signature, behind which no body may follow. -/
def signatureEnd : Rule Sorts := .alt (tok ";") (.silent (statementEnd false true))

def expression : Rule Sorts := .call .expression
def type : Rule Sorts := .call .type
def block : Rule Sorts := .call .block
def stringRule : Rule Sorts := .leaf "string" true (token lead string)
def numberRule : Rule Sorts := .leaf "number" true (token lead number)

def privateNameRule : Rule Sorts :=
  .leaf "private_property_identifier" true (token lead privateName)

def initializer : Rule Sorts := .seq (tokBefore "=" ['=', '>']) (.field "value" expression)

/-- A template whose inserted parts follow a rule. -/
def template (kind : String) (inserted : Rule Sorts) : Rule Sorts :=
  let part := .alt (.leaf "string_fragment" true (token adjacent templateText))
    (.node "template_substitution" (all [.leaf "$\x7b" false (opening adjacent (fixed "$\x7b")),
      inserted, closeTok "\x7d"]))
  .node kind (all [tok "`", .many part, .leaf "`" false (token adjacent (fixed "`"))])

/-- The name of a member of a class, an object or an enumeration. -/
def memberName : Rule Sorts :=
  any [
    word "property_identifier",
    privateNameRule,
    stringRule,
    numberRule,
    .node "computed_property_name" (inSquares expression)]

/-- Succeeds where a word before it has been a name and not a modifier. -/
def endsName : Rule Sorts :=
  .silent (token lead (firstOf (["(", ")", "=", ":", "?", "!", ";", "<", ",", "\x7d"].map fixed)))

/-- A word that changes the member behind it. -/
def modifier (s : String) : Rule Sorts := .seq (kw s) (.unless endsName)

/-- An annotation with a type. -/
def typeAnnotation : Rule Sorts := .node "type_annotation" (.seq (tok ":") type)

def optTypeAnnotation : Rule Sorts := opt (.field "type" typeAnnotation)

end CodeClones.Syntax.TypeScript
