import CodeClones.Syntax.TypeScript.Types

/-!
# Expressions of TypeScript

An arrow function is tried before any other expression, since its parameters look like an expression
up to the arrow. Chains of operators are nested from the left whatever the operators. With elements,
an operand may be an element between tags; without, it may be an operand behind a type in angle
brackets.
-/

namespace CodeClones.Syntax.TypeScript

open Rule

def operand : Rule Sorts := .call .operand
def postfixed : Rule Sorts := .call .postfixed
def pattern : Rule Sorts := .call .pattern

/-- One or more expressions with commas between them. -/
def expressions : Rule Sorts := sepBy1 expression (tok ",")

def parenthesized : Rule Sorts := .node "parenthesized_expression" (inParens expressions)

def spread : Rule Sorts := .node "spread_element" (.seq (tok "...") expression)

def argumentList : Rule Sorts :=
  .field "arguments" (.node "arguments" (inParens (commaList (.alt spread expression))))

/-! ## Patterns -/

/-- A name, or a member of one. -/
def assignable : Rule Sorts :=
  .chain (word "identifier") (any [
    .node "member_expression" (.seq (tokBefore "." ['.'])
      (.alt privateNameRule (word "property_identifier"))),
    .node "subscript_expression" (inSquares expression)])

def objectPattern : Rule Sorts :=
  let pair := .node "pair_pattern"
    (all [.field "key" memberName, tok ":", .field "value" pattern, opt initializer])
  let shorthand := .seq (word "shorthand_property_identifier_pattern") (opt initializer)
  let rest := .node "rest_pattern" (.seq (tok "...") pattern)
  .node "object_pattern" (inCurlies (commaList (any [rest, pair, shorthand])))

def arrayPattern : Rule Sorts :=
  .node "array_pattern" (inSquares (commaList (.seq pattern (opt initializer))))

def patternRule : Rule Sorts :=
  any [objectPattern, arrayPattern, .node "rest_pattern" (.seq (tok "...") pattern), assignable]

/-! ## Functions and objects -/

def methodDefinition : Rule Sorts :=
  .node "method_definition" (.seq methodHeader (.field "body" block))

def functionExpression : Rule Sorts :=
  let rest := all [opt (.field "name" (word "identifier")), callSignature, .field "body" block]
  .alt
    (.node "generator_function" (all [opt (kw "async"), kw "function", tok "*", rest]))
    (.node "function_expression" (all [opt (kw "async"), kw "function", rest]))

def arrowFunction : Rule Sorts :=
  let plain := .seq (.alt (.field "parameter" (.seq (word "identifier") (.ahead (tok "=>"))))
    callSignature) (.seq (tok "=>") (.field "body" (.alt block expression)))
  .node "arrow_function" (.alt (.seq (kw "async") plain) plain)

def object : Rule Sorts :=
  let pair := .node "pair" (all [.field "key" memberName, tok ":", .field "value" expression])
  .node "object" (inCurlies (commaList
    (any [spread, methodDefinition, pair, word "shorthand_property_identifier"])))

/-! ## Elements -/

/-- A name of a tag: words with dots or a colon between them. -/
def tagName : Rule Sorts :=
  let name := .leaf "identifier" true (token lead elementName)
  .seq name (.many (.seq (.alt (tok ".") (tok ":")) name))

def elementRule : Rule Sorts :=
  let inserted := .node "jsx_expression" (inCurlies (opt (any [spread, expressions])))
  let text := .leaf "string" true (token lead attributeText)
  let value := any [text, inserted, .call .element]
  let property := .node "jsx_attribute" (.seq tagName (opt (.seq (tok "=") value)))
  let properties := .many (.alt inserted property)
  let child := any [.leaf "jsx_text" true (token adjacent elementText), .call .element, inserted]
  let opened := .node "jsx_opening_element"
    (all [openTok "<", opt (all [tagName, opt typeArguments, properties]), closeTok ">"])
  let closed := .node "jsx_closing_element"
    (all [openTok "<", tok "/", opt tagName, closeTok ">"])
  .alt
    (.node "jsx_self_closing_element"
      (all [openTok "<", tagName, opt typeArguments, properties, tok "/", closeTok ">"]))
    (.node "jsx_element" (all [opened, .many child, closed]))

/-! ## Operands -/

/-- Words that are no variable where an operand starts. -/
def operandKeywords : List String :=
  ["class", "delete", "false", "function", "import", "new", "null", "super", "this", "true",
    "typeof", "undefined", "void"]

def decorator : Rule Sorts := .node "decorator" (.seq (tok "@") postfixed)

def decorators : Rule Sorts := .many (.field "decorator" decorator)

/-- What a class derives from. -/
def heritage : Rule Sorts :=
  let derived := .node "extends_clause"
    (all [kw "extends", .field "value" postfixed, opt typeArguments])
  let implemented := .node "implements_clause"
    (.seq (kw "implements") (sepBy1 type (tok ",")))
  opt (.node "class_heritage" (.alt (.seq derived (opt implemented)) implemented))

/-- A class behind its keyword and its name. -/
def classRest : Rule Sorts :=
  all [opt typeParameters, heritage, .field "body" (.call .classBody)]

def classExpression : Rule Sorts :=
  let name := .field "name" (wordExcept ["extends", "implements"] "type_identifier")
  .node "class" (all [decorators, kw "class", opt name, classRest])

def atom : Rule Sorts :=
  let literal := fun s => .leaf s true (token lead (wholeWord isIdentifierPart s))
  any ([
    template "template_string" expressions,
    stringRule,
    numberRule,
    .leaf "regex" true (token lead regex),
    functionExpression,
    classExpression,
    object,
    .node "array" (inSquares (commaList (.alt spread expression))),
    parenthesized,
    .seq privateNameRule (.ahead (kw "in")),
    .seq (kw "import") (.ahead (openTok "(")),
    .node "meta_property" (all [kw "import", tok ".", kw "meta"]),
    .node "meta_property" (all [kw "new", tok ".", kw "target"])] ++
    ["this", "super", "null", "true", "false", "undefined"].map literal ++
    [wordExcept operandKeywords "identifier"])

/-- The dot of an access that may find nothing. -/
def optionalDot : Rule Sorts := tokBefore "?." "0123456789".toList

/-- Accesses to members. -/
def accesses : List (Rule Sorts) := [
  .node "member_expression" (.seq (.alt (tokBefore "." ['.']) optionalDot)
    (.field "property" (.alt privateNameRule (word "property_identifier")))),
  .node "subscript_expression" (.seq (opt optionalDot) (inSquares expressions))]

def newExpression : Rule Sorts :=
  .node "new_expression" (all [kw "new", .unless (tok "."),
    .field "constructor" (.chain atom (any accesses)), opt typeArguments, opt argumentList])

def postfixedRule : Rule Sorts :=
  let taggedText := .node "call_expression" (template "template_string" expressions)
  let call := .node "call_expression"
    (all [opt optionalDot, opt typeArguments, .alt argumentList taggedText])
  let nonNull := .node "non_null_expression" (.seq (.silent sameLine) (tokBefore "!" ['=']))
  let applied := .node "instantiation_expression"
    (.seq typeArguments (.ahead (any ([";", ")", ",", "]", "\x7d"].map tok))))
  .chain (.alt newExpression atom) (any (accesses ++ [call, nonNull, applied]))

def operandRule (elements : Bool) : Rule Sorts :=
  let unary := any [tokBefore "!" ['='], tok "~", tokBefore "-" ['-', '='],
    tokBefore "+" ['+', '='], kw "typeof", kw "void", kw "delete"]
  let step := any [tok "++", tok "--"]
  let angled := if elements then .call .element
    else .node "type_assertion" (.seq typeArguments operand)
  any [
    .node "await_expression" (.seq (kw "await") operand),
    .node "unary_expression" (.seq unary operand),
    .node "update_expression" (.seq step operand),
    angled,
    .graft ["identifier", "member_expression", "subscript_expression", "non_null_expression",
      "parenthesized_expression"] postfixed
      (.node "update_expression" (.seq (.silent sameLine) step))]

/-! ## Chains of operators -/

/-- An operator between two operands. -/
def binaryOperator : Recogniser :=
  firstOf (
    ["instanceof", "in"].map (wholeWord isIdentifierPart) ++
    [("&&", "="), ("||", "="), ("??", "="), (">>>", "="), (">>", ">="), ("<<", "="), ("**", "="),
      ("===", ""), ("!==", ""), ("==", "="), ("!=", "="), ("<=", ""), (">=", ""), ("<", "<="),
      (">", ">="), ("&", "&="), ("|", "|="), ("^", "="), ("+", "+="), ("-", "-="), ("*", "*="),
      ("/", "="), ("%", "=")].map fun (s, refused) => fixedBefore s refused.toList)

/-- An operator that changes a variable. -/
def assignmentOperator : Recogniser :=
  firstOf (["+=", "-=", "*=", "/=", "%=", "^=", "&=", "|=", ">>=", ">>>=", "<<=", "**=", "&&=",
    "||=", "??="].map fixed ++ [fixedBefore "=" ['=', '>']])

def conditionalRule : Rule Sorts :=
  let binary := .node "binary_expression"
    (.seq (.leaf "operator" false (token lead binaryOperator)) operand)
  let typed := fun (kind s : String) => .node kind (.seq (kwHere s) (.alt (kw "const") type))
  let mark := tokBefore "?" ['?', '.']
  let closeMark := .alt mark (.seq (tok "?") (.ahead numberRule))
  let choice := fun consequence => .node "ternary_expression"
    (all [closeMark, consequence, tok ":", .field "alternative" expression])
  .chain
    (.chain operand
      (any [binary, typed "as_expression" "as", typed "satisfies_expression" "satisfies"]))
    (.alt (choice expression) (choice (.call .conditional)))

def expressionRule : Rule Sorts :=
  let assign := .seq (.leaf "operator" false (token lead assignmentOperator))
    (.field "right" expression)
  let destructured := .node "assignment_expression"
    (all [.alt objectPattern arrayPattern, tokBefore "=" ['=', '>'], .field "right" expression])
  let yielded := .node "yield_expression" (.seq (kw "yield")
    (any [.seq (tok "*") expression, .seq (.silent sameLine) expression, .done]))
  any [
    arrowFunction,
    destructured,
    .graft ["identifier", "member_expression", "subscript_expression", "non_null_expression",
      "parenthesized_expression"] (.alt (.seq (.ahead (kw "yield")) yielded) (.call .conditional))
      (.node "assignment_expression" assign)]

end CodeClones.Syntax.TypeScript
