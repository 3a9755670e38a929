import CodeClones.Syntax.Python.Layout
import CodeClones.Syntax.Python.Literal

/-!
# Grammar of Python

Words are keywords only where the grammar expects one: elsewhere any word is an identifier. Operands
of operator chains are siblings, since precedence is not recorded in the tree.
-/

namespace CodeClones.Syntax.Python

open Rule

/-- The sorts of the grammar that refer to each other. -/
inductive Sorts where
  | module
  | statement
  | suite
  | expression
  | operand
  | pattern
  | rightSide
  | casePattern
  | parameter
  | formatString (quote : Quote)
  | interpolation

/-- A fixed token. -/
def tok (s : String) : Rule Sorts := .leaf s false (token lead (fixed s))

/-- A fixed token that must not be the start of a longer one. -/
def tokBefore (s : String) (refused : List Char) : Rule Sorts :=
  .leaf s false (token lead (fixedBefore s refused))

/-- A keyword. -/
def kw (s : String) : Rule Sorts :=
  .leaf s false (token lead (wholeWord Text.isIdentifierPart s))

/-- The place is on the line of the token before it, or inside brackets. -/
def here : Rule Sorts := .silent near

/-- A fixed token that goes on with a complete statement. -/
def also (s : String) : Rule Sorts := .seq here (tok s)

/-- A keyword that goes on with a complete statement. -/
def alsoKw (s : String) : Rule Sorts := .seq here (kw s)

/-- An opening bracket. -/
def opens (s : String) : Rule Sorts := .leaf s false (opening lead (fixed s))

/-- A closing bracket. -/
def closes (s : String) : Rule Sorts := .leaf s false (closing lead (fixed s))

/-- Any word. -/
def word : Rule Sorts := .leaf "identifier" true (token lead nameEnd)

/-- Any word but the given keywords. -/
def wordBut (keywords : List String) : Rule Sorts := .seq (.unless (any (keywords.map kw))) word

/-- Words that are keywords where an operand starts. -/
def operandKeywords : List String := ["lambda", "not", "True", "False", "None"]

/-- A word as an operand. -/
def name : Rule Sorts := wordBut operandKeywords

/-- A word as the target of an assignment. -/
def target : Rule Sorts := wordBut ("in" :: operandKeywords)

/-- Words that are keywords where a statement starts. -/
def statementKeywords : List String :=
  ["import", "from", "assert", "return", "del", "raise", "pass", "break", "continue", "if", "for",
    "while", "try", "with", "def", "class", "global", "nonlocal"]

def expression : Rule Sorts := .call .expression
def pattern : Rule Sorts := .call .pattern

/-- Expressions with commas between them, perhaps one at the end. -/
def expressions : Rule Sorts :=
  all [expression, .many (all [also ",", here, expression]), opt (also ",")]

/-! ## Strings and atoms -/

/-- Every quote of strings with expressions. -/
def formatQuotes : List Quote :=
  ['"', '\''].flatMap fun mark =>
    [true, false].flatMap fun triple => [true, false].map fun raw => ⟨mark, triple, raw, true⟩

def stringLiteral : Rule Sorts :=
  .alt (.leaf "string" true (token lead plainString))
    (any (formatQuotes.map fun q => .call (.formatString q)))

/-- The text, the expressions and the end of a string with expressions. -/
def formatStringRule (q : Quote) : Rule Sorts :=
  .node "string" (all [
    .leaf "string_start" true (token lead (formatOpening q)),
    .many (.alt (.leaf "string_content" true (token adjacent (formatText q)))
      (.call .interpolation)),
    .leaf "string_end" true (token adjacent (formatClosing q))])

def comprehension : Rule Sorts :=
  .some (.alt
    (.node "for_in_clause" (all [opt (kw "async"), kw "for",
      .field "left" (listOf1 pattern (tok ",")), kw "in",
      .field "right" (sepBy1 expression (tok ","))]))
    (.node "if_clause" (.seq (kw "if") expression)))

def yieldRule : Rule Sorts :=
  .node "yield" (.seq (kw "yield")
    (.alt (all [here, kw "from", expression]) (opt (.seq here expressions))))

def interpolationRule : Rule Sorts :=
  .node "interpolation" (all [
    .leaf "\x7b" false (opening adjacent (fixed "\x7b")),
    .alt yieldRule (listOf1 expression (tok ",")),
    opt (tok "="),
    opt (.leaf "type_conversion" true (token lead conversion)),
    opt (.node "format_specifier" (.seq (tok ":") (.many (.alt
      (.leaf "text" false (token adjacent specificationText)) (.call .interpolation))))),
    closes "\x7d"])

/-- Items of a list, a set or a tuple, or one item with a comprehension. -/
def elements : Rule Sorts :=
  let item := any [yieldRule, .node "list_splat" (.seq (tok "*") expression), expression]
  .seq (sepBy1 item (tok ",")) (.alt comprehension (opt (tok ",")))

def pair : Rule Sorts :=
  .alt (.node "dictionary_splat" (.seq (tok "**") expression))
    (.node "pair" (all [.field "key" expression, tok ":", .field "value" expression]))

def atom : Rule Sorts :=
  any [
    .node "concatenated_string" (all [stringLiteral, here, stringLiteral,
      .many (.seq here stringLiteral)]),
    stringLiteral,
    .leaf "ellipsis" true (token lead (fixed "...")),
    .leaf "integer" true (token lead number),
    .leaf "true" true (token lead (wholeWord Text.isIdentifierPart "True")),
    .leaf "false" true (token lead (wholeWord Text.isIdentifierPart "False")),
    .leaf "none" true (token lead (wholeWord Text.isIdentifierPart "None")),
    name,
    .node "tuple" (all [opens "(", opt elements, closes ")"]),
    .node "list" (all [opens "[", opt elements, closes "]"]),
    .node "dictionary" (all [opens "\x7b",
      opt (.seq (sepBy1 pair (tok ",")) (.alt comprehension (opt (tok ",")))), closes "\x7d"]),
    .node "set" (all [opens "\x7b", elements, closes "\x7d"])]

/-! ## Calls and operators -/

def argument : Rule Sorts :=
  any [
    .node "dictionary_splat" (.seq (tok "**") expression),
    .node "list_splat" (.seq (tok "*") expression),
    .node "keyword_argument" (all [.field "name" name, tokBefore "=" ['='],
      .field "value" expression]),
    .seq expression (opt comprehension)]

def argumentList : Rule Sorts :=
  .node "argument_list"
    (all [opens "(", opt (sepBy1 argument (tok ",")), opt (tok ","), closes ")"])

def subscriptItem : Rule Sorts :=
  .alt
    (.node "slice" (all [opt expression, tokBefore ":" ['='], opt expression,
      opt (.seq (tok ":") (opt expression))]))
    (.alt (.node "list_splat" (.seq (tok "*") expression)) expression)

/-- An atom with attributes, subscripts and calls behind it. -/
def primary : Rule Sorts :=
  .chain atom (.seq here (any [
    .node "attribute" (.seq (tokBefore "." []) (.field "attribute" word)),
    .node "call" (.field "arguments" argumentList),
    .node "subscript" (all [opens "[", .field "subscript" (listOf1 subscriptItem (tok ",")),
      closes "]"])]))

def operandRule : Rule Sorts :=
  any [
    .node "unary_operator" (.seq (any [tok "+", tok "-", tok "~"]) (.call .operand)),
    .node "list_splat" (.seq (tokBefore "*" ['*']) (.call .operand)),
    .node "await" (all [kw "await", here, .call .operand]),
    primary]

def binaryOperator : Rule Sorts :=
  any [tokBefore "**" ['='], tokBefore "*" ['=', '*'], tokBefore "//" ['='],
    tokBefore "/" ['=', '/'], tokBefore "%" ['='], tokBefore "+" ['='], tokBefore "-" ['=', '>'],
    tokBefore "@" ['='],
    tokBefore "|" ['='], tokBefore "&" ['='], tokBefore "^" ['='], tokBefore "<<" ['='],
    tokBefore ">>" ['=']]

def comparison : Rule Sorts :=
  any [tok "==", tok "!=", tok "<=", tok ">=", tok "<>", tokBefore "<" ['<'], tokBefore ">" ['>'],
    kw "in", .seq (kw "not") (kw "in"), .seq (kw "is") (opt (kw "not"))]

def arithmetic : Rule Sorts :=
  sepBy1 (.call .operand) (.seq here binaryOperator)

def lambdaRule : Rule Sorts :=
  let parameter := any [
    .node "list_splat_pattern" (.seq (tokBefore "*" ['*']) word),
    .node "dictionary_splat_pattern" (.seq (tok "**") word),
    .leaf "keyword_separator" true (token lead (fixed "*")),
    .leaf "positional_separator" true (token lead (fixed "/")),
    .chain (.field "name" word)
      (.node "default_parameter" (.seq (tok "=") (.field "value" expression))),
    pattern]
  .node "lambda" (all [kw "lambda",
    opt (.field "parameters" (.node "lambda_parameters" (listOf1 parameter (tok ",")))),
    tok ":", .field "body" expression])

def notTest : Rule Sorts :=
  .seq (.many (kw "not"))
    (.alt lambdaRule (sepBy1 arithmetic (.seq here comparison)))

def expressionRule : Rule Sorts :=
  let disjunction := sepBy1 notTest (.seq here (.alt (kw "and") (kw "or")))
  let conditional := .chain disjunction (.node "conditional_expression"
    (all [alsoKw "if", disjunction, kw "else", expression]))
  .alt
    (.node "named_expression" (all [.field "name" name, here, tok ":=", .field "value" expression]))
    (.chain conditional (.node "as_pattern" (.seq (alsoKw "as")
      (.field "alias" (.node "as_pattern_target" expression)))))

/-! ## Assignments -/

def patternRule : Rule Sorts :=
  let dotted := .chain (.alt target (.seq (.unless (kw "in")) atom)) (.seq here (any [
    .node "attribute" (.seq (tok ".") (.field "attribute" word)),
    .node "call" (.field "arguments" argumentList),
    .node "subscript" (all [opens "[", .field "subscript" (listOf1 subscriptItem (tok ",")),
      closes "]"])]))
  let place := .only ["identifier", "attribute", "subscript"] dotted
  any [
    place,
    .node "list_splat_pattern" (.seq (tok "*") place),
    .node "tuple_pattern" (all [opens "(", opt (listOf1 pattern (tok ",")), closes ")"]),
    .node "list_pattern" (all [opens "[", opt (listOf1 pattern (tok ",")), closes "]"])]

/-- One target, or several with commas between them. -/
def leftSide : Rule Sorts :=
  .alt
    (.seq pattern (.unless (also ",")))
    (.node "pattern_list" (.seq pattern (.seq (.many (.seq (also ",") pattern)) (opt (also ",")))))

def augmentedOperator : Rule Sorts :=
  any (["+=", "-=", "*=", "/=", "@=", "//=", "%=", "**=", ">>=", "<<=", "&=", "^=", "|="].map tok)

def typeRule : Rule Sorts :=
  .node "type" (.alt (.seq (.alt (tok "**") (tok "*")) word) expression)

/-- An assignment behind its left side. -/
def assignmentTail : Rule Sorts :=
  let right := .field "right" (.call .rightSide)
  .alt
    (.node "augmented_assignment" (all [here, augmentedOperator, right]))
    (.node "assignment" (.seq here (.alt
      (.seq (tokBefore "=" ['=']) right)
      (all [tokBefore ":" ['='], .field "type" typeRule,
        opt (all [here, tokBefore "=" ['='], right])]))))

/-- A left side with the assignment that it belongs to. -/
def assignment : Rule Sorts :=
  .only ["assignment", "augmented_assignment"] (.chain (.field "left" leftSide) assignmentTail)

def rightSideRule : Rule Sorts := any [assignment, yieldRule, expressions]

/-! ## Simple statements -/

def dottedName : Rule Sorts := .node "dotted_name" (sepBy1 word (tok "."))

def importList : Rule Sorts :=
  let item := .chain dottedName
    (.node "aliased_import" (.seq (alsoKw "as") (.field "alias" word)))
  listOf1 (.field "name" item) (also ",")

/-- Names to import, in parentheses or not. -/
def importedNames : Rule Sorts := .alt (all [opens "(", importList, closes ")"]) importList

def importFrom : Rule Sorts :=
  let relative := .node "relative_import" (.seq (.node "import_prefix" (.some (tok ".")))
    (opt (.seq (.unless (kw "import")) dottedName)))
  .node "import_from_statement" (all [kw "from", .field "module_name" (.alt relative dottedName),
    kw "import", .alt (.leaf "wildcard_import" true (token lead (fixed "*"))) importedNames])

def printStatement : Rule Sorts :=
  let startsOperand : Scanner := token lead fun src i =>
    if charIs (fun c => startsName c || c.isDigit || isQuote c) src i then some i else none
  .node "print_statement" (.alt
    (all [kw "print", here, .node "chevron" (.seq (tok ">>") expression),
      .many (.seq (also ",") expression), opt (also ",")])
    (all [kw "print", here, .ahead (.silent startsOperand),
      .unless (any (["if", "in", "is", "and", "or", "not", "as", "else", "for"].map kw)),
      expressions]))

def simpleStatement : Rule Sorts :=
  any [
    .node "future_import_statement" (all [kw "from", kw "__future__", kw "import", importedNames]),
    .node "import_statement" (.seq (kw "import") importList),
    importFrom,
    .node "assert_statement" (.seq (kw "assert") (sepBy1 expression (also ","))),
    .node "return_statement" (.seq (kw "return") (opt (.seq here expressions))),
    .node "delete_statement" (.seq (kw "del") expressions),
    .node "raise_statement" (all [kw "raise", opt (.seq here expressions),
      opt (.seq (alsoKw "from") expression)]),
    .node "pass_statement" (kw "pass"),
    .node "break_statement" (kw "break"),
    .node "continue_statement" (kw "continue"),
    .node "global_statement" (.seq (kw "global") (sepBy1 word (also ","))),
    .node "nonlocal_statement" (.seq (kw "nonlocal") (sepBy1 word (also ","))),
    printStatement,
    .node "exec_statement" (all [kw "exec", here, stringLiteral,
      opt (.seq (alsoKw "in") (sepBy1 expression (also ",")))]),
    .node "type_alias_statement" (all [kw "type", here, typeRule, tokBefore "=" ['='], typeRule]),
    .seq (.unless (any (statementKeywords.map kw)))
      (.node "expression_statement" (any [assignment, yieldRule, expressions]))]

/-- Simple statements on one line. -/
def simpleStatements : Rule Sorts :=
  all [simpleStatement, .many (.seq (also ";") (.seq here simpleStatement)), opt (also ";"),
    .silent newline]

/-! ## Compound statements -/

/-- Goes to the next statement or clause of the open block. -/
def next : Rule Sorts := .silent boundary

def suiteRule : Rule Sorts :=
  any [
    .seq here (.node "block" simpleStatements),
    .seq (.silent indent) (.node "block" (.seq (.many (.seq next (.call .statement)))
      (.silent dedent))),
    .node "block" (.silent newline)]

/-- A colon and the block behind it. -/
def body (field : String) : Rule Sorts := .seq (tok ":") (.field field (.call .suite))

def elseClause : Rule Sorts := .node "else_clause" (.seq (kw "else") (body "body"))

def optElse : Rule Sorts := opt (.seq next (.field "alternative" elseClause))

def ifStatement : Rule Sorts :=
  .node "if_statement" (all [kw "if", .field "condition" expression, body "consequence",
    .many (.seq next (.field "alternative"
      (.node "elif_clause" (all [kw "elif", expression, body "consequence"])))),
    optElse])

def forStatement : Rule Sorts :=
  .node "for_statement" (all [opt (kw "async"), kw "for", .field "left" leftSide, kw "in",
    .field "right" expressions, body "body", optElse])

def whileStatement : Rule Sorts :=
  .node "while_statement" (all [kw "while", .field "condition" expression, body "body", optElse])

def exceptClause : Rule Sorts :=
  .node "except_clause" (all [kw "except", opt (tok "*"),
    opt (.seq expression (.many (.seq (tok ",") expression))), body "body"])

def tryStatement : Rule Sorts :=
  let finallyClause := .node "finally_clause" (.seq (kw "finally") (body "body"))
  .node "try_statement" (all [kw "try", body "body",
    .alt
      (all [.some (.seq next exceptClause), optElse, opt (.seq next finallyClause)])
      (.seq next finallyClause)])

def withStatement : Rule Sorts :=
  let item := .node "with_item" (.field "value" expression)
  .node "with_statement" (all [opt (kw "async"), kw "with",
    .node "with_clause" (.alt
      (all [opens "(", listOf1 item (tok ","), closes ")", .ahead (tok ":")])
      (listOf1 item (tok ","))),
    body "body"])

def parameterRule : Rule Sorts :=
  let splat := any [
    .node "list_splat_pattern" (.seq (tokBefore "*" ['*']) word),
    .node "dictionary_splat_pattern" (.seq (tok "**") word)]
  let named := .field "name" word
  let typed := .seq (tok ":") (.field "type" typeRule)
  any [
    .chain splat (.node "typed_parameter" typed),
    .leaf "keyword_separator" true (token lead (fixed "*")),
    .leaf "positional_separator" true (token lead (fixed "/")),
    .chain named (any [
      .node "typed_default_parameter" (all [typed, tok "=", .field "value" expression]),
      .node "typed_parameter" typed,
      .node "default_parameter" (.seq (tok "=") (.field "value" expression))]),
    .chain pattern (.node "default_parameter" (.seq (tok "=") (.field "value" expression)))]

def typeParameters : Rule Sorts :=
  .node "type_parameter" (all [opens "[",
    listOf1
      (all [typeRule, opt (.seq (tok ":") typeRule), opt (.seq (tok "=") typeRule)]) (tok ","),
    closes "]"])

def functionDefinition : Rule Sorts :=
  .node "function_definition" (all [opt (kw "async"), kw "def", .field "name" word,
    opt (.field "type_parameters" typeParameters),
    .field "parameters" (.node "parameters" (all [opens "(",
      opt (listOf1 (.call .parameter) (tok ",")), closes ")"])),
    opt (.seq (tok "->") (.field "return_type" typeRule)),
    body "body"])

def classDefinition : Rule Sorts :=
  .node "class_definition" (all [kw "class", .field "name" word,
    opt (.field "type_parameters" typeParameters), opt (.field "superclasses" argumentList),
    body "body"])

def decoratedDefinition : Rule Sorts :=
  .node "decorated_definition" (.seq
    (.some (.node "decorator" (all [tok "@", expression, .silent newline])))
    (.field "definition" (.alt classDefinition functionDefinition)))

/-! ## Matching -/

def casePatternRule : Rule Sorts :=
  let keyword := .node "keyword_pattern" (all [word, tok "=", .call .casePattern])
  let classPattern := .node "class_pattern" (all [dottedName, opens "(",
    opt (listOf1 (.alt keyword (.call .casePattern)) (tok ",")), closes ")"])
  let starred := .node "splat_pattern" (.seq (.alt (tok "**") (tok "*")) word)
  let several := listOf1 (.call .casePattern) (tok ",")
  let signed := .seq (opt (tok "-")) (.leaf "integer" true (token lead number))
  let entry := .alt starred (all [.call .casePattern, tok ":", .call .casePattern])
  let simple := any [
    starred,
    .seq signed (opt (.seq (.alt (tok "+") (tok "-")) (.leaf "integer" true (token lead number)))),
    .some stringLiteral,
    classPattern,
    dottedName,
    .node "tuple_pattern" (all [opens "(", opt several, closes ")"]),
    .node "list_pattern" (all [opens "[", opt several, closes "]"]),
    .node "dict_pattern" (all [opens "\x7b", opt (listOf1 entry (tok ",")), closes "\x7d"])]
  .node "case_pattern" (.seq (sepBy1 simple (tok "|")) (opt (.seq (kw "as") word)))

def matchStatement : Rule Sorts :=
  let clause := .node "case_clause" (all [kw "case", listOf1 (.call .casePattern) (tok ","),
    opt (.node "if_clause" (.seq (kw "if") expression)), body "consequence"])
  .node "match_statement" (all [kw "match", here, .field "subject" (listOf1 expression (tok ",")),
    tok ":",
    .alt
      (.seq (.silent indent) (.field "body" (.node "block"
        (.seq (.many (.seq next clause)) (.silent dedent)))))
      (.field "body" (.node "block" (.silent newline)))])

def statementRule : Rule Sorts :=
  any [ifStatement, forStatement, whileStatement, tryStatement, withStatement, functionDefinition,
    classDefinition, decoratedDefinition, matchStatement, simpleStatements]

def moduleRule : Rule Sorts :=
  .node "module" (.seq (.many (.seq next (.call .statement))) (.silent atEnd))

/-- The rule of each sort. -/
def ruleOf : Sorts → Rule Sorts
  | .module => moduleRule
  | .statement => statementRule
  | .suite => suiteRule
  | .expression => expressionRule
  | .operand => operandRule
  | .pattern => patternRule
  | .rightSide => rightSideRule
  | .casePattern => casePatternRule
  | .parameter => parameterRule
  | .formatString q => formatStringRule q
  | .interpolation => interpolationRule

/-- A comment that starts at a place. -/
def commentAt (src : Source) (i : Nat) : Option (String × Nat) :=
  if src[i]? = some '#' then some ("comment", lineEnd src i) else none

/-- The grammar. -/
def grammar : Grammar Sorts := ⟨ruleOf, gapComments commentAt⟩

/-- The tree of a module. -/
def parse? (src : Source) : Option Node :=
  grammar.parse? .module { pos := 0, indents := [0] } src

end CodeClones.Syntax.Python
