import CodeClones.Syntax.TypeScript.Expressions

/-!
# Grammar of TypeScript

Declarations are tried before expressions, since most of their keywords are names elsewhere. The
grammar comes in two forms, with and without elements between tags.
-/

namespace CodeClones.Syntax.TypeScript

open Rule

/-! ## Classes -/

def classBodyRule : Rule Sorts :=
  let memberEnd := .alt (tok ",") signatureEnd
  let method := .only ["method_definition", "method_signature"] (.chain methodHeader (.alt
    (.node "method_definition" (.field "body" block))
    (.node "method_signature" memberEnd)))
  let name := .seq (.field "name" memberName) (opt (.alt (tok "?") (tok "!")))
  let fieldDefinition := .alt
    (.seq (.node "public_field_definition"
      (all [decorators, fieldModifiers, name, optTypeAnnotation, initializer]))
      (.alt (tok ",") semicolon))
    (.seq (.node "public_field_definition"
      (all [decorators, fieldModifiers, name, optTypeAnnotation]))
      (.alt (tok ",") plainSemicolon))
  .node "class_body" (inBlock (.many (any [
    tok ";",
    .node "class_static_block" (.seq (kw "static") block),
    .seq (.seq (opt (modifier "static")) indexSignature) (.alt (tok ",") plainSemicolon),
    .seq abstractMethod (.alt (tok ",") plainSemicolon),
    .seq decorators method,
    fieldDefinition])))

def classDeclaration : Rule Sorts :=
  let rest := all [kw "class", .field "name" (word "type_identifier"), classRest]
  .alt
    (.node "abstract_class_declaration" (all [decorators, kw "abstract", rest]))
    (.node "class_declaration" (.seq decorators rest))

/-! ## Declarations -/

def functionDeclaration : Rule Sorts :=
  let name := .field "name" (word "identifier")
  let start := .seq (opt (kw "async")) (kw "function")
  .alt
    (.node "generator_function_declaration"
      (all [start, tok "*", name, callSignature, .field "body" block]))
    (.only ["function_declaration", "function_signature"]
      (.chain (all [start, name, callSignature]) (.alt
        (.node "function_declaration" (.field "body" block))
        (.node "function_signature" signatureEnd))))

/-- Variables behind their keyword. -/
def declarators : Rule Sorts :=
  let name := .field "name" (any [objectPattern, arrayPattern, word "identifier"])
  sepBy1 (.node "variable_declarator"
    (all [name, opt (tokBefore "!" ['=']), optTypeAnnotation, opt initializer])) (tok ",")

def variableDeclaration : Rule Sorts :=
  .alt
    (.node "lexical_declaration" (all [.alt (kw "let") (kw "const"), declarators, semicolon]))
    (.node "variable_declaration" (all [kw "var", declarators, semicolon]))

def enumDeclaration : Rule Sorts :=
  let member := .node "enum_assignment" (.seq (.field "name" memberName) (opt initializer))
  .node "enum_declaration" (all [opt (kw "const"), kw "enum", .field "name" (word "identifier"),
    .field "body" (.node "enum_body" (inCurlies (listOf member (tok ","))))])

def interfaceDeclaration : Rule Sorts :=
  let bases := .node "extends_type_clause" (.seq (kw "extends") (sepBy1 type (tok ",")))
  .node "interface_declaration" (all [kw "interface", .field "name" (word "type_identifier"),
    opt typeParameters, opt bases, .field "body" (.node "interface_body" objectType)])

def typeAlias : Rule Sorts :=
  .node "type_alias_declaration" (all [kw "type", .field "name" (word "type_identifier"),
    opt typeParameters, tok "=", .field "value" type, plainSemicolon])

def importAlias : Rule Sorts :=
  .node "import_alias" (all [kw "import", word "identifier", tok "=", dottedName, semicolon])

def namespaceDeclaration : Rule Sorts :=
  .node "internal_module"
    (all [kw "namespace", .field "name" dottedName, .field "body" block, opt (tok ";")])

def moduleDeclaration : Rule Sorts :=
  .node "module" (all [kw "module", .field "name" (.alt stringRule dottedName),
    .alt (.field "body" block) semicolon])

/-- Declarations that can also be marked as made elsewhere. -/
def plainDeclaration : Rule Sorts :=
  any [functionDeclaration, classDeclaration, enumDeclaration, interfaceDeclaration, typeAlias,
    importAlias, namespaceDeclaration, moduleDeclaration, variableDeclaration]

def declaration : Rule Sorts :=
  let ambient := .node "ambient_declaration" (.seq (kw "declare") (any [
    plainDeclaration,
    .seq (kw "global") block]))
  .alt plainDeclaration ambient

/-! ## Imports and exports -/

def sourceClause : Rule Sorts :=
  let condition := .node "import_attribute" (.seq (.alt (kw "with") (kw "assert")) object)
  .seq (.field "source" stringRule) (opt condition)

/-- A name that is brought in or given out. -/
def moduleName : Rule Sorts := .alt (word "identifier") stringRule

/-- Names in brackets, each perhaps under a name of its own. -/
def moduleNames (kind : String) : Rule Sorts :=
  let renamed := all [.field "name" moduleName, kw "as", .field "alias" moduleName]
  let typeMark := .alt (kw "type") (kw "typeof")
  let specifier := .node kind (any [
    .seq typeMark renamed,
    renamed,
    .seq typeMark (.field "name" moduleName),
    .field "name" moduleName])
  inCurlies (listOf specifier (tok ","))

def importStatement : Rule Sorts :=
  let everything := .node "namespace_import" (all [tok "*", kw "as", word "identifier"])
  let named := .alt everything (.node "named_imports" (moduleNames "import_specifier"))
  let clause := .node "import_clause"
    (.alt named (.seq (word "identifier") (opt (.seq (tok ",") named))))
  let required := .node "import_require_clause" (all [word "identifier", tok "=", kw "require",
    inParens (.field "source" stringRule)])
  let what := any [required, all [clause, kw "from", sourceClause], sourceClause]
  .node "import_statement" (all [kw "import",
    .alt what (.seq (.alt (kw "type") (kw "typeof")) what), semicolon])

def exportStatement : Rule Sorts :=
  let origin := .seq (kw "from") sourceClause
  let clause := .node "export_clause" (moduleNames "export_specifier")
  .node "export_statement" (any [
    all [kw "export", opt (kw "type"), tok "*", opt (.seq (kw "as") moduleName), origin, semicolon],
    all [kw "export", opt (kw "type"), clause, opt origin, semicolon],
    all [decorators, kw "export", opt (kw "default"), .field "declaration" declaration],
    all [kw "export", kw "default", .field "value" expression, semicolon],
    all [kw "export", tok "=", expression, semicolon],
    all [kw "export", kw "as", kw "namespace", word "identifier", semicolon]])

/-! ## Statements -/

def statement : Rule Sorts := .call .statement

/-- An expression in brackets that decides how a statement goes on. -/
def condition : Rule Sorts := .field "condition" parenthesized

def ifStatement : Rule Sorts :=
  .node "if_statement" (all [kw "if", condition, .field "consequence" statement,
    opt (.node "else_clause" (.seq (kw "else") statement))])

def switchStatement : Rule Sorts :=
  let label := .alt (.seq (kw "case") expressions) (kw "default")
  let case := .node "switch_case" (all [label, tok ":", .many statement])
  .node "switch_statement" (all [kw "switch", .field "value" parenthesized,
    .field "body" (.node "switch_body" (inBlock (.many case)))])

def forStatement : Rule Sorts :=
  let first := any [
    variableDeclaration,
    .seq expressions (tok ";"),
    .leaf "empty_statement" true (token lead (fixed ";"))]
  let header := all [openTok "(", .field "initializer" first,
    .seq (opt expressions) (tok ";"), opt expressions, closeTok ")"]
  .node "for_statement" (all [kw "for", header, .field "body" statement])

def forInStatement : Rule Sorts :=
  let declared := all [any [kw "const", kw "let", kw "var"],
    any [objectPattern, arrayPattern, word "identifier"]]
  let left := any [declared, objectPattern, arrayPattern, postfixed]
  let header := all [openTok "(", .field "left" left, .alt (kw "in") (kw "of"),
    .field "right" expressions, closeTok ")"]
  .node "for_in_statement" (all [kw "for", opt (kw "await"), header, .field "body" statement])

def tryStatement : Rule Sorts :=
  let caught := inParens (.seq (.field "parameter"
    (any [objectPattern, arrayPattern, word "identifier"])) optTypeAnnotation)
  let handler := .node "catch_clause" (all [kw "catch", opt caught, .field "body" block])
  let finalizer := .node "finally_clause" (.seq (kw "finally") block)
  .node "try_statement" (all [kw "try", block, opt handler, opt finalizer])

/-- A statement that leaves its place: a keyword, perhaps with a value on the same line. -/
def leaving (kind word : String) (value : Rule Sorts) : Rule Sorts :=
  .node kind (.seq (kw word) (.alt plainSemicolon (.seq value semicolon)))

/-- Words with which no expression starts a statement. -/
def statementKeywords : List String :=
  ["abstract", "break", "case", "catch", "const", "continue", "debugger", "default", "do", "else",
    "enum", "export", "finally", "for", "if", "interface", "return", "switch", "throw", "try", "var",
    "while", "with"]

def expressionStatement : Rule Sorts :=
  .node "expression_statement"
    (all [.unless (any (statementKeywords.map kw)), expressions, semicolon])

def statementRule : Rule Sorts :=
  let label := .leaf "statement_identifier" true (token lead identifier)
  any [
    .leaf "empty_statement" true (token lead (fixed ";")),
    block,
    exportStatement,
    importStatement,
    ifStatement,
    forStatement,
    forInStatement,
    .node "while_statement" (all [kw "while", condition, .field "body" statement]),
    .node "do_statement" (all [kw "do", .field "body" statement, kw "while", condition,
      opt semicolon]),
    switchStatement,
    tryStatement,
    .node "with_statement" (all [kw "with", parenthesized, .field "body" statement]),
    leaving "break_statement" "break" label,
    leaving "continue_statement" "continue" label,
    leaving "return_statement" "return" expressions,
    .node "throw_statement" (all [kw "throw", expressions, semicolon]),
    .node "debugger_statement" (.seq (kw "debugger") semicolon),
    declaration,
    .node "labeled_statement" (all [.field "label" label, tok ":", statement]),
    expressionStatement]

def fileRule : Rule Sorts :=
  let shebang : Scanner := fun src c =>
    if c.pos = 0 ∧ hasText "#!" src 0 then
      some (0, { c with pos := spanEnd (· != '\n') src 0 })
    else none
  .node "program" (all [opt (.leaf "hash_bang_line" true shebang), .many statement, .silent atEnd])

/-- The rule of each sort. -/
def ruleOf (elements : Bool) : Sorts → Rule Sorts
  | .file => fileRule
  | .statement => statementRule
  | .block => .node "statement_block" (inBlock (.many statement))
  | .expression => expressionRule
  | .conditional => conditionalRule
  | .operand => operandRule elements
  | .postfixed => postfixedRule
  | .pattern => patternRule
  | .element => elementRule
  | .type => typeRule
  | .unionType => unionTypeRule
  | .typeTerm => typeTermRule
  | .typeArguments => typeArgumentsRule
  | .objectType => objectTypeRule
  | .classBody => classBodyRule
  | .callSignature => callSignatureRule

/-- The grammar, with or without elements between tags. -/
def grammar (elements : Bool) : Grammar Sorts := ⟨ruleOf elements, gapComments commentAt⟩

/-- The tree of a file. -/
def parse? (elements : Bool) (src : Source) : Option Node :=
  (grammar elements).parse? .file { pos := 0 } src

end CodeClones.Syntax.TypeScript
