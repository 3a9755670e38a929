import CodeClones.Syntax.Rust.Literal

/-!
# Grammar of Rust

Where a block follows an expression, as behind `if`, a name followed by a brace is no structure
literal. Expression statements leave no node of their own, and operands of operator chains are
siblings.
-/

namespace CodeClones.Syntax.Rust

open Rule

/-- The sorts of the grammar that refer to each other. -/
inductive Sorts where
  | file
  | statement
  | item
  | block
  | blockExpression
  /-- An expression; `literals` says whether structure literals may stand outside brackets. -/
  | expression (literals : Bool)
  | operand (literals : Bool)
  | pattern
  | patternAlternative
  | type
  | typeTerm
  | typeArguments
  | tokenTree
  | useClause

/-- A fixed token. -/
def tok (s : String) : Rule Sorts := .leaf s false (token lead (fixed s))

/-- A fixed token that must not be the start of a longer one. -/
def tokBefore (s : String) (refused : List Char) : Rule Sorts :=
  .leaf s false (token lead (fixedBefore s refused))

/-- A colon that is not the first of two. -/
def colon : Rule Sorts := tokBefore ":" [':']

/-- A keyword. -/
def kw (s : String) : Rule Sorts :=
  .leaf s false (token lead (wholeWord Text.isIdentifierPart s))

/-- A node of one keyword. -/
def namedKw (kind s : String) : Rule Sorts :=
  .leaf kind true (token lead (wholeWord Text.isIdentifierPart s))

/-- Words that are keywords where an operand, a type or a pattern starts. -/
def keywords : List String :=
  ["as", "async", "await", "break", "const", "continue", "crate", "dyn", "else", "enum", "extern",
    "false", "fn", "for", "if", "impl", "in", "let", "loop", "match", "mod", "move", "mut", "pub",
    "ref", "return", "self", "static", "struct", "super", "trait", "true", "type", "unsafe", "use",
    "where", "while", "yield"]

/-- Any word as a node. -/
def word (kind : String) : Rule Sorts := .leaf kind true (token lead identifier)

/-- A word that is no keyword, as a node. -/
def freeWord (kind : String) : Rule Sorts :=
  .seq (.unless (any (keywords.map kw))) (word kind)

/-- A variable of a macro. -/
def metavariable : Rule Sorts :=
  .leaf "metavariable" true (token lead fun src i =>
    if src[i]? = some '$' then nameEnd src (i + 1) else none)

def expression : Rule Sorts := .call (.expression true)
def type : Rule Sorts := .call .type
def typeTerm : Rule Sorts := .call .typeTerm
def pattern : Rule Sorts := .call .pattern
def block : Rule Sorts := .call .block
def lifetimeRule : Rule Sorts := .leaf "lifetime" true (token lead lifetime)
def integerRule : Rule Sorts := .leaf "integer_literal" true (token lead integer)
def stringRule : Rule Sorts := .leaf "string_literal" true (token lead string)

/-- Items between delimiters with commas between them. -/
def commaList (item : Rule Sorts) : Rule Sorts := listOf item (tok ",")

/-- At least one item, with commas between them. -/
def commaList1 (item : Rule Sorts) : Rule Sorts := listOf1 item (tok ",")

/-! ## Macros, attributes and visibility -/

def tokenTreeRule : Rule Sorts :=
  let part := any [
    stringRule,
    .leaf "char_literal" true (token lead character),
    lifetimeRule,
    .leaf "float_literal" true (token lead float),
    integerRule,
    word "identifier",
    metavariable,
    .call .tokenTree,
    .leaf "punctuation" false (token lead macroPunctuation)]
  .node "token_tree" (any [
    all [tok "(", .many part, tok ")"],
    all [tok "[", .many part, tok "]"],
    all [tok "\x7b", .many part, tok "\x7d"]])

def tokenTree : Rule Sorts := .call .tokenTree

/-- A path of plain words. -/
def plainPath : Rule Sorts :=
  let step := any [namedKw "self" "self", namedKw "super" "super", namedKw "crate" "crate",
    metavariable, freeWord "identifier"]
  .seq (opt (tok "::")) (sepBy1 step (tok "::"))

def attributeBody : Rule Sorts :=
  .node "attribute" (all [opt (kw "unsafe"), plainPath,
    opt (.alt (.seq (tok "=") expression) tokenTree)])

def attributeItem : Rule Sorts :=
  .node "attribute_item" (all [tok "#", tok "[", attributeBody, tok "]"])

def innerAttributeItem : Rule Sorts :=
  .node "inner_attribute_item" (all [tok "#", tok "!", tok "[", attributeBody, tok "]"])

def attributes : Rule Sorts := .many attributeItem

def visibility : Rule Sorts :=
  .node "visibility_modifier" (.alt
    (.seq (kw "pub") (opt (all [tok "(",
      any [kw "self", kw "super", kw "crate", .seq (kw "in") plainPath], tok ")"])))
    (.seq (kw "crate") (.unless (tok "::"))))

def optVisibility : Rule Sorts := opt visibility

/-! ## Types -/

def externModifier : Rule Sorts := .node "extern_modifier" (.seq (kw "extern") (opt stringRule))

def functionModifiers : Rule Sorts :=
  .node "function_modifiers"
    (.some (any [kw "async", kw "default", kw "const", kw "unsafe", externModifier]))

def boundTerm : Rule Sorts := .alt lifetimeRule typeTerm

def traitBounds : Rule Sorts :=
  .node "trait_bounds" (.seq colon (sepBy1 boundTerm (tok "+")))

def typeParameters : Rule Sorts :=
  let constParameter := .node "const_parameter" (all [kw "const", .field "name" (word "identifier"),
    colon, type, opt (.seq (tok "=") (any [block, .seq (opt (tok "-")) integerRule,
      word "identifier"]))])
  let named := .seq (.alt metavariable (freeWord "type_identifier"))
    (.seq (opt traitBounds) (opt (.seq (tok "=") type)))
  .node "type_parameters" (all [tok "<",
    commaList1 (.seq attributes (any [constParameter, .seq lifetimeRule (opt traitBounds), named])),
    tok ">"])

def literal : Rule Sorts :=
  any [
    stringRule,
    .leaf "char_literal" true (token lead character),
    .leaf "float_literal" true (token lead float),
    integerRule,
    .node "boolean_literal" (.alt (kw "true") (kw "false"))]

def typeArgumentsRule : Rule Sorts :=
  let associated := .node "type_binding" (all [word "type_identifier", opt (.call .typeArguments),
    tokBefore "=" ['='], .alt type literal])
  let bounded := all [freeWord "type_identifier", opt (.call .typeArguments), traitBounds]
  .node "type_arguments" (all [tok "<",
    commaList1 (any [associated, bounded, .seq (opt (tok "-")) literal, lifetimeRule, type, block]), tok ">"])

/-- The parts of a function type behind its name. -/
def functionTypeTail : Rule Sorts :=
  let named := all [attributes, word "identifier", colon, type]
  all [tok "(", commaList (any [named, type, tok "..."]), tok ")", opt (.seq (tok "->") typeTerm)]

/-- A path of a type, with arguments at any step. -/
def typePath : Rule Sorts :=
  let step := any [namedKw "self" "self", namedKw "super" "super", namedKw "crate" "crate",
    metavariable, freeWord "type_identifier"]
  let arguments := .seq (opt (tok "::")) (.alt (.call .typeArguments) functionTypeTail)
  let qualified := .node "bracketed_type" (all [tok "<", type, opt (.seq (kw "as") type), tok ">"])
  let start := .alt (.seq qualified (.seq (tok "::") step)) (.seq (opt (tok "::")) step)
  all [start, opt arguments, .many (all [tok "::", step, opt arguments])]

def typeTermRule : Rule Sorts :=
  any [
    .node "reference_type" (all [tok "&", opt lifetimeRule, opt (namedKw "mutable_specifier" "mut"),
      typeTerm]),
    .node "pointer_type" (all [tok "*", .alt (kw "const") (namedKw "mutable_specifier" "mut"),
      typeTerm]),
    .leaf "never_type" true (token lead (fixed "!")),
    .node "removed_trait_bound" (.seq (tok "?") typeTerm),
    .node "array_type" (all [tok "[", type, opt (.seq (tok ";") expression), tok "]"]),
    .node "tuple_type" (all [tok "(", commaList type, tok ")"]),
    .node "abstract_type" (all [kw "impl", opt (.seq (kw "for") typeParameters),
      sepBy1 boundTerm (tok "+")]),
    .node "dynamic_type" (all [kw "dyn", opt (.seq (kw "for") typeParameters),
      sepBy1 boundTerm (tok "+")]),
    .node "higher_ranked_trait_bound" (all [kw "for", typeParameters, typeTerm]),
    .node "function_type" (all [opt functionModifiers, kw "fn", functionTypeTail]),
    .node "macro_invocation" (all [plainPath, tokBefore "!" ['='], tokenTree]),
    .node "type_path" typePath]

def typeRule : Rule Sorts := sepBy1 boundTerm (tok "+")

/-! ## Patterns -/

/-- A path of an expression or a pattern, with type arguments behind double colons. -/
def valuePath : Rule Sorts :=
  let step := any [namedKw "self" "self", namedKw "super" "super", namedKw "crate" "crate",
    metavariable, freeWord "identifier"]
  let qualified := .node "bracketed_type" (all [tok "<", type, opt (.seq (kw "as") type), tok ">"])
  let start := .alt (.seq qualified (.seq (tok "::") step)) (.seq (opt (tok "::")) step)
  .seq start (.many (.seq (tok "::") (.alt (.call .typeArguments) step)))

def patternAlternativeRule : Rule Sorts :=
  let bound := .seq (opt (tok "-")) literal
  let rangeEnd := any [bound, valuePath]
  let rangeMark := any [tok "..=", tok "...", tok ".."]
  let fieldPattern := .node "field_pattern" (.alt
    (all [.alt (word "identifier") integerRule, colon, pattern])
    (all [opt (kw "ref"), opt (kw "mut"), word "identifier"]))
  let rest := .leaf "remaining_field_pattern" true (token lead (fixed ".."))
  any [
    .seq bound (opt (.seq rangeMark (opt rangeEnd))),
    .seq (tok "..=") rangeEnd,
    rest,
    .node "ref_pattern" (.seq (kw "ref") (.call .patternAlternative)),
    .node "mut_pattern" (.seq (kw "mut") (.call .patternAlternative)),
    .node "reference_pattern" (all [tok "&", opt (kw "mut"), .call .patternAlternative]),
    .node "tuple_pattern" (all [tok "(", commaList pattern, tok ")"]),
    .node "slice_pattern" (all [tok "[", commaList pattern, tok "]"]),
    .node "const_block" (.seq (kw "const") block),
    .node "macro_invocation" (all [plainPath, tokBefore "!" ['='], tokenTree]),
    .node "captured_pattern" (all [freeWord "identifier", tok "@", .call .patternAlternative]),
    .chain valuePath (any [
      .node "tuple_struct_pattern" (all [tok "(", commaList pattern, tok ")"]),
      .node "struct_pattern" (all [tok "\x7b", commaList (.seq attributes (.alt rest fieldPattern)),
        tok "\x7d"]),
      .node "range_pattern" (.seq rangeMark (opt rangeEnd))])]

def patternRule : Rule Sorts :=
  .seq (opt (tok "|")) (sepBy1 (.call .patternAlternative) (tokBefore "|" ['|']))

/-! ## Expressions -/

def label : Rule Sorts := .node "label" (.leaf "label" false (token lead lifetime))

def optLabel : Rule Sorts := opt (.seq label colon)

def condition : Rule Sorts :=
  let letCondition := .node "let_condition" (all [kw "let", .field "pattern" pattern,
    tokBefore "=" ['='], .field "value" (.call (.expression false))])
  .field "condition" (sepBy1 (.alt letCondition (.call (.expression false))) (tok "&&"))

/-- `else` with a block or a further condition, any number of times. -/
def ifExpression : Rule Sorts :=
  let one := all [kw "if", condition, .field "consequence" block]
  .node "if_expression" (all [one, .many (.seq (kw "else") one), opt (.seq (kw "else") block)])

/-- What goes on with an expression that ends in a block: tokens that start no statement. -/
def goesOn : Rule Sorts :=
  any ([tokBefore "." ['.'], kw "as", tokBefore "=" ['>']] ++
    ["?", "+", "/", "%", "^", "==", "!=", ">", "<=", "<<", "&&"].map tok)

def matchExpression : Rule Sorts :=
  let arm := .node "match_arm" (all [.many (.alt attributeItem innerAttributeItem),
    .field "pattern" (.node "match_pattern" (.seq pattern (opt (.seq (kw "if") condition)))),
    tok "=>",
    .field "value" (.alt
      (all [.call .blockExpression, .unless goesOn, opt (tok ",")])
      (.seq expression (.alt (tok ",") (.ahead (tok "\x7d")))))])
  .node "match_expression" (all [kw "match", .field "value" (.call (.expression false)),
    .field "body" (.node "match_block" (all [tok "\x7b", .many arm, tok "\x7d"]))])

/-- Expressions that end in a block. -/
def blockExpressionRule : Rule Sorts :=
  any [
    ifExpression,
    matchExpression,
    .node "while_expression" (all [optLabel, kw "while", condition, block]),
    .node "loop_expression" (all [optLabel, kw "loop", block]),
    .node "for_expression" (all [optLabel, kw "for", .field "pattern" pattern, kw "in",
      .field "value" (.call (.expression false)), block]),
    .node "unsafe_block" (.seq (kw "unsafe") block),
    .node "async_block" (all [kw "async", opt (kw "move"), block]),
    .node "gen_block" (all [kw "gen", opt (kw "move"), block]),
    .node "try_block" (.seq (kw "try") block),
    .node "const_block" (.seq (kw "const") block),
    block]

def blockExpression : Rule Sorts := .call .blockExpression

def closure (literals : Bool) : Rule Sorts :=
  let parameter := .alt
    (.node "parameter" (all [.call .patternAlternative, colon, type]))
    (.call .patternAlternative)
  .node "closure_expression" (all [opt (kw "static"), opt (kw "async"), opt (kw "move"),
    .field "parameters" (.node "closure_parameters" (all [tok "|", commaList parameter, tok "|"])),
    .alt
      (all [tok "->", .field "return_type" typeTerm, .field "body" block])
      (.field "body" (.call (.expression literals)))])

def fieldInitializer : Rule Sorts :=
  .seq attributes (any [
    .node "base_field_initializer" (.seq (tok "..") (opt expression)),
    .node "field_initializer" (all [.alt (word "identifier") integerRule, colon,
      .field "value" expression]),
    .node "shorthand_field_initializer" (word "identifier")])

def argumentItem : Rule Sorts := .seq attributes expression

def atom (literals : Bool) : Rule Sorts :=
  let structLiteral := if literals then
      [.node "struct_expression" (all [.field "name" valuePath,
        .field "body" (.node "field_initializer_list"
          (all [tok "\x7b", commaList fieldInitializer, tok "\x7d"]))])]
    else []
  any ([
    .node "macro_invocation" (all [.field "macro" plainPath, tokBefore "!" ['='], tokenTree]),
    blockExpression,
    literal] ++ structLiteral ++ [
    .node "tuple_expression" (all [tok "(", commaList argumentItem, tok ")"]),
    .node "array_expression" (all [tok "[", .alt
      (all [argumentItem, tok ";", expression]) (commaList argumentItem), tok "]"]),
    valuePath])

/-- An atom with calls, fields, subscripts and question marks behind it. -/
def postfixed (literals : Bool) : Rule Sorts :=
  let index := .leaf "integer_literal" true (token lead (digitsEnd Char.isDigit))
  .chain (atom literals) (any [
    .node "call_expression" (.field "arguments"
      (.node "arguments" (all [tok "(", commaList argumentItem, tok ")"]))),
    .node "index_expression" (all [tok "[", expression, tok "]"]),
    .node "try_expression" (tok "?"),
    .node "await_expression" (.seq (tokBefore "." ['.']) (kw "await")),
    .node "field_expression" (all [tokBefore "." ['.'],
      .field "field" (.alt (word "field_identifier") index),
      opt (.seq (tok "::") (.call .typeArguments))])])

def operandRule (literals : Bool) : Rule Sorts :=
  let self := .call (.operand literals)
  let value := .call (.expression literals)
  any [
    .node "unary_expression" (.seq (any [tok "-", tok "*", tok "!"]) self),
    .node "reference_expression" (all [tok "&",
      opt (all [kw "raw", .alt (kw "const") (kw "mut"), .ahead self]),
      opt (namedKw "mutable_specifier" "mut"), self]),
    closure literals,
    .node "return_expression" (.seq (kw "return") (opt value)),
    .node "yield_expression" (.seq (kw "yield") (opt value)),
    .node "break_expression" (all [kw "break", opt label, opt value]),
    .node "continue_expression" (.seq (kw "continue") (opt label)),
    .chain (postfixed literals)
      (.node "type_cast_expression" (.seq (kw "as") (.field "type" typeTerm)))]

def binaryOperator : Rule Sorts :=
  any (["<<=", ">>=", "&&", "||", "+=", "-=", "*=", "/=", "%=", "^=", "&=", "|=", "==", "!=", "<=",
    ">=", "<<", ">>"].map tok ++ [tokBefore "=" ['>'], tok "<", tok ">", tok "+", tok "-", tok "*",
    tok "/", tok "%", tok "^", tok "&", tok "|"])

def expressionRule (literals : Bool) : Rule Sorts :=
  let operand := .call (.operand literals)
  let cast := .node "type_cast_expression" (.seq (kw "as") (.field "type" typeTerm))
  let chain := sepBy1 (.seq operand (.many cast)) binaryOperator
  let mark := .alt (tok "..=") (.alt (tok "...") (tok ".."))
  let bound := if literals then chain else .seq (.unless (tok "\x7b")) chain
  let range := .node "range_expression" (.seq mark (opt bound))
  .alt range (.chain chain range)

/-! ## Blocks and statements -/

def blockRule : Rule Sorts :=
  .node "block" (all [optLabel, tok "\x7b", .many (.call .statement), tok "\x7d"])

def letDeclaration : Rule Sorts :=
  .node "let_declaration" (all [kw "let", .field "pattern" pattern,
    opt (.seq colon (.field "type" type)),
    opt (.seq (tok "=") (.field "value" expression)),
    opt (.seq (kw "else") (.field "alternative" block)), tok ";"])

def macroCall : Rule Sorts :=
  .node "macro_invocation" (all [.field "macro" plainPath, tokBefore "!" ['='], tokenTree])

def statementRule : Rule Sorts :=
  any [
    .call .item,
    .seq blockExpression (.unless goesOn),
    .seq expression (.alt (tok ";") (.ahead (tok "\x7d"))),
    macroCall]

/-! ## Items -/

def declarationList : Rule Sorts :=
  .node "declaration_list" (all [tok "\x7b",
    .many (.alt (.call .item) (.seq macroCall (opt (tok ";")))), tok "\x7d"])

def whereClause : Rule Sorts :=
  .node "where_clause" (.seq (kw "where")
    (commaList (.node "where_predicate" (.seq boundTerm traitBounds))))

def optWhere : Rule Sorts := opt whereClause

def optTypeParameters : Rule Sorts := opt (.field "type_parameters" typeParameters)

/-- A name that an item declares. -/
def typeName : Rule Sorts := .field "name" (word "type_identifier")

def fieldList : Rule Sorts :=
  .node "field_declaration_list" (all [tok "\x7b",
    commaList (.seq attributes (.node "field_declaration" (all [optVisibility,
      .field "name" (word "field_identifier"), colon, .field "type" type]))),
    tok "\x7d"])

def orderedFieldList : Rule Sorts :=
  .node "ordered_field_declaration_list" (all [tok "(",
    commaList (all [attributes, optVisibility, .field "type" type]), tok ")"])

def structItem : Rule Sorts :=
  .node "struct_item" (all [optVisibility, kw "struct", typeName, optTypeParameters, any [
    .seq optWhere (.field "body" fieldList),
    all [.field "body" orderedFieldList, optWhere, tok ";"],
    tok ";"]])

def enumItem : Rule Sorts :=
  let variant := .node "enum_variant" (all [optVisibility, .field "name" (word "identifier"),
    opt (.field "body" (.alt fieldList orderedFieldList)),
    opt (.seq (tok "=") (.field "value" expression))])
  .node "enum_item" (all [optVisibility, kw "enum", typeName, optTypeParameters, optWhere,
    .field "body" (.node "enum_variant_list"
      (all [tok "\x7b", commaList (.seq attributes variant), tok "\x7d"]))])

def parameters : Rule Sorts :=
  let selfParameter := .node "self_parameter" (all [opt (.seq (tok "&") (opt lifetimeRule)),
    opt (namedKw "mutable_specifier" "mut"), namedKw "self" "self", .unless colon])
  let parameter := .node "parameter" (all [opt (namedKw "mutable_specifier" "mut"),
    .field "pattern" (.alt (namedKw "self" "self") pattern), colon,
    .field "type" type])
  let variadic := .node "variadic_parameter" (.seq (opt (.seq pattern colon)) (tok "..."))
  .node "parameters" (all [tok "(",
    commaList (.seq (opt attributeItem) (any [selfParameter, variadic, parameter, kw "_", type])),
    tok ")"])

def functionItem : Rule Sorts :=
  let header := all [optVisibility, opt functionModifiers, kw "fn",
    .field "name" (.alt metavariable (word "identifier")), optTypeParameters,
    .field "parameters" parameters, opt (.seq (tok "->") (.field "return_type" type)), optWhere]
  .only ["function_item", "function_signature_item"] (.chain header (.alt
    (.node "function_item" (.field "body" block))
    (.node "function_signature_item" (tok ";"))))

def implItem : Rule Sorts :=
  .node "impl_item" (all [opt (kw "default"), opt (kw "unsafe"), kw "impl", optTypeParameters,
    opt (all [opt (tok "!"), .field "trait" typeTerm, kw "for"]), .field "type" typeTerm, optWhere,
    .alt (.field "body" declarationList) (tok ";")])

def traitItem : Rule Sorts :=
  .node "trait_item" (all [optVisibility, opt (kw "unsafe"), kw "trait", typeName,
    optTypeParameters, opt (.field "bounds" traitBounds), optWhere, .field "body" declarationList])

/-- An alias, or a type that a trait leaves open. -/
def typeItem : Rule Sorts :=
  .alt
    (.node "type_item" (all [optVisibility, kw "type", typeName, optTypeParameters, optWhere,
      tok "=", .field "type" type, optWhere, tok ";"]))
    (.node "associated_type" (all [kw "type", typeName, optTypeParameters, opt traitBounds,
      optWhere, tok ";"]))

def useClauseRule : Rule Sorts :=
  let list := .node "use_list" (all [tok "\x7b", commaList (.call .useClause), tok "\x7d"])
  any [
    list,
    .node "use_wildcard" (.seq (opt (.seq (opt plainPath) (tok "::"))) (tok "*")),
    .node "scoped_use_list" (all [opt plainPath, tok "::", list]),
    .node "use_as_clause" (all [plainPath, kw "as", word "identifier"]),
    .node "scoped_identifier" plainPath]

def modItem : Rule Sorts :=
  .node "mod_item" (all [optVisibility, kw "mod", .field "name" (word "identifier"),
    .alt (tok ";") (.field "body" declarationList)])

def macroDefinition : Rule Sorts :=
  let rules := listOf (.node "macro_rule" (all [tokenTree, tok "=>", tokenTree])) (tok ";")
  .node "macro_definition" (all [.seq (kw "macro_rules") (tok "!"),
    .field "name" (word "identifier"), any [
      all [tok "\x7b", rules, tok "\x7d"],
      all [tok "(", rules, tok ")", tok ";"],
      all [tok "[", rules, tok "]", tok ";"]]])

def itemRule : Rule Sorts :=
  any [
    .leaf "empty_statement" true (token lead (fixed ";")),
    attributeItem,
    innerAttributeItem,
    macroDefinition,
    functionItem,
    structItem,
    .node "union_item" (all [optVisibility, kw "union", typeName, optTypeParameters, optWhere,
      .field "body" fieldList]),
    enumItem,
    implItem,
    traitItem,
    typeItem,
    modItem,
    .node "foreign_mod_item" (all [optVisibility, opt (kw "unsafe"), externModifier,
      .alt (tok ";") (.field "body" declarationList)]),
    .node "extern_crate_declaration" (all [optVisibility, kw "extern", kw "crate",
      .field "name" (word "identifier"), opt (.seq (kw "as") (word "identifier")), tok ";"]),
    .node "use_declaration" (all [optVisibility, kw "use", .field "argument" (.call .useClause),
      tok ";"]),
    .node "const_item" (all [optVisibility, kw "const", .field "name" (word "identifier"),
      colon, .field "type" type, opt (.seq (tok "=") (.field "value" expression)), tok ";"]),
    .node "static_item" (all [optVisibility, kw "static", opt (kw "ref"),
      opt (namedKw "mutable_specifier" "mut"), .field "name" (word "identifier"), colon,
      .field "type" type, opt (.seq (tok "=") (.field "value" expression)), tok ";"]),
    letDeclaration]

def fileRule : Rule Sorts :=
  let shebang : Scanner := fun src c =>
    if c.pos = 0 ∧ hasText "#!" src 0 ∧ !hasText "#![" src 0 then
      some (0, { c with pos := spanEnd (· != '\n') src 0 })
    else none
  .node "source_file"
    (all [opt (.leaf "shebang" true shebang), .many (.call .statement), .silent atEnd])

/-- The rule of each sort. -/
def ruleOf : Sorts → Rule Sorts
  | .file => fileRule
  | .statement => statementRule
  | .item => itemRule
  | .block => blockRule
  | .blockExpression => blockExpressionRule
  | .expression literals => expressionRule literals
  | .operand literals => operandRule literals
  | .pattern => patternRule
  | .patternAlternative => patternAlternativeRule
  | .type => typeRule
  | .typeTerm => typeTermRule
  | .typeArguments => typeArgumentsRule
  | .tokenTree => tokenTreeRule
  | .useClause => useClauseRule

/-- The grammar. -/
def grammar : Grammar Sorts := ⟨ruleOf, gapComments commentAt⟩

/-- The tree of a file. A byte order mark in front of it is passed over. -/
def parse? (src : Source) : Option Node :=
  grammar.parse? .file { pos := if src[0]? = some '\uFEFF' then 1 else 0 } src

end CodeClones.Syntax.Rust
