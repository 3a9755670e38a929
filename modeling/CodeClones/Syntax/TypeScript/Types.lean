import CodeClones.Syntax.TypeScript.Sorts

/-!
# Types and signatures of TypeScript

Conditions bind weakest, then unions, intersections, operators such as `keyof`, and the brackets of
arrays behind a type. Members of object types end at commas, semicolons or line ends.
-/

namespace CodeClones.Syntax.TypeScript

open Rule

def unionType : Rule Sorts := .call .unionType
def typeTerm : Rule Sorts := .call .typeTerm
def callSignature : Rule Sorts := .call .callSignature

def typeArgumentsRule : Rule Sorts :=
  .node "type_arguments" (all [tok "<", listOf1 type (tok ","), tok ">"])

def typeArguments : Rule Sorts := .call .typeArguments

def typeParameters : Rule Sorts :=
  let parameter := .node "type_parameter" (all [opt (modifier "const"), opt (modifier "in"),
    opt (modifier "out"), .field "name" (word "type_identifier"), opt (.seq (kw "extends") type),
    opt (.seq (tok "=") type)])
  .field "type_parameters"
    (.node "type_parameters" (all [tok "<", listOf1 parameter (tok ","), tok ">"]))

/-- Words with dots between them. -/
def dottedName : Rule Sorts :=
  .chain (word "identifier") (.node "nested_identifier" (.seq (tok ".") (word "identifier")))

/-- A type, a claim about the type of a parameter, or an assertion of one. -/
def resultType : Rule Sorts :=
  let predicate := .node "type_predicate" (all [word "identifier", kwHere "is", type])
  any [
    .node "asserts" (all [kw "asserts", .silent sameLine, .alt predicate (word "identifier")]),
    predicate,
    type]

/-- Parameters in brackets. -/
def parameters : Rule Sorts :=
  let decorator := .seq (tok "@") (.call .postfixed)
  let marks := all (["public", "private", "protected", "override", "readonly"].map fun w =>
    opt (modifier w))
  let parameter := .node "required_parameter" (all [.many (.node "decorator" decorator), marks,
    .field "pattern" (.call .pattern), opt (tok "?"), optTypeAnnotation, opt initializer])
  .field "parameters" (.node "formal_parameters" (inParens (listOf parameter (tok ","))))

def callSignatureRule : Rule Sorts :=
  all [opt typeParameters, parameters,
    opt (.field "return_type" (.node "type_annotation" (.seq (tok ":") resultType)))]

def accessibility : Rule Sorts :=
  any [modifier "public", modifier "private", modifier "protected"]

/-- Any of some modifiers, in their order. -/
def modifiers (words : List String) : Rule Sorts := all (words.map fun w => opt (modifier w))

/-- Marks of accessors and generators. -/
def methodMark : Rule Sorts := opt (any [modifier "get", modifier "set", tok "*"])

/-- A method up to its body. -/
def methodHeader : Rule Sorts :=
  all [opt accessibility, modifiers ["static", "override", "readonly", "async"], methodMark,
    .field "name" memberName, opt (tok "?"), callSignature]

/-- A method that a class leaves open. -/
def abstractMethod : Rule Sorts :=
  .node "abstract_method_signature" (all [opt accessibility, modifier "abstract",
    modifiers ["override"], methodMark, .field "name" memberName, opt (tok "?"), callSignature])

/-- What stands before the name of a field. -/
def fieldModifiers : Rule Sorts :=
  .seq
    (.alt (.seq (modifier "declare") (opt accessibility))
      (opt (.seq accessibility (modifiers ["declare"]))))
    (any [
      modifier "accessor",
      .seq (modifier "abstract") (modifiers ["readonly"]),
      .seq (modifier "readonly") (modifier "abstract"),
      modifiers ["static", "override", "readonly"]])

def indexSignature : Rule Sorts :=
  let sign := opt (any [tok "+", tok "-"])
  let mapped := all [word "type_identifier", kw "in", type, opt (.seq (kw "as") type)]
  let index := all [word "identifier", tok ":", type]
  .node "index_signature" (all [opt (all [sign, kw "readonly"]), inSquares (.alt mapped index),
    opt (.seq sign (tok "?")), opt typeAnnotation])

def objectTypeRule : Rule Sorts :=
  let construct := .node "construct_signature"
    (all [opt (kw "abstract"), kw "new", opt typeParameters, parameters, opt typeAnnotation])
  let property := .node "property_signature" (all [opt accessibility,
    modifiers ["static", "override", "readonly"], .field "name" memberName, opt (tok "?"),
    optTypeAnnotation])
  let member := any [.node "call_signature" callSignature, construct, indexSignature,
    .node "method_signature" methodHeader, property]
  let separator := any [tok ";", tok ",", .silent (statementEnd false false)]
  inBlock (all [.many (.alt (tok ";") (tok ",")), .many (.seq member separator)])

def objectType : Rule Sorts := .call .objectType

def tupleElement : Rule Sorts :=
  any [
    all [opt (tok "..."), word "identifier", opt (tok "?"), typeAnnotation],
    .seq (tok "...") type,
    .seq type (opt (tok "?"))]

def primaryType : Rule Sorts :=
  let imported := .seq (kw "import") (inParens type)
  let query := .node "type_query" (all [kw "typeof", .alt imported (.alt privateNameRule dottedName),
    .many (.seq (tok ".") (.alt privateNameRule (word "identifier"))), opt typeArguments])
  let name := .seq (.alt (.seq imported (.many (.seq (tok ".") (word "type_identifier"))))
    dottedName) (opt (.seq (.silent sameLine) typeArguments))
  any [
    query,
    .node "object_type" objectType,
    .node "tuple_type" (inSquares (listOf tupleElement (tok ","))),
    .node "parenthesized_type" (inParens type),
    template "template_literal_type" type,
    .node "literal_type" (any [stringRule, .seq (opt (any [tok "-", tok "+"])) numberRule]),
    .leaf "existential_type" true (token lead (fixed "*")),
    .node "generic_type" name]

/-- A function type, or a type behind an operator, or a primary type with brackets behind it. -/
def typeTermRule : Rule Sorts :=
  let function := .node "function_type"
    (all [opt typeParameters, parameters, tok "=>", resultType])
  let constructor := .node "constructor_type" (all [opt (kw "abstract"), kw "new",
    opt typeParameters, parameters, tok "=>", type])
  let operator := any [kw "keyof", kw "unique", kw "readonly"]
  let inferred := all [kw "infer", word "type_identifier", opt (.seq (kw "extends") unionType),
    .unless (tok "?")]
  let brackets := .node "array_type"
    (all [.silent sameLine, openTok "[", opt type, closeTok "]"])
  any [
    function,
    constructor,
    .node "infer_type" inferred,
    .node "infer_type" (.seq (kw "infer") (word "type_identifier")),
    .node "index_type_query" (.seq operator typeTerm),
    .chain primaryType brackets]

def unionTypeRule : Rule Sorts :=
  let intersection := .seq (opt (tok "&")) (sepBy1 typeTerm (tok "&"))
  .node "union_type" (.seq (opt (tok "|")) (sepBy1 intersection (tok "|")))

def typeRule : Rule Sorts :=
  .chain unionType (.node "conditional_type"
    (all [kwHere "extends", unionType, tok "?", type, tok ":", type]))

end CodeClones.Syntax.TypeScript
