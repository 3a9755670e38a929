import CodeClones.Text.Basic

/-!
# Signatures

Parameter names and the result type taken from the text of a signature such as
`name(a, b: int) -> str`.
-/

namespace CodeClones.Signature

/-- The part of a parameter before its type or default. -/
def parameterHead (part : List Char) : List Char :=
  Text.trim (part.takeWhile fun c => c != ':' && c != '=')

/-- The parameter names between the first opening parenthesis and the next closing one. -/
def parameterNames? (signature : List Char) : Option (List (List Char)) :=
  match signature.dropWhile (· != '(') with
  | [] => none
  | _ :: tail =>
    if tail.contains ')' then
      let inner := Text.trim (tail.takeWhile (· != ')'))
      if inner.isEmpty then some []
      else
        some (((Text.splitOnChar (· == ',') inner).map parameterHead).filter (!·.isEmpty))
    else none

/-- The parameter names in the text of a signature. -/
def parameters? (signature : String) : Option (List String) :=
  (parameterNames? signature.toList).map (·.map String.ofList)

/-- The text behind the last arrow, without blanks and colons at its end. -/
def returnType? (signature : String) : Option String :=
  match Text.splitAtLast? ['-', '>'] signature.toList with
  | none => none
  | some (_, tail) =>
    let tail := Text.trim (Text.trimEndWith (· == ':') (Text.trim tail))
    if tail.isEmpty then none else some (String.ofList tail)

end CodeClones.Signature
