import CodeClones.Symbol.Basic

/-!
# Symbols as texts to embed

The text names what a symbol is and what it holds. Parts that a symbol lacks are left out, and so is
the scope of symbols outside classes and functions.
-/

namespace CodeClones

/-- The text of a symbol that is turned into a vector. -/
def Symbol.canonicalText (s : Symbol) : String :=
  let parameters := match s.parameters with
    | some (p :: ps) => " | parameters: " ++ ", ".intercalate (p :: ps)
    | _ => ""
  let result := match s.returnType with
    | some text => " | returns: " ++ text
    | none => ""
  let scope := if s.scope = "" ∨ s.scope = moduleScope then "" else " | scope: " ++ s.scope
  "name: " ++ s.name ++ " | type: " ++ s.kind.name ++ " | content: " ++ s.content.trimBlanks ++
    parameters ++ result ++ scope

end CodeClones
