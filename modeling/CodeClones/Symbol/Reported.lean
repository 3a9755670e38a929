import CodeClones.Symbol.Basic
import CodeClones.Symbol.Signature

/-!
# Symbols reported by language servers

A language server reports symbols with a kind code, a range of lines counted from zero, and
optionally a signature. The content is cut from the source text as far as the range lies in it. The
lines of a report are words; where the number of its first line or the count of its lines leaves the
word the program stops.
-/

namespace CodeClones

/-- A symbol as a language server reports it. -/
structure ReportedSymbol where
  name : String
  code : Nat
  startLine : Nat
  endLine : Nat
  detail : Option String
  deriving DecidableEq, Repr

/-- The symbol of a report of a kind, with the number of its first line and the count of its
lines. -/
def ReportedSymbol.symbolOf (r : ReportedSymbol) (kind : Kind) (filePath source : String)
    (number count : Nat) : Symbol :=
  let content := "\n".intercalate ((source.sourceLines.drop r.startLine).take count)
  let base := Symbol.make r.name kind filePath number content
  { base with
    lineCount := count
    scope := if kind = .method then classScope else base.scope
    parameters := r.detail.bind Signature.parameters?
    returnType := r.detail.bind Signature.returnType? }

/-- The symbol that a report stands for; unknown kind codes stand for none. -/
def ReportedSymbol.toSymbol? (r : ReportedSymbol) (filePath source : String) :
    Except Abort (Option Symbol) :=
  match Kind.ofServerCode? r.code with
  | none => .ok none
  | some kind => do
    let count ← word .sum (max r.endLine r.startLine - r.startLine + 1)
    let number ← word .sum (r.startLine + 1)
    pure (some (r.symbolOf kind filePath source number count))

end CodeClones
