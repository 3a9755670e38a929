import CodeClones.Duplicate.Basic
import CodeClones.Store.Batch
import CodeClones.Symbol.Metadata

/-!
# Pairs of similar symbols

The answers of a search name, for every symbol, the stored vectors near it. Every pair of two
different identifiers counts once, when it is met first. The other symbol is one of those searched
for, or is restored from the stored metadata; what cannot be restored is passed over.
-/

namespace CodeClones

/-- The two identifiers in ascending order. -/
def orderedPair (a b : String) : String × String := if a < b then (a, b) else (b, a)

/-- The symbol of a match. -/
def Match.symbol? (symbols : List Symbol) (m : Match) : Option Symbol :=
  match symbols.reverse.find? fun s => s.id == m.id with
  | some s => some s
  | none => (Symbol.ofMetadata m.metadata).toOption

/-- The pairs of a symbol with its matches, given the pairs met before. -/
def pairsWith (symbols : List Symbol) (s : Symbol) (seen : List (String × String)) :
    List Match → List (String × String) × List (Symbol × Symbol × Float32)
  | [] => (seen, [])
  | m :: rest =>
    let pair := orderedPair s.id m.id
    if m.id == s.id || seen.contains pair then pairsWith symbols s seen rest
    else
      let (seen, pairs) := pairsWith symbols s (pair :: seen) rest
      (seen, ((m.symbol? symbols).map fun other => (s, other, m.score)).toList ++ pairs)

/-- The pairs in the answers of a search, given the pairs met before. -/
def pairsIn (symbols : List Symbol) (seen : List (String × String)) :
    BatchAnswer → List (Symbol × Symbol × Float32)
  | [] => []
  | (position, hits) :: rest =>
    match symbols[position]? with
    | none => pairsIn symbols seen rest
    | some s =>
      let (seen, pairs) := pairsWith symbols s seen hits
      pairs ++ pairsIn symbols seen rest

/-- The duplicates in the answers of a search, in the order of listings. -/
def duplicatesIn (symbols : List Symbol) (answers : BatchAnswer) (t : Thresholds) :
    List Duplicate :=
  ((pairsIn symbols [] answers).map fun (a, b, score) => Duplicate.make a b score t).mergeSort
    Duplicate.before

end CodeClones
