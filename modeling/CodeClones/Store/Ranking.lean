import CodeClones.Store.Basic

/-!
# Ranking

A search looks at every candidate: those that satisfy the filter and score high enough are put in
descending order of their scores, equal scores in ascending order of their identifiers, and the first
`k` are the answer.
-/

namespace CodeClones

/-- Whether metadata has the value that a filter demands under every key of the filter. -/
def satisfies (metadata filter : Json.Object) : Bool :=
  filter.all fun (key, demanded) => (Json.Object.get? metadata key).any (·.equal demanded)

/-- A candidate as a match, if it satisfies the filter and scores high enough. -/
def Record.match? (vector : Embedding) (threshold : Float32) (filter : Json.Object) (r : Record) :
    Option Match :=
  let score := Embedding.cosine vector r.vector
  if satisfies r.metadata filter && threshold ≤ score then
    some ⟨r.id, score, 1 - score, r.metadata⟩
  else none

/-- The order of matches. -/
def Match.before (a b : Match) : Bool := b.score < a.score || (a.score == b.score && a.id ≤ b.id)

/-- The best `k` matches among candidates. -/
def rank (candidates : List Record) (vector : Embedding) (k : Nat) (threshold : Float32)
    (filter : Json.Object) : List Match :=
  ((candidates.filterMap (Record.match? vector threshold filter)).mergeSort Match.before).take k

end CodeClones
