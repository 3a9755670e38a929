import CodeClones.Digest.Blake3
import CodeClones.Embedding.Vector
import CodeClones.Json.Writer

/-!
# Keys of queries

A query is known by the digest of its text: the bits of the vector, the bits of the threshold, the
number of matches and the filter.
-/

namespace CodeClones

/-- The bytes of a number of 32 bits. -/
def singleBytes (x : Float32) : List UInt8 := Digest.littleEndian32 x.toBits

/-- The text of a query that its key is the digest of. -/
def queryText (vector : Embedding) (k : Nat) (threshold : Float32) (filter : Json.Object) :
    List UInt8 :=
  vector.flatMap singleBytes ++ "|t".toUTF8.toList ++ singleBytes threshold ++
    ("|k" ++ toString k ++ "|" ++ (Json.Value.object filter).compact).toUTF8.toList

/-- The key of a query. -/
def queryKey (vector : Embedding) (k : Nat) (threshold : Float32) (filter : Json.Object) :
    String :=
  Digest.Blake3.hexOf ⟨(queryText vector k threshold filter).toArray⟩

end CodeClones
