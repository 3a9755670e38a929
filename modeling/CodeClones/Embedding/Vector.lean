/-!
# Vectors

Vectors of 32-bit numbers. Sums run from the left, so that equal inputs give equal bits.
-/

namespace CodeClones

/-- A vector. -/
abbrev Embedding := List Float32

namespace Embedding

/-- The sum of the squares of the components. -/
def normSquared (v : Embedding) : Float32 := v.foldl (fun sum x => sum + x * x) 0

/-- The sum of the products of components at equal places. -/
def dot (a b : Embedding) : Float32 := (a.zip b).foldl (fun sum (x, y) => sum + x * y) 0

/-- The vector scaled to length one; a vector of nearly no length stays as it is. -/
def normalize (v : Embedding) : Embedding :=
  let norm := v.normSquared.sqrt
  if norm < 1e-8 then v else v.map (· / norm)

/-- The least squared length at which a vector has a direction, two to the power of minus 23. -/
def directionLimit : Float32 := Float32.ofBits 0x34000000

/-- A value brought into the range of 0 and 1. -/
def clampUnit (x : Float32) : Float32 := if x < 0 then 0 else if 1 < x then 1 else x

/-- The cosine of the angle between two vectors, at least 0 and at most 1. Vectors of different
lengths, or without a direction, are not similar at all. -/
def cosine (a b : Embedding) : Float32 :=
  if a.isEmpty || b.isEmpty || a.length != b.length then 0
  else
    let na := a.normSquared
    let nb := b.normSquared
    if na ≤ directionLimit || nb ≤ directionLimit then 0
    else clampUnit (a.dot b / (na.sqrt * nb.sqrt))

end Embedding

end CodeClones
