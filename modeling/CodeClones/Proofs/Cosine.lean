import CodeClones.Embedding.Vector
import Mathlib.Data.List.Zip

/-!
# The cosine does not tell its vectors apart

A product of two numbers of 32 bits is rounded in the same way whichever of them stands first. So
the cosine of two vectors has the same bits from either side.
-/

namespace CodeClones

namespace Single

open Float.Model (Format UnpackedFloat)

private theorem sign_mul_comm (s t : UnpackedFloat.Sign) : s * t = t * s := by
  cases s <;> cases t <;> rfl

private theorem unpacked_mul_comm (format : Format) (a b : UnpackedFloat) :
    a.mul format b = b.mul format a := by
  cases a with
  | notANumber => cases b <;> rfl
  | infinity s =>
    cases b with
    | infinity t => exact congrArg UnpackedFloat.infinity (sign_mul_comm s t)
    | finite t => exact congrArg UnpackedFloat.infinity (sign_mul_comm s t)
    | _ => rfl
  | zero s =>
    cases b with
    | zero t => exact congrArg UnpackedFloat.zero (sign_mul_comm s t)
    | finite t => exact congrArg UnpackedFloat.zero (sign_mul_comm s t)
    | _ => rfl
  | finite s m e =>
    cases b with
    | notANumber => rfl
    | infinity t => exact congrArg UnpackedFloat.infinity (sign_mul_comm s t)
    | zero t => exact congrArg UnpackedFloat.zero (sign_mul_comm s t)
    | finite t n k =>
      change UnpackedFloat.roundWithAccuracy format (s * t) (m * n) (e + k) .exact =
        UnpackedFloat.roundWithAccuracy format (t * s) (n * m) (k + e) .exact
      rw [sign_mul_comm, Nat.mul_comm, Int.add_comm]

/-- Two numbers have one product. -/
theorem mul_comm (x y : Float32) : x * y = y * x := by
  obtain ⟨a⟩ := x
  obtain ⟨b⟩ := y
  change Float32.ofModel (.pack (a.unpack.mul .binary32 b.unpack)) =
    Float32.ofModel (.pack (b.unpack.mul .binary32 a.unpack))
  rw [unpacked_mul_comm]

end Single

namespace Embedding

theorem dot_comm (a b : Embedding) : a.dot b = b.dot a := by
  rw [dot, dot, ← List.zip_swap a b, List.foldl_map]
  simp only [Prod.fst_swap, Prod.snd_swap, Single.mul_comm]

/-- Two vectors have one cosine. -/
theorem cosine_comm (a b : Embedding) : cosine a b = cosine b a := by
  have hshape : (a.isEmpty || b.isEmpty || a.length != b.length) =
      (b.isEmpty || a.isEmpty || b.length != a.length) := by
    rw [Bool.or_comm a.isEmpty, bne_comm]
  have hlimits : (a.normSquared ≤ directionLimit || b.normSquared ≤ directionLimit : Bool) =
      (b.normSquared ≤ directionLimit || a.normSquared ≤ directionLimit : Bool) :=
    Bool.or_comm ..
  unfold cosine
  dsimp only
  rw [hshape, hlimits, dot_comm a b, Single.mul_comm a.normSquared.sqrt]

end Embedding

end CodeClones
