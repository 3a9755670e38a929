import CodeClones.Proofs.SingleOrder

/-!
# The order of numbers of 64 bits

Numbers of 64 bits are compared by their places as those of 32 bits are. So their comparisons are
transitive.
-/

namespace CodeClones.Double

open Float.Model (UnpackedFloat)

/-- The place of a number. -/
def place (x : Float) : ℤ ×ₗ ℤ ×ₗ ℤ := Single.placeOf x.toModel.unpack

variable {x y z : Float}

/-- Two numbers stand in the order of their places. -/
theorem compare_eq_some_iff {o : Ordering} :
    x.toModel.unpack.compare y.toModel.unpack = some o ↔
      (x.toModel.unpack.isNaN = false ∧ y.toModel.unpack.isNaN = false) ∧
        compare (place x) (place y) = o := by
  constructor
  · intro h
    obtain ⟨hx, hy⟩ := Single.isNaN_of_compare_isSome (Option.isSome_iff_exists.mpr ⟨o, h⟩)
    rw [Single.compare_eq hx hy, Option.some.injEq] at h
    exact ⟨⟨hx, hy⟩, h⟩
  · rintro ⟨⟨hx, hy⟩, h⟩
    exact (Single.compare_eq hx hy).trans (congrArg some h)

theorem le_iff_place : x ≤ y ↔
    (x.toModel.unpack.isNaN = false ∧ y.toModel.unpack.isNaN = false) ∧ place x ≤ place y := by
  change decide (x.toModel.unpack.le y.toModel.unpack = true) = true ↔ _
  rw [decide_eq_true_eq, UnpackedFloat.le, Option.any_eq_true]
  simp only [compare_eq_some_iff, and_assoc, exists_and_left, exists_eq_left',
    Ordering.isLE_iff_ne_gt, compare_gt_iff_gt, not_lt]

theorem lt_iff_place : x < y ↔
    (x.toModel.unpack.isNaN = false ∧ y.toModel.unpack.isNaN = false) ∧ place x < place y := by
  change decide (x.toModel.unpack.lt y.toModel.unpack = true) = true ↔ _
  rw [decide_eq_true_eq, UnpackedFloat.lt, beq_iff_eq, compare_eq_some_iff, compare_lt_iff_lt]

theorem le_trans (h : x ≤ y) (h' : y ≤ z) : x ≤ z := by
  obtain ⟨⟨hx, -⟩, hle⟩ := le_iff_place.mp h
  obtain ⟨⟨-, hz⟩, hle'⟩ := le_iff_place.mp h'
  exact le_iff_place.mpr ⟨⟨hx, hz⟩, hle.trans hle'⟩

theorem lt_of_lt_of_le (h : x < y) (h' : y ≤ z) : x < z := by
  obtain ⟨⟨hx, -⟩, hlt⟩ := lt_iff_place.mp h
  obtain ⟨⟨-, hz⟩, hle⟩ := le_iff_place.mp h'
  exact lt_iff_place.mpr ⟨⟨hx, hz⟩, hlt.trans_le hle⟩

theorem not_le_of_lt (h : x < y) : ¬y ≤ x := fun h' =>
  (lt_iff_place.mp h).2.not_ge (le_iff_place.mp h').2

end CodeClones.Double
