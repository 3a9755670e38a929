import Mathlib.Data.Prod.Lex
import Mathlib.Order.Compare

/-!
# The order of numbers of 32 bits

All numbers but the one that is not a number stand in one line: first by their sign, then by their
exponent, then by their digits, where both zeros have one place. Comparisons compare these places,
and a comparison with what is not a number fails.
-/

namespace CodeClones.Single

open Float.Model (UnpackedFloat)

/-- The place of an unpacked number. -/
def placeOf : UnpackedFloat → ℤ ×ₗ ℤ ×ₗ ℤ
  | .infinity .negative => toLex (-2, toLex (0, 0))
  | .finite .negative digits exponent _ => toLex (-1, toLex (-exponent, -digits))
  | .zero _ => toLex (0, toLex (0, 0))
  | .finite .positive digits exponent _ => toLex (1, toLex (exponent, digits))
  | .infinity .positive => toLex (2, toLex (0, 0))
  | .notANumber => toLex (3, toLex (0, 0))

private theorem compare_neg (a b : ℤ) : compare (-a) (-b) = (compare a b).swap := by
  rcases lt_trichotomy a b with h | rfl | h
  · rw [compare_lt_iff_lt.mpr h, compare_gt_iff_gt.mpr (Int.neg_lt_neg h)]
    rfl
  · simp
  · rw [compare_gt_iff_gt.mpr h, compare_lt_iff_lt.mpr (Int.neg_lt_neg h)]
    rfl

private theorem compare_natCast (m n : ℕ) : compare (m : ℤ) n = compare m n := by
  rcases lt_trichotomy m n with h | rfl | h
  · rw [compare_lt_iff_lt.mpr h, compare_lt_iff_lt.mpr (Int.ofNat_lt.mpr h)]
  · simp
  · rw [compare_gt_iff_gt.mpr h, compare_gt_iff_gt.mpr (Int.ofNat_lt.mpr h)]

/-- Numbers of one sign are compared by their exponents, then by their digits. -/
private theorem compare_finite (sign e f x y : ℤ) :
    compare (toLex (sign, toLex (e, x))) (toLex (sign, toLex (f, y))) =
      (compare e f).then (compare x y) := by
  change (compare sign sign).then ((compare e f).then (compare x y)) = _
  rw [compare_eq_iff_eq.mpr rfl]
  rfl

/-- A comparison of numbers compares their places. -/
theorem compare_eq {a b : UnpackedFloat} (ha : a.isNaN = false) (hb : b.isNaN = false) :
    a.compare b = some (compare (placeOf a) (placeOf b)) := by
  rcases a with (_ | _) | _ | _ | ⟨_ | _, m, e, _⟩ <;>
    rcases b with (_ | _) | _ | _ | ⟨_ | _, n, f, _⟩
  case finite.negative.finite.negative =>
    change some ((compare e f).then (compare m n)).swap =
      some (compare (toLex (-1, toLex (-e, -(m : ℤ)))) (toLex (-1, toLex (-f, -(n : ℤ)))))
    rw [compare_finite, compare_neg, compare_neg, compare_natCast, Ordering.swap_then]
  case finite.positive.finite.positive =>
    change some ((compare e f).then (compare m n)) =
      some (compare (toLex (1, toLex (e, (m : ℤ)))) (toLex (1, toLex (f, (n : ℤ)))))
    rw [compare_finite, compare_natCast]
  -- numbers of different kinds are told apart by the first component of their places
  all_goals first | rfl | (cases ha; done) | cases hb

/-- What is not a number cannot be compared. -/
theorem isNaN_of_compare_isSome {a b : UnpackedFloat} (h : (a.compare b).isSome) :
    a.isNaN = false ∧ b.isNaN = false := by
  cases a <;> cases b <;> first | exact ⟨rfl, rfl⟩ | exact nomatch h

/-- The place of a number. -/
def place (x : Float32) : ℤ ×ₗ ℤ ×ₗ ℤ := placeOf x.toModel.unpack

variable {x y : Float32}

private theorem lt_def : x < y ↔ x.toModel.unpack.compare y.toModel.unpack = some .lt := by
  change decide (x.toModel.unpack.lt y.toModel.unpack = true) = true ↔ _
  rw [decide_eq_true_eq, UnpackedFloat.lt, beq_iff_eq]

private theorem le_def :
    x ≤ y ↔ ∃ o, x.toModel.unpack.compare y.toModel.unpack = some o ∧ o.isLE := by
  change decide (x.toModel.unpack.le y.toModel.unpack = true) = true ↔ _
  rw [decide_eq_true_eq, UnpackedFloat.le, Option.any_eq_true]

private theorem beq_def :
    (x == y) = true ↔ x.toModel.unpack.compare y.toModel.unpack = some .eq := by
  change (x.toModel.unpack.compare y.toModel.unpack == some .eq) = true ↔ _
  rw [beq_iff_eq]

/-- What is compared successfully are numbers. -/
theorem isNaN_of_le (h : x ≤ y) : x.isNaN = false ∧ y.isNaN = false := by
  obtain ⟨o, ho, -⟩ := le_def.mp h
  exact isNaN_of_compare_isSome (ho ▸ rfl)

/-- The smaller of two numbers comes first. -/
theorem lt_iff_place (hx : x.isNaN = false) (hy : y.isNaN = false) : x < y ↔ place x < place y := by
  rw [lt_def, compare_eq hx hy, Option.some.injEq, compare_lt_iff_lt]
  rfl

/-- Equal numbers have one place. -/
theorem beq_iff_place (hx : x.isNaN = false) (hy : y.isNaN = false) :
    (x == y) = true ↔ place x = place y := by
  rw [beq_def, compare_eq hx hy, Option.some.injEq, compare_eq_iff_eq]
  rfl

/-- Two numbers are in order exactly if their places are. -/
theorem le_iff_place :
    x ≤ y ↔ (x.isNaN = false ∧ y.isNaN = false) ∧ place x ≤ place y := by
  constructor
  · intro h
    have hnumbers := isNaN_of_le h
    obtain ⟨o, ho, hle⟩ := le_def.mp h
    rw [compare_eq hnumbers.1 hnumbers.2, Option.some.injEq] at ho
    exact ⟨hnumbers, compare_le_iff_le.mp (Ordering.isLE_iff_ne_gt.mp (ho ▸ hle))⟩
  · rintro ⟨⟨hx, hy⟩, h⟩
    exact le_def.mpr ⟨_, compare_eq hx hy, Ordering.isLE_iff_ne_gt.mpr (compare_le_iff_le.mpr h)⟩

theorem le_trans {z : Float32} (h : x ≤ y) (h' : y ≤ z) : x ≤ z := by
  obtain ⟨⟨hx, -⟩, hle⟩ := le_iff_place.mp h
  obtain ⟨⟨-, hz⟩, hle'⟩ := le_iff_place.mp h'
  exact le_iff_place.mpr ⟨⟨hx, hz⟩, hle.trans hle'⟩

theorem le_of_lt (h : x < y) : x ≤ y := by
  have hcompare := lt_def.mp h
  exact le_def.mpr ⟨.lt, hcompare, rfl⟩

end CodeClones.Single
