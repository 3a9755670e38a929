import CodeClones.Decimal.Binary
import Mathlib

/-!
# Reading and writing binary numbers

What is read from bits is kept as the format keeps it, and is written to the same bits again. A number
of 32 bits has a number of 64 bits of the same value, so that narrowing gives back what was widened.
-/

namespace CodeClones.Decimal.Format

variable {f : Format} {negative : Bool} {m bits : Nat} {q : Int}

/-- A format with room for a fraction and for more than one exponent. -/
structure Ample (f : Format) : Prop where
  precision : 1 ≤ f.precision
  exponentBits : 2 ≤ f.exponentBits

/-- A finite number as the format keeps it: with a full mantissa, or with the least exponent. -/
structure Canonical (f : Format) (m : Nat) (q : Int) : Prop where
  mantissa_lt : m < 2 ^ f.precision
  le_exponent : f.minExponent ≤ q
  full : q = f.minExponent ∨ 2 ^ (f.precision - 1) ≤ m
  inRange : (q - f.minExponent).toNat + 1 < f.topField

theorem two_pow_precision (h : f.Ample) : 2 ^ f.precision = 2 * 2 ^ (f.precision - 1) := by
  rw [← Nat.pow_succ', Nat.succ_eq_add_one, Nat.sub_add_cancel h.precision]

/-- The exponent at which a canonical number is rounded is its own. -/
theorem Canonical.exponent_eq (hf : f.Ample) (h : f.Canonical m q) (hm : m ≠ 0) :
    max f.minExponent (q + ((m.log2 + 1 : Nat) - f.precision : Int)) = q := by
  have hlog : m.log2 + 1 ≤ f.precision := (Nat.log2_lt hm).mpr h.mantissa_lt
  have hmin := h.le_exponent
  rcases h.full with hq | hfull
  · omega
  · have hlow : f.precision - 1 ≤ m.log2 := (Nat.le_log2 hm).mpr hfull
    have hp := hf.precision
    omega

/-- The bits of a canonical number stay below those of infinity. -/
theorem Canonical.bits_lt (hf : f.Ample) (h : f.Canonical m q) :
    (q - f.minExponent).toNat * 2 ^ (f.precision - 1) + m < f.topField * 2 ^ (f.precision - 1) := by
  have hm := h.mantissa_lt
  rw [two_pow_precision hf] at hm
  calc (q - f.minExponent).toNat * 2 ^ (f.precision - 1) + m
      < ((q - f.minExponent).toNat + 2) * 2 ^ (f.precision - 1) := by
        rw [Nat.add_mul]
        omega
    _ ≤ f.topField * 2 ^ (f.precision - 1) := Nat.mul_le_mul_right _ h.inRange

/-- The bits of a zero are its sign. -/
theorem write_zero : f.write (.finite negative 0 q) = write.signed f negative 0 := rfl

/-- The bits of a finite number are its exponent and its mantissa, one above the other. -/
theorem write_finite (hf : f.Ample) (h : f.Canonical m q) :
    f.write (.finite negative m q) =
      write.signed f negative ((q - f.minExponent).toNat * 2 ^ (f.precision - 1) + m) := by
  by_cases hm : m = 0
  · subst hm
    have hq : q = f.minExponent := h.full.resolve_right (by simp)
    simp [write, hq]
  · simp only [write, if_neg hm, h.exponent_eq hf hm, le_refl, if_true, sub_self, Int.toNat_zero,
      Nat.pow_eq, Nat.pow_zero, Nat.mul_one]
    rw [Nat.min_eq_left (h.bits_lt hf).le]

theorem two_pow_bits (hf : f.Ample) :
    2 ^ (f.precision + f.exponentBits) = 2 * 2 ^ (f.precision - 1 + f.exponentBits) := by
  rw [Nat.pow_add, two_pow_precision hf, Nat.mul_assoc, ← Nat.pow_add]

theorem three_le_topField (hf : f.Ample) : 3 ≤ f.topField := by
  have hpow : 2 ^ 2 ≤ 2 ^ f.exponentBits := Nat.pow_le_pow_right Nat.two_pos hf.exponentBits
  change 3 ≤ 2 ^ f.exponentBits - 1
  omega

/-- The sign is told by the bit above all others. -/
theorem read_signed (hbits : bits < 2 ^ (f.precision - 1 + f.exponentBits)) :
    f.read (write.signed f negative bits) =
      if bits / 2 ^ (f.precision - 1) = f.topField then
        if bits % 2 ^ (f.precision - 1) = 0 then .infinite negative else .notNumber
      else if bits / 2 ^ (f.precision - 1) = 0 then
        .finite negative (bits % 2 ^ (f.precision - 1)) f.minExponent
      else .finite negative (bits % 2 ^ (f.precision - 1) + 2 ^ (f.precision - 1))
        (f.minExponent + ((bits / 2 ^ (f.precision - 1) : Nat) - 1)) := by
  have hfield : bits / 2 ^ (f.precision - 1) < 2 ^ f.exponentBits := by
    rwa [Nat.div_lt_iff_lt_mul (Nat.two_pow_pos _), ← Nat.pow_add, Nat.add_comm]
  have hsigned : write.signed f negative bits =
      bits + 2 ^ (f.precision - 1) * (2 ^ f.exponentBits * negative.toNat) := by
    cases negative <;> simp [write.signed, Nat.pow_add]
  have hfraction : write.signed f negative bits % 2 ^ (f.precision - 1) =
      bits % 2 ^ (f.precision - 1) := by
    rw [hsigned, Nat.add_mul_mod_self_left]
  have habove : write.signed f negative bits / 2 ^ (f.precision - 1) =
      bits / 2 ^ (f.precision - 1) + 2 ^ f.exponentBits * negative.toNat := by
    rw [hsigned, Nat.add_mul_div_left _ _ (Nat.two_pow_pos _)]
  have hsign : write.signed f negative bits / 2 ^ (f.precision - 1 + f.exponentBits) =
      negative.toNat := by
    rw [Nat.pow_add, ← Nat.div_div_eq_div_mul, habove, Nat.add_mul_div_left _ _ (Nat.two_pow_pos _),
      Nat.div_eq_of_lt hfield, Nat.zero_add]
  have hnegative : (negative.toNat % 2 == 1) = negative := by cases negative <;> rfl
  simp only [read, Nat.pow_eq, hfraction, habove, hsign, hnegative, Nat.add_mul_mod_self_left,
    Nat.mod_eq_of_lt hfield]

/-- All bits are those of a sign and what stands below it. -/
theorem exists_signed (hf : f.Ample) (h : bits < 2 ^ (f.precision + f.exponentBits)) :
    ∃ negative below, below < 2 ^ (f.precision - 1 + f.exponentBits) ∧
      bits = write.signed f negative below := by
  have hhalf := two_pow_bits hf
  by_cases hlow : bits < 2 ^ (f.precision - 1 + f.exponentBits)
  · exact ⟨false, bits, hlow, rfl⟩
  · refine ⟨true, bits - 2 ^ (f.precision - 1 + f.exponentBits), by omega, ?_⟩
    change bits = bits - 2 ^ (f.precision - 1 + f.exponentBits) + 2 ^ (f.precision - 1 + f.exponentBits)
    omega

theorem canonical_of_fraction (hf : f.Ample) (hm : m < 2 ^ (f.precision - 1)) :
    f.Canonical m f.minExponent := by
  have htop := three_le_topField hf
  exact ⟨by rw [two_pow_precision hf]; omega, le_refl _, .inl rfl, by simp; omega⟩

theorem canonical_of_field {field : Nat} (hf : f.Ample) (hpos : field ≠ 0)
    (hfield : field < f.topField) (hm : m < 2 ^ (f.precision - 1)) :
    f.Canonical (m + 2 ^ (f.precision - 1)) (f.minExponent + ((field : Int) - 1)) :=
  ⟨by rw [two_pow_precision hf]; omega, by omega, .inr (by omega), by omega⟩

/-- A finite number is read from its bits. -/
theorem read_write_finite (hf : f.Ample) (h : f.Canonical m q) :
    f.read (f.write (.finite negative m q)) = .finite negative m q := by
  have hbits := h.bits_lt hf
  have htop := three_le_topField hf
  have hpos : 0 < 2 ^ (f.precision - 1) := Nat.two_pow_pos _
  have hmantissa := h.mantissa_lt
  have hmin := h.le_exponent
  have hrange := h.inRange
  rw [two_pow_precision hf] at hmantissa
  rw [write_finite hf h, read_signed]
  · by_cases hm : 2 ^ (f.precision - 1) ≤ m
    · have hsplit : (q - f.minExponent).toNat * 2 ^ (f.precision - 1) + m =
          m - 2 ^ (f.precision - 1) + 2 ^ (f.precision - 1) * ((q - f.minExponent).toNat + 1) := by
        rw [Nat.mul_add, Nat.mul_comm]
        omega
      have hlow : m - 2 ^ (f.precision - 1) < 2 ^ (f.precision - 1) := by omega
      rw [hsplit, Nat.add_mul_mod_self_left, Nat.add_mul_div_left _ _ hpos, Nat.div_eq_of_lt hlow,
        Nat.mod_eq_of_lt hlow, if_neg (by omega), if_neg (by omega)]
      congr 1 <;> omega
    · have hq : q = f.minExponent := h.full.resolve_right hm
      rw [hq, sub_self, Int.toNat_zero, Nat.zero_mul, Nat.zero_add, Nat.div_eq_of_lt (by omega),
        Nat.mod_eq_of_lt (by omega), if_neg (by omega), if_pos rfl]
  · refine hbits.trans_le ?_
    rw [Nat.pow_add, Nat.mul_comm]
    exact Nat.mul_le_mul_left _ (Nat.sub_le _ _)

theorem lt_topField {field : Nat} (hfield : field < 2 ^ f.exponentBits) (htop : field ≠ f.topField) :
    field < f.topField := by
  change field ≠ 2 ^ f.exponentBits - 1 at htop
  change field < 2 ^ f.exponentBits - 1
  omega

/-- Bits are those of what they stand for, unless that is no number. -/
theorem write_read (hf : f.Ample) (hbits : bits < 2 ^ (f.precision + f.exponentBits))
    (h : f.read bits ≠ .notNumber) : f.write (f.read bits) = bits := by
  obtain ⟨negative, below, hbelow, rfl⟩ := exists_signed hf hbits
  have hfraction : below % 2 ^ (f.precision - 1) < 2 ^ (f.precision - 1) :=
    Nat.mod_lt _ (Nat.two_pow_pos _)
  have hsplit := Nat.div_add_mod' below (2 ^ (f.precision - 1))
  rw [read_signed hbelow] at h ⊢
  split
  case isTrue htop =>
    rw [if_pos htop] at h
    have hzero : below % 2 ^ (f.precision - 1) = 0 := by
      by_contra hne
      exact h (if_neg hne)
    rw [htop, hzero] at hsplit
    rw [if_pos hzero]
    exact congrArg (write.signed f negative) hsplit
  case isFalse htop =>
    split
    case isTrue hzero =>
      rw [write_finite hf (canonical_of_fraction hf hfraction), sub_self, Int.toNat_zero, ← hzero,
        hsplit]
    case isFalse hzero =>
      have hfield : below / 2 ^ (f.precision - 1) < f.topField := lt_topField (by
        rwa [Nat.div_lt_iff_lt_mul (Nat.two_pow_pos _), ← Nat.pow_add, Nat.add_comm]) htop
      rw [write_finite hf (canonical_of_field hf hzero hfield hfraction)]
      congr 1
      rw [show (f.minExponent + (((below / 2 ^ (f.precision - 1) : Nat) : Int) - 1) -
        f.minExponent).toNat = below / 2 ^ (f.precision - 1) - 1 by omega, Nat.sub_mul]
      have hle := Nat.mul_le_mul_right (2 ^ (f.precision - 1)) (Nat.pos_of_ne_zero hzero)
      omega

/-- What is read from bits is kept as the format keeps it. -/
theorem canonical_of_read (hf : f.Ample) (h : f.read bits = .finite negative m q) :
    f.Canonical m q := by
  have hfraction : bits % 2 ^ (f.precision - 1) < 2 ^ (f.precision - 1) :=
    Nat.mod_lt _ (Nat.two_pow_pos _)
  have hfield : bits / 2 ^ (f.precision - 1) % 2 ^ f.exponentBits < 2 ^ f.exponentBits :=
    Nat.mod_lt _ (Nat.two_pow_pos _)
  simp only [read, Nat.pow_eq] at h
  split at h
  case isTrue =>
    split at h <;> cases h
  case isFalse htop =>
    split at h
    case isTrue =>
      cases h
      exact canonical_of_fraction hf hfraction
    case isFalse hzero =>
      cases h
      exact canonical_of_field hf hzero (lt_topField hfield htop) hfraction

/-- A doubled number is rounded as the number is, one place higher. -/
theorem shiftRounded_double (m shift : Nat) :
    shiftRounded (2 * m) (shift + 1) = shiftRounded m shift := by
  have hquotient : 2 * m / (2 * 2 ^ shift) = m / 2 ^ shift := Nat.mul_div_mul_left _ _ Nat.two_pos
  have hrest : 2 * m % (2 * 2 ^ shift) = 2 * (m % 2 ^ shift) := Nat.mul_mod_mul_left ..
  simp only [shiftRounded, Nat.pow_eq, Nat.pow_succ' (n := shift), hquotient, hrest]
  split <;> split <;> omega

theorem shiftRounded_zero (m : Nat) : shiftRounded m 0 = m := by
  simp [shiftRounded, Nat.mod_one]

/-- A number counts by its value: its double counts as much at the power of two below. -/
theorem write_double : f.write (.finite negative (2 * m) (q - 1)) = f.write (.finite negative m q) := by
  rcases Nat.eq_zero_or_pos m with rfl | hm
  · rfl
  · have hlog : (2 * m).log2 = m.log2 + 1 := Nat.log2_two_mul hm.ne'
    have hexponent : max f.minExponent (q - 1 + (((m.log2 + 1 + 1 : Nat) : Int) - f.precision)) =
        max f.minExponent (q + ((m.log2 + 1 : Nat) - f.precision)) := by
      congr 1
      omega
    have hrounded (e : Int) :
        (if e ≤ q - 1 then 2 * m * 2 ^ (q - 1 - e).toNat else shiftRounded (2 * m) (e - (q - 1)).toNat)
          = if e ≤ q then m * 2 ^ (q - e).toNat else shiftRounded m (e - q).toNat := by
      rcases lt_trichotomy e q with he | rfl | he
      · rw [if_pos (by omega), if_pos he.le, show (q - e).toNat = (q - 1 - e).toNat + 1 by omega,
          Nat.pow_succ', Nat.mul_left_comm, Nat.mul_assoc]
      · rw [if_neg (by omega), if_pos le_rfl, show (e - (e - 1)).toNat = 0 + 1 by omega,
          shiftRounded_double, shiftRounded_zero, sub_self, Int.toNat_zero, Nat.pow_zero, Nat.mul_one]
      · rw [if_neg (by omega), if_neg (by omega),
          show (e - (q - 1)).toNat = (e - q).toNat + 1 by omega, shiftRounded_double]
    simp only [write, hlog, hexponent, hrounded, Nat.pow_eq, if_neg hm.ne',
      if_neg (show ¬2 * m = 0 by omega)]

/-- Only the value of a finite number counts, and not how it is split. -/
theorem write_scaled (k : Nat) :
    f.write (.finite negative (m * 2 ^ k) (q - k)) = f.write (.finite negative m q) := by
  induction k with
  | zero => simp
  | succ k ih =>
    rw [← ih, ← write_double (q := q - k), Nat.pow_succ', Nat.mul_left_comm, Nat.cast_add_one,
      Int.sub_sub]

theorem signed_lt {below : Nat} (hf : f.Ample) (h : below < 2 ^ (f.precision - 1 + f.exponentBits)) :
    write.signed f negative below < 2 ^ (f.precision + f.exponentBits) := by
  have hhalf := two_pow_bits hf
  simp only [write.signed, Nat.pow_eq]
  split <;> omega

theorem topField_mul_lt :
    f.topField * 2 ^ (f.precision - 1) < 2 ^ (f.precision - 1 + f.exponentBits) := by
  rw [Nat.pow_add, Nat.mul_comm]
  exact Nat.mul_lt_mul_of_pos_left (Nat.sub_lt (Nat.two_pow_pos _) Nat.one_pos) (Nat.two_pow_pos _)

/-- What is written fits the format. -/
theorem write_lt (hf : f.Ample) (r : Reading) :
    f.write r < 2 ^ (f.precision + f.exponentBits) := by
  have htop := topField_mul_lt (f := f)
  cases r with
  | notNumber =>
    have hfraction : 2 ^ (f.precision - 2) ≤ 2 ^ (f.precision - 1) :=
      Nat.pow_le_pow_right Nat.two_pos (by omega)
    have hhalf := two_pow_bits hf
    have hle : 2 ^ (f.precision - 1) ≤ 2 ^ (f.precision - 1 + f.exponentBits) :=
      Nat.pow_le_pow_right Nat.two_pos (by omega)
    simp only [write, Nat.pow_eq]
    omega
  | infinite negative => exact signed_lt hf htop
  | finite negative m q =>
    simp only [write, Nat.pow_eq]
    split
    · exact signed_lt hf (Nat.two_pow_pos _)
    · exact signed_lt hf ((Nat.min_le_right _ _).trans_lt htop)

theorem single_ample : single.Ample := ⟨by decide, by decide⟩

theorem double_ample : double.Ample := ⟨by decide, by decide⟩

/-- A number of 32 bits is one of 64 bits, at a lower power of two. -/
theorem Canonical.widen (h : single.Canonical m q) (hm : m ≠ 0) :
    double.Canonical (m * 2 ^ (52 - m.log2)) (q - (52 - m.log2 : Nat)) := by
  have hlog : m.log2 < 24 := (Nat.log2_lt hm).mpr h.mantissa_lt
  have hlow : 2 ^ 52 ≤ m * 2 ^ (52 - m.log2) := by
    calc 2 ^ 52 = 2 ^ m.log2 * 2 ^ (52 - m.log2) := by rw [← Nat.pow_add]; congr 1; omega
      _ ≤ m * 2 ^ (52 - m.log2) := Nat.mul_le_mul_right _ (Nat.log2_self_le hm)
  have hhigh : m * 2 ^ (52 - m.log2) < 2 ^ 53 := by
    calc m * 2 ^ (52 - m.log2) < 2 ^ (m.log2 + 1) * 2 ^ (52 - m.log2) :=
          Nat.mul_lt_mul_of_pos_right Nat.lt_log2_self (Nat.two_pow_pos _)
      _ = 2 ^ 53 := by rw [← Nat.pow_add]; congr 1; omega
  have hmin : single.minExponent ≤ q := h.le_exponent
  have hrange : (q - single.minExponent).toNat + 1 < single.topField := h.inRange
  have hsingle : single.minExponent = -149 := rfl
  have hdouble : double.minExponent = -1074 := rfl
  have hsingleTop : single.topField = 255 := rfl
  have hdoubleTop : double.topField = 2047 := rfl
  exact ⟨hhigh, by omega, .inr hlow, by omega⟩

/-- A number of 32 bits is read from 64 bits with a full mantissa. -/
theorem read_double (h : single.Canonical m q) (hm : m ≠ 0) :
    double.read (double.write (.finite negative m q)) =
      .finite negative (m * 2 ^ (52 - m.log2)) (q - (52 - m.log2 : Nat)) := by
  rw [← write_scaled (52 - m.log2)]
  exact read_write_finite double_ample (h.widen hm)

/-- Bits of 32 come back from the bits of 64 that stand for the same. -/
theorem single_write_read_double (hbits : bits < 2 ^ 32) (h : single.read bits ≠ .notNumber) :
    double.read (double.write (single.read bits)) ≠ .notNumber ∧
      single.write (double.read (double.write (single.read bits))) = bits := by
  have hback := write_read single_ample hbits h
  cases hread : single.read bits with
  | notNumber => exact absurd hread h
  | infinite negative =>
    rw [hread] at hback
    have hinfinite : double.read (double.write (.infinite negative)) = .infinite negative := by
      cases negative <;> decide
    exact ⟨by simp [hinfinite], by rw [hinfinite, hback]⟩
  | finite negative m q =>
    have hcanonical := canonical_of_read single_ample hread
    rw [hread] at hback
    rcases Nat.eq_zero_or_pos m with rfl | hm
    · have hzero : double.read (double.write (.finite negative 0 q)) =
          .finite negative 0 double.minExponent := by
        rw [write_zero]
        cases negative <;> decide
      exact ⟨by simp [hzero], by rw [hzero, ← hback, write_zero, write_zero]⟩
    · have hwide : double.read (double.write (.finite negative m q)) = _ :=
        read_double hcanonical hm.ne'
      exact ⟨by simp [hwide], by rw [hwide, write_scaled, hback]⟩

end CodeClones.Decimal.Format

namespace CodeClones.Decimal

open Float.Model.UnpackedFloat

section Packed

variable {spec : Float.Model.Format}

theorem toNat_unpackMantissa (b : BitVec spec.numBits) :
    (unpackMantissa b).toNat = b.toNat % 2 ^ spec.mantissaBitsWithoutImplicit := by
  rw [unpackMantissa_def, BitVec.extractLsb'_toNat, Nat.shiftRight_zero]

theorem toNat_unpackExponent (b : BitVec spec.numBits) :
    (unpackExponent b).toNat =
      b.toNat / 2 ^ spec.mantissaBitsWithoutImplicit % 2 ^ spec.exponentBits := by
  rw [unpackExponent_def, BitVec.extractLsb'_toNat, Nat.shiftRight_eq_div_pow]

private theorem unpackExponent_eq_iff (b : BitVec spec.numBits) :
    unpackExponent b = -1#_ ↔
      b.toNat / 2 ^ spec.mantissaBitsWithoutImplicit % 2 ^ spec.exponentBits =
        2 ^ spec.exponentBits - 1 := by
  rw [← toNat_unpackExponent, ← BitVec.toNat_inj, BitVec.neg_one_eq_allOnes, BitVec.toNat_allOnes]

/-- No number is what a full exponent with a mantissa stands for. -/
theorem read_eq_notNumber_iff (b : BitVec spec.numBits) :
    (Format.mk (spec.mantissaBitsWithoutImplicit + 1) spec.exponentBits).read b.toNat =
      .notNumber ↔ isNaNBits b := by
  have hm : unpackMantissa b = 0#_ ↔ b.toNat % 2 ^ spec.mantissaBitsWithoutImplicit = 0 := by
    rw [← toNat_unpackMantissa, ← BitVec.toNat_inj, BitVec.toNat_zero]
  simp only [isNaNBits, decide_eq_true_eq, Format.read, Format.topField, Nat.pow_eq,
    Nat.add_sub_cancel, unpackExponent_eq_iff, ne_eq, hm]
  split <;> split <;> simp_all

/-- What is read as finite is no infinity. -/
theorem isInf_unpack {b : BitVec spec.numBits} {negative : Bool} {m : Nat} {q : Int}
    (h : (Format.mk (spec.mantissaBitsWithoutImplicit + 1) spec.exponentBits).read b.toNat =
      .finite negative m q) : (unpack spec b).isInf = false := by
  have hexp : unpackExponent b ≠ -1#_ := by
    intro hexp
    rw [unpackExponent_eq_iff] at hexp
    simp only [Format.read, Format.topField, Nat.pow_eq, Nat.add_sub_cancel, hexp] at h
    split at h <;> split at h <;> simp_all
  rw [unpack, if_neg hexp]
  split
  · split <;> rfl
  · rfl

end Packed

/-- What is no number of 32 bits has one form. -/
theorem eq_of_read32_eq_notNumber {x : Float32} (h : read32 x = .notNumber) :
    x = Float32.ofBits 0x7fc00000 := by
  have hnan := (@read_eq_notNumber_iff .binary32 x.toBits.toBitVec).mp h
  obtain ⟨hexp, hm⟩ := of_decide_eq_true hnan
  have hbits : x.toBits.toBitVec = packedNaN .binary32 := x.toModel.valid.eq_packedNaN hexp hm
  refine Float32.toBits_inj.mp (UInt32.toBitVec_inj.mp (hbits.trans ?_))
  decide +kernel

/-- What is no number of 64 bits has one form. -/
theorem eq_of_read64_eq_notNumber {x : Float} (h : read64 x = .notNumber) :
    x = Float.ofBits 0x7ff8000000000000 := by
  have hnan := (@read_eq_notNumber_iff .binary64 x.toBits.toBitVec).mp h
  obtain ⟨hexp, hm⟩ := of_decide_eq_true hnan
  have hbits : x.toBits.toBitVec = packedNaN .binary64 := x.toModel.valid.eq_packedNaN hexp hm
  refine Float.toBits_inj.mp (UInt64.toBitVec_inj.mp (hbits.trans ?_))
  decide +kernel

/-- A number of 64 bits is no infinity if it is read as finite. -/
theorem isInf_of_read64 {x : Float} {negative : Bool} {m : Nat} {q : Int}
    (h : read64 x = .finite negative m q) : x.isInf = false :=
  @isInf_unpack .binary64 x.toBits.toBitVec negative m q h

/-- Bits that stand for a number of 64 bits come back from it. -/
theorem toBits_ofBits64 {w : UInt64} (h : Format.double.read w.toNat ≠ .notNumber) :
    (Float.ofBits w).toBits = w := by
  have hnumber : ¬@isNaNBits .binary64 w.toBitVec := fun hnan =>
    h ((read_eq_notNumber_iff _).mpr hnan)
  refine UInt64.toBitVec_inj.mp ((@pack_unpack .binary64 w.toBitVec (by decide)).trans ?_)
  rw [if_neg hnumber]

/-- A number of 32 bits comes back from 64 bits. -/
theorem narrow_widen (x : Float32) : narrow (widen x) = x := by
  by_cases h : read32 x = .notNumber
  · rw [eq_of_read32_eq_notNumber h]
    decide +kernel
  · obtain ⟨hnumber, hback⟩ := Format.single_write_read_double x.toBits.toNat_lt h
    have hnat : (Format.double.write (read32 x)).toUInt64.toNat = Format.double.write (read32 x) :=
      UInt64.toNat_ofNat_of_lt' (Format.write_lt Format.double_ample _)
    have hread : read64 (widen x) = Format.double.read (Format.double.write (read32 x)) := by
      rw [read64, widen, toBits_ofBits64 (by rwa [hnat]), hnat]
    rw [narrow, hread, read32, hback]
    exact (congrArg Float32.ofBits x.toBits.ofNat_toNat).trans x.ofBits_toBits

end CodeClones.Decimal
