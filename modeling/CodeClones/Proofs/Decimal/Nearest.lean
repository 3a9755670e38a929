import CodeClones.Decimal.Notation
import CodeClones.Decimal.Nearest
import CodeClones.Proofs.Decimal.Binary

/-!
# Decimals that read back

Every decimal in the rounding interval of a binary number is read as that number: the interval ends
where rounding turns to a neighbour, with its ends where the even mantissa wins. The shortest
decimal lies in the interval, so that it reads back.
-/

namespace CodeClones.Decimal

section Rounding

variable {m n k : Nat}

/-- What is within half a unit of a whole number is rounded to it, and what is exactly half a unit
away if the number is even. -/
theorem shiftRounded_eq (hlow : 2 * m * 2 ^ k ≤ n + 2 ^ k) (hhigh : n ≤ 2 * m * 2 ^ k + 2 ^ k)
    (hodd : m % 2 = 1 → 2 * m * 2 ^ k < n + 2 ^ k ∧ n < 2 * m * 2 ^ k + 2 ^ k) :
    shiftRounded n (k + 1) = m := by
  have hsplit (a d : Nat) (hd : d < 2 * 2 ^ k) :
      (2 * a * 2 ^ k + d) / (2 * 2 ^ k) = a ∧ (2 * a * 2 ^ k + d) % (2 * 2 ^ k) = d := by
    rw [Nat.mul_right_comm, Nat.mul_add_div (Nat.zero_lt_of_lt hd), Nat.mul_add_mod,
      Nat.div_eq_of_lt hd, Nat.mod_eq_of_lt hd]
    exact ⟨rfl, rfl⟩
  have hpos : 0 < 2 ^ k := Nat.two_pow_pos k
  simp only [shiftRounded, Nat.pow_eq, Nat.pow_succ' (n := k)]
  rcases Nat.lt_or_ge n (2 * m * 2 ^ k) with hbelow | habove
  · obtain ⟨m, rfl⟩ : ∃ l, m = l + 1 := Nat.exists_eq_succ_of_ne_zero fun h => by simp [h] at hbelow
    rw [Nat.mul_succ, Nat.add_mul] at hlow hhigh hodd hbelow
    obtain ⟨d, rfl⟩ := Nat.exists_eq_add_of_le (show 2 * m * 2 ^ k ≤ n by omega)
    obtain ⟨hquotient, hrest⟩ := hsplit m d (by omega)
    rw [hquotient, hrest, if_pos]
    omega
  · obtain ⟨d, rfl⟩ := Nat.exists_eq_add_of_le habove
    obtain ⟨hquotient, hrest⟩ := hsplit m d (by omega)
    rw [hquotient, hrest, if_neg]
    omega

end Rounding

namespace Format

variable {f : Format} {negative : Bool} {m n k : Nat} {q : Int}

/-- The lower end of the rounding interval in quarters of a unit. -/
def lowEnd (f : Format) (m : Nat) (q : Int) : Nat :=
  if m = 2 ^ (f.precision - 1) ∧ f.minExponent < q then 4 * m - 1 else 4 * m - 2

theorem lowEnd_bounds (f : Format) (m : Nat) (q : Int) :
    4 * m - 2 ≤ f.lowEnd m q ∧ f.lowEnd m q ≤ 4 * m - 1 := by
  rw [lowEnd]
  split <;> omega

/-- A number of `2 ^ k` parts to a quarter of a unit, within the rounding interval. -/
structure Near (f : Format) (m : Nat) (q : Int) (k n : Nat) : Prop where
  low : f.lowEnd m q * 2 ^ k ≤ n
  high : n ≤ (4 * m + 2) * 2 ^ k
  odd : m % 2 = 1 → f.lowEnd m q * 2 ^ k < n ∧ n < (4 * m + 2) * 2 ^ k

/-- The exponent at which a number is rounded tells the bits it is rounded to. -/
theorem write_at {e p : Int} (hn : n ≠ 0)
    (he : max f.minExponent (p + ((n.log2 + 1 : Nat) - f.precision : Int)) = e) (hlt : p < e) :
    f.write (.finite negative n p) = write.signed f negative
      (min ((e - f.minExponent).toNat * 2 ^ (f.precision - 1) + shiftRounded n (e - p).toNat)
        (f.topField * 2 ^ (f.precision - 1))) := by
  simp only [write, if_neg hn, he, Nat.pow_eq, if_neg (not_le.mpr hlt)]

theorem Near.ne_zero (hm : m ≠ 0) (hn : f.Near m q k n) : n ≠ 0 := by
  have hlow := (lowEnd_bounds f m q).1
  have hpos : 0 < f.lowEnd m q * 2 ^ k := Nat.mul_pos (by omega) (Nat.two_pow_pos k)
  exact (hpos.trans_le hn.low).ne'

theorem Near.log2_le (h : f.Canonical m q) (hm : m ≠ 0) (hn : f.Near m q k n) :
    n.log2 ≤ f.precision + 1 + k := by
  refine Nat.lt_succ_iff.mp ((Nat.log2_lt (hn.ne_zero hm)).mpr ?_)
  have hmantissa : 4 * m + 2 < 2 ^ (f.precision + 2) := by
    have hlt := h.mantissa_lt
    rw [Nat.pow_add]
    omega
  calc n ≤ (4 * m + 2) * 2 ^ k := hn.high
    _ < 2 ^ (f.precision + 2) * 2 ^ k := Nat.mul_lt_mul_of_pos_right hmantissa (Nat.two_pow_pos k)
    _ = 2 ^ (f.precision + 1 + k + 1) := by
      rw [← Nat.pow_add]
      congr 1
      omega

/-- The bounds in units of the last part. -/
theorem Near.bounds (hn : f.Near m q k n) :
    4 * (m * 2 ^ k) ≤ n + 2 * 2 ^ k ∧ n ≤ 4 * (m * 2 ^ k) + 2 * 2 ^ k ∧
      (m % 2 = 1 → 4 * (m * 2 ^ k) < n + 2 * 2 ^ k ∧ n < 4 * (m * 2 ^ k) + 2 * 2 ^ k) := by
  have hend : 4 * (m * 2 ^ k) ≤ f.lowEnd m q * 2 ^ k + 2 * 2 ^ k := by
    rw [← Nat.mul_assoc, ← Nat.add_mul]
    exact Nat.mul_le_mul_right _ (by have := (lowEnd_bounds f m q).1; omega)
  have hhigh : (4 * m + 2) * 2 ^ k = 4 * (m * 2 ^ k) + 2 * 2 ^ k := by ring
  have hlow := hn.low
  have hle := hn.high
  have hodd := hn.odd
  rw [hhigh] at hle hodd
  refine ⟨by omega, hle, fun h => ?_⟩
  have hstrict := hodd h
  omega

/-- Below a full mantissa that is the least one, rounding takes place one exponent lower and carries
into the number. -/
theorem write_of_near_below (hf : f.Ample) (h : f.Canonical m q) (hn : f.Near m q k n)
    (hleast : m = 2 ^ (f.precision - 1)) (hq : f.minExponent < q) (hlt : n < 4 * (m * 2 ^ k)) :
    f.write (.finite negative n (q - 2 - k)) = f.write (.finite negative m q) := by
  have hm : m ≠ 0 := hleast ▸ (Nat.two_pow_pos _).ne'
  have hfull : 4 * (m * 2 ^ k) = 2 ^ (f.precision + k + 1) := by
    rw [hleast, ← Nat.pow_add, show 4 = 2 ^ 2 from rfl, ← Nat.pow_add]
    have hp := hf.precision
    congr 1
    omega
  have hend : 4 * (m * 2 ^ k) ≤ n + 2 ^ k := by
    have hlow := hn.low
    rw [lowEnd, if_pos ⟨hleast, hq⟩, Nat.sub_mul, Nat.mul_assoc] at hlow
    omega
  have hunit : 2 ^ k ≤ 2 ^ (f.precision + k) := Nat.pow_le_pow_right Nat.two_pos (by omega)
  have hlog : n.log2 = f.precision + k := by
    rw [Nat.log2_eq_iff (hn.ne_zero hm)]
    omega
  have he : max f.minExponent (q - 2 - k + ((n.log2 + 1 : Nat) - f.precision : Int)) = q - 1 := by
    omega
  have hrounded : shiftRounded n (k + 1) = 2 * m := by
    refine shiftRounded_eq ?_ ?_ fun h => by omega
    all_goals
      rw [← Nat.mul_assoc, Nat.mul_assoc]
      omega
  have hcarry : (q - f.minExponent).toNat * 2 ^ (f.precision - 1) =
      (q - 1 - f.minExponent).toNat * 2 ^ (f.precision - 1) + 2 ^ (f.precision - 1) := by
    rw [show (q - f.minExponent).toNat = (q - 1 - f.minExponent).toNat + 1 by omega, Nat.succ_mul]
  have hbits := h.bits_lt hf
  rw [hcarry] at hbits
  rw [write_at (hn.ne_zero hm) he (by omega), write_finite hf h,
    show (q - 1 - (q - 2 - (k : Int))).toNat = k + 1 by omega, hrounded,
    hcarry]
  congr 1
  omega

/-- What lies in the rounding interval of a number is written as the number. -/
theorem write_of_near (hf : f.Ample) (h : f.Canonical m q) (hm : m ≠ 0) (hn : f.Near m q k n) :
    f.write (.finite negative n (q - 2 - k)) = f.write (.finite negative m q) := by
  by_cases hbelow : m = 2 ^ (f.precision - 1) ∧ f.minExponent < q ∧ n < 4 * (m * 2 ^ k)
  · exact write_of_near_below hf h hn hbelow.1 hbelow.2.1 hbelow.2.2
  obtain ⟨hlow, hhigh, hodd⟩ := hn.bounds
  have hmin := h.le_exponent
  have hlog := hn.log2_le h hm
  have he : max f.minExponent (q - 2 - k + ((n.log2 + 1 : Nat) - f.precision : Int)) = q := by
    rcases eq_or_lt_of_le hmin with rfl | hq
    · omega
    · have hfull : 2 ^ (f.precision - 1) ≤ m := h.full.resolve_left hq.ne'
      have hpow : 2 ^ (f.precision + 1 + k) = 4 * (2 ^ (f.precision - 1) * 2 ^ k) := by
        have hp := hf.precision
        rw [show 4 = 2 ^ 2 from rfl, ← Nat.pow_add, ← Nat.pow_add]
        congr 1
        omega
      have hle : f.precision + 1 + k ≤ n.log2 := by
        rw [Nat.le_log2 (hn.ne_zero hm), hpow]
        rcases eq_or_lt_of_le hfull with heq | hlt
        · rw [heq]
          exact not_lt.mp fun h => hbelow ⟨heq.symm, hq, h⟩
        · have hnext := Nat.mul_le_mul_right (2 ^ k) hlt
          rw [Nat.succ_mul] at hnext
          omega
      omega
  have hrounded : shiftRounded n (k + 1 + 1) = m := by
    refine shiftRounded_eq ?_ ?_ fun h => ?_
    all_goals
      rw [Nat.pow_succ', Nat.mul_left_comm, Nat.mul_assoc]
      omega
  rw [write_at (hn.ne_zero hm) he (by omega), write_finite hf h,
    show (q - (q - 2 - (k : Int))).toNat = k + 1 + 1 by omega, hrounded,
    Nat.min_eq_left (h.bits_lt hf).le]

end Format

/-- A number of 64 bits is that of the bits it is written as. -/
theorem ofBits_write_read64 {x : Float} (h : read64 x ≠ .notNumber) :
    Float.ofBits (Format.double.write (read64 x)).toUInt64 = x := by
  rw [read64, Format.write_read Format.double_ample x.toBits.toNat_lt h]
  exact (congrArg Float.ofBits x.toBits.ofNat_toNat).trans x.ofBits_toBits

section Sticky

variable {a b n : Nat}

/-- Twice a quotient, and one more if something is cut off. -/
def doubledQuotient (a b : Nat) : Nat := 2 * (a / b) + if a % b = 0 then 0 else 1

/-- It is compared with even numbers as the exact quotient is. -/
theorem le_doubledQuotient_iff (hb : 0 < b) : 2 * n ≤ doubledQuotient a b ↔ n * b ≤ a := by
  rw [← Nat.le_div_iff_mul_le hb, doubledQuotient]
  split <;> omega

theorem doubledQuotient_le_iff (hb : 0 < b) : doubledQuotient a b ≤ 2 * n ↔ a ≤ n * b := by
  rw [doubledQuotient]
  split
  case isTrue hrest =>
    have hexact := Nat.div_mul_cancel (Nat.dvd_of_mod_eq_zero hrest)
    rw [Nat.add_zero, Nat.mul_le_mul_left_iff Nat.two_pos, ← Nat.mul_le_mul_right_iff hb, hexact]
  case isFalse hrest =>
    have hne : a ≠ n * b := by
      rintro rfl
      exact hrest (Nat.mul_mod_left n b)
    rw [show 2 * (a / b) + 1 ≤ 2 * n ↔ a / b < n by omega, Nat.div_lt_iff_lt_mul hb]
    omega

end Sticky

theorem lt_ten_pow_length (n : Nat) : n < 10 ^ (toString n).length :=
  (Nat.length_repr_le_iff Nat.length_repr_pos).mp (le_refl _)

theorem ten_pow_length_le {n : Nat} (hn : n ≠ 0) : 10 ^ ((toString n).length - 1) ≤ n := by
  by_contra hlt
  have hlength : 0 < (toString n).length - 1 := by
    refine Nat.pos_of_ne_zero fun h => hlt ?_
    rw [h]
    omega
  have hle : (toString n).length ≤ (toString n).length - 1 :=
    (Nat.length_repr_le_iff hlength).mpr (not_le.mp hlt)
  omega

section Interval

variable {f : Format} {m digits : Nat} {q exponent : Int}

theorem Interval.holds_iff {i : Interval} :
    i.holds digits exponent ↔
      i.low * 10 ^ (-exponent).toNat ≤ digits * 10 ^ exponent.toNat * i.denominator ∧
        digits * 10 ^ exponent.toNat * i.denominator ≤ i.high * 10 ^ (-exponent).toNat ∧
        (i.closed = false →
          i.low * 10 ^ (-exponent).toNat < digits * 10 ^ exponent.toNat * i.denominator ∧
            digits * 10 ^ exponent.toNat * i.denominator < i.high * 10 ^ (-exponent).toNat) := by
  rw [holds]
  split <;> rename_i hclosed <;> rw [Bool.and_eq_true, decide_eq_true_eq, decide_eq_true_eq]
  · simp [hclosed]
  · rw [Bool.not_eq_true] at hclosed
    simp only [hclosed, Nat.pow_eq, forall_const]
    omega

theorem holds_iff :
    (roundingInterval f m q).holds digits exponent ↔
      f.lowEnd m q * 2 ^ (q - 2).toNat * 10 ^ (-exponent).toNat ≤
          digits * 10 ^ exponent.toNat * 2 ^ (2 - q).toNat ∧
        digits * 10 ^ exponent.toNat * 2 ^ (2 - q).toNat ≤
          (4 * m + 2) * 2 ^ (q - 2).toNat * 10 ^ (-exponent).toNat ∧
        (m % 2 = 1 →
          f.lowEnd m q * 2 ^ (q - 2).toNat * 10 ^ (-exponent).toNat <
              digits * 10 ^ exponent.toNat * 2 ^ (2 - q).toNat ∧
            digits * 10 ^ exponent.toNat * 2 ^ (2 - q).toNat <
              (4 * m + 2) * 2 ^ (q - 2).toNat * 10 ^ (-exponent).toNat) := by
  rw [Interval.holds_iff]
  simp only [roundingInterval, Nat.pow_eq, Format.lowEnd, beq_eq_false_iff_ne, ne_eq,
    Nat.mod_two_ne_zero]

/-- The bits behind the point that a decimal with a power of ten below one is taken to. -/
def shiftOf (digits unit : Nat) : Nat := 66 + unit.log2 - digits.log2

/-- Scaling both sides by powers of two keeps their order. -/
private theorem scaled_le_iff {x y : Nat} {a b c s : Nat} (h : a + s = b + c) :
    x * 2 ^ a ≤ y * 2 ^ b ↔ x * 2 ^ c ≤ y * 2 ^ s := by
  calc x * 2 ^ a ≤ y * 2 ^ b
      ↔ x * 2 ^ a * 2 ^ s ≤ y * 2 ^ b * 2 ^ s := (Nat.mul_le_mul_right_iff (Nat.two_pow_pos s)).symm
    _ ↔ x * 2 ^ c * 2 ^ b ≤ y * 2 ^ s * 2 ^ b := by
      rw [Nat.mul_assoc x, ← Nat.pow_add, h, Nat.add_comm b, Nat.pow_add, ← Nat.mul_assoc,
        Nat.mul_right_comm y]
    _ ↔ x * 2 ^ c ≤ y * 2 ^ s := Nat.mul_le_mul_right_iff (Nat.two_pow_pos b)

/-- A decimal within the interval is near the number in parts of a unit that are fine enough. -/
theorem near_of_holds (hexponent : exponent < 0)
    (h : (roundingInterval f m q).holds digits exponent) {s : Nat} (hs : 0 ≤ q - 2 + s) :
    f.Near m q (q - 1 + s).toNat (doubledQuotient (digits * 2 ^ s) (10 ^ (-exponent).toNat)) := by
  obtain ⟨hlow, hhigh, hodd⟩ := holds_iff.mp h
  have hunit : 0 < 10 ^ (-exponent).toNat := Nat.pow_pos (by decide)
  have hk : (q - 1 + s).toNat = (q - 2 + s).toNat + 1 := by omega
  have hsum : (q - 2).toNat + s = (2 - q).toNat + (q - 2 + s).toNat := by omega
  have hten : exponent.toNat = 0 := by omega
  have hle (x : Nat) : x * 2 ^ (q - 2).toNat * 10 ^ (-exponent).toNat ≤
      digits * 10 ^ exponent.toNat * 2 ^ (2 - q).toNat ↔
        x * 2 ^ (q - 1 + s).toNat ≤ doubledQuotient (digits * 2 ^ s) (10 ^ (-exponent).toNat) := by
    rw [hk, Nat.pow_succ, ← Nat.mul_assoc, Nat.mul_comm _ 2, le_doubledQuotient_iff hunit, hten,
      Nat.pow_zero, Nat.mul_one, Nat.mul_right_comm x (2 ^ (q - 2).toNat),
      Nat.mul_right_comm x (2 ^ (q - 2 + s).toNat), scaled_le_iff hsum]
  have hge (x : Nat) : digits * 10 ^ exponent.toNat * 2 ^ (2 - q).toNat ≤
      x * 2 ^ (q - 2).toNat * 10 ^ (-exponent).toNat ↔
        doubledQuotient (digits * 2 ^ s) (10 ^ (-exponent).toNat) ≤ x * 2 ^ (q - 1 + s).toNat := by
    rw [hk, Nat.pow_succ, ← Nat.mul_assoc, Nat.mul_comm _ 2, doubledQuotient_le_iff hunit, hten,
      Nat.pow_zero, Nat.mul_one, Nat.mul_right_comm x (2 ^ (q - 2).toNat),
      Nat.mul_right_comm x (2 ^ (q - 2 + s).toNat), scaled_le_iff hsum.symm]
  refine ⟨(hle _).mp hlow, (hge _).mp hhigh, fun h => ?_⟩
  obtain ⟨hlow, hhigh⟩ := hodd h
  exact ⟨not_le.mp fun h => hlow.not_ge ((hge _).mpr h),
    not_le.mp fun h => hhigh.not_ge ((hle _).mpr h)⟩

theorem digits_ne_zero_of_holds (hm : m ≠ 0) (h : (roundingInterval f m q).holds digits exponent) :
    digits ≠ 0 := by
  rintro rfl
  have hlow := (holds_iff.mp h).1
  have hend := (Format.lowEnd_bounds f m q).1
  have hpos : 0 < f.lowEnd m q * 2 ^ (q - 2).toNat * 10 ^ (-exponent).toNat :=
    Nat.mul_pos (Nat.mul_pos (by omega) (Nat.two_pow_pos _)) (Nat.pow_pos (by decide))
  simp at hlow
  omega

/-- The parts of a unit are fine enough. -/
theorem le_shiftOf (hcanonical : Format.double.Canonical m q) (hm : m ≠ 0)
    (hexponent : exponent < 0) (h : (roundingInterval .double m q).holds digits exponent) :
    0 ≤ q - 2 + shiftOf digits (10 ^ (-exponent).toNat) := by
  have hdigits := digits_ne_zero_of_holds hm h
  by_contra hneg
  have hhigh := (holds_iff.mp h).2.1
  have hmantissa : 4 * m + 2 < 2 ^ 55 := by
    have hlt : m < 2 ^ 53 := hcanonical.mantissa_lt
    omega
  have hunit : 10 ^ (-exponent).toNat < 2 ^ ((10 ^ (-exponent).toNat).log2 + 1) := Nat.lt_log2_self
  have hten : exponent.toNat = 0 := by omega
  have hq : (q - 2).toNat = 0 := by omega
  rw [hten, hq, Nat.pow_zero, Nat.pow_zero, Nat.mul_one, Nat.mul_one] at hhigh
  have hlt : 2 ^ digits.log2 * 2 ^ (2 - q).toNat <
      2 ^ 55 * 2 ^ ((10 ^ (-exponent).toNat).log2 + 1) :=
    calc 2 ^ digits.log2 * 2 ^ (2 - q).toNat
        ≤ digits * 2 ^ (2 - q).toNat := Nat.mul_le_mul_right _ (Nat.log2_self_le hdigits)
      _ ≤ (4 * m + 2) * 10 ^ (-exponent).toNat := hhigh
      _ < 2 ^ 55 * 2 ^ ((10 ^ (-exponent).toNat).log2 + 1) := Nat.mul_lt_mul'' hmantissa hunit
  rw [← Nat.pow_add, ← Nat.pow_add] at hlt
  have hlog := (Nat.pow_lt_pow_iff_right (by decide)).mp hlt
  rw [shiftOf] at hneg
  omega

/-- The first digit of a decimal in the interval stands at no far place. -/
theorem point_of_holds (hcanonical : Format.double.Canonical m q) (hm : m ≠ 0)
    (hexponent : exponent < 0) (h : (roundingInterval .double m q).holds digits exponent) :
    -farExponent ≤ (toString digits).length + exponent ∧
      (toString digits).length + exponent ≤ farExponent := by
  obtain ⟨hlow, hhigh, -⟩ := holds_iff.mp h
  have hdigits := digits_ne_zero_of_holds hm h
  have hten : exponent.toNat = 0 := by omega
  rw [hten, Nat.pow_zero, Nat.mul_one] at hlow hhigh
  have hmantissa : 4 * m + 2 < 2 ^ 55 := by
    have hlt : m < 2 ^ 53 := hcanonical.mantissa_lt
    omega
  have hmin : -1074 ≤ q := hcanonical.le_exponent
  have hmax : q ≤ 971 := by
    have hrange : (q - -1074).toNat + 1 < 2047 := hcanonical.inRange
    omega
  have htwo (r : Nat) : 2 ^ r ≤ 10 ^ r := Nat.pow_le_pow_left (by decide) r
  constructor
  · have hend : 1 ≤ Format.double.lowEnd m q * 2 ^ (q - 2).toNat :=
      Nat.mul_pos (by have := (Format.lowEnd_bounds .double m q).1; omega) (Nat.two_pow_pos _)
    have hlt : 10 ^ (-exponent).toNat < 10 ^ (toString digits).length * 10 ^ (2 - q).toNat :=
      calc 10 ^ (-exponent).toNat
          ≤ Format.double.lowEnd m q * 2 ^ (q - 2).toNat * 10 ^ (-exponent).toNat :=
            Nat.le_mul_of_pos_left _ hend
        _ ≤ digits * 2 ^ (2 - q).toNat := hlow
        _ < 10 ^ (toString digits).length * 2 ^ (2 - q).toNat :=
            Nat.mul_lt_mul_of_pos_right (lt_ten_pow_length digits) (Nat.two_pow_pos _)
        _ ≤ 10 ^ (toString digits).length * 10 ^ (2 - q).toNat := Nat.mul_le_mul_left _ (htwo _)
    rw [← Nat.pow_add] at hlt
    have hplaces := (Nat.pow_lt_pow_iff_right (by decide)).mp hlt
    rw [farExponent]
    omega
  · have hlt : 10 ^ ((toString digits).length - 1) <
        10 ^ 55 * 10 ^ (q - 2).toNat * 10 ^ (-exponent).toNat :=
      calc 10 ^ ((toString digits).length - 1)
          ≤ digits := ten_pow_length_le hdigits
        _ ≤ digits * 2 ^ (2 - q).toNat := Nat.le_mul_of_pos_right _ (Nat.two_pow_pos _)
        _ ≤ (4 * m + 2) * 2 ^ (q - 2).toNat * 10 ^ (-exponent).toNat := hhigh
        _ < 2 ^ 55 * 2 ^ (q - 2).toNat * 10 ^ (-exponent).toNat :=
            Nat.mul_lt_mul_of_pos_right
              (Nat.mul_lt_mul_of_pos_right hmantissa (Nat.two_pow_pos _)) (Nat.pow_pos (by decide))
        _ ≤ 10 ^ 55 * 10 ^ (q - 2).toNat * 10 ^ (-exponent).toNat :=
            Nat.mul_le_mul_right _ (Nat.mul_le_mul (htwo _) (htwo _))
    rw [← Nat.pow_add, ← Nat.pow_add] at hlt
    have hplaces := (Nat.pow_lt_pow_iff_right (by decide)).mp hlt
    rw [farExponent]
    omega

/-- Every decimal in the interval of a number, with digits behind the point, is rounded to it. -/
theorem write_binaryOf {negative : Bool} (hcanonical : Format.double.Canonical m q) (hm : m ≠ 0)
    (hexponent : exponent < 0) (h : (roundingInterval .double m q).holds digits exponent) :
    Format.double.write (binaryOf negative digits exponent) =
      Format.double.write (.finite negative m q) := by
  have hshift := le_shiftOf hcanonical hm hexponent h
  obtain ⟨hnear, hfar⟩ := point_of_holds hcanonical hm hexponent h
  have hbinary : binaryOf negative digits exponent = .finite negative
      (doubledQuotient (digits * 2 ^ shiftOf digits (10 ^ (-exponent).toNat))
        (10 ^ (-exponent).toNat))
      (q - 2 - (q - 1 + shiftOf digits (10 ^ (-exponent).toNat)).toNat) := by
    simp only [binaryOf, Nat.pow_eq]
    rw [if_neg (not_or.mpr ⟨digits_ne_zero_of_holds hm h, not_lt.mpr hnear⟩),
      if_neg (not_lt.mpr hfar), if_neg (not_le.mpr hexponent)]
    refine congrArg (Reading.finite negative _) ?_
    rw [← shiftOf]
    omega
  rw [hbinary, Format.write_of_near Format.double_ample hcanonical hm
    (near_of_holds hexponent h hshift)]

/-- Every decimal in the interval of a number is read as the number. -/
theorem nearest64_of_holds {x : Float} {negative : Bool} (hx : read64 x = .finite negative m q)
    (hm : m ≠ 0) (hexponent : exponent < 0)
    (h : (roundingInterval .double m q).holds digits exponent) :
    nearest64 negative digits exponent = x := by
  have hcanonical := Format.canonical_of_read Format.double_ample hx
  rw [nearest64, write_binaryOf hcanonical hm hexponent h, ← hx, ofBits_write_read64 (by simp [hx])]

end Interval

section Shortest

variable {i : Interval} {digits : Nat} {exponent : Int}

/-- A decimal with one more zero and a power of ten less is the same decimal. -/
theorem Interval.holds_ten (i : Interval) (digits : Nat) (exponent : Int) :
    i.holds (10 * digits) (exponent - 1) = i.holds digits exponent := by
  rw [Bool.eq_iff_iff, holds_iff, holds_iff]
  rcases lt_or_ge 0 exponent with hpos | hneg
  · rw [show (-(exponent - 1)).toNat = (-exponent).toNat by omega,
      show exponent.toNat = (exponent - 1).toNat + 1 by omega, Nat.pow_succ', Nat.mul_comm 10 digits,
      Nat.mul_assoc digits]
  · rw [show (exponent - 1).toNat = exponent.toNat by omega,
      show (-(exponent - 1)).toNat = (-exponent).toNat + 1 by omega, Nat.pow_succ', Nat.mul_assoc 10,
      Nat.mul_assoc 10, Nat.mul_left_comm i.low, Nat.mul_left_comm i.high]
    simp only [Nat.mul_le_mul_left_iff (show 0 < 10 by decide),
      Nat.mul_lt_mul_left (show 0 < 10 by decide)]

theorem Interval.holds_ten_pow (i : Interval) (digits n : Nat) (exponent : Int) :
    i.holds (digits * 10 ^ n) (exponent - n) = i.holds digits exponent := by
  induction n with
  | zero => simp
  | succ n ih =>
    rw [← ih, ← holds_ten i (digits * 10 ^ n), Nat.pow_succ', Nat.mul_left_comm, Nat.cast_add_one,
      Int.sub_sub]

theorem Interval.holds_stripZeros (i : Interval) (n : Nat) (d : Digits) :
    i.holds (stripZeros n d).digits (stripZeros n d).exponent = i.holds d.digits d.exponent := by
  induction n generalizing d with
  | zero => rfl
  | succ n ih =>
    rw [stripZeros]
    split
    case isTrue hzero =>
      rw [ih, ← holds_ten, Nat.mul_div_cancel' (Nat.dvd_of_mod_eq_zero hzero.1), Int.add_sub_cancel]
    case isFalse => rfl

theorem Interval.holds_of_hitOn {d : Digits} (h : i.hitOn exponent = some d) :
    i.holds d.digits d.exponent := by
  rw [hitOn] at h
  split at h
  case isTrue hhit =>
    cases h
    simp only [Bool.and_eq_true] at hhit
    exact hhit.1.1
  case isFalse =>
    split at h
    case isTrue hhit =>
      cases h
      exact hhit
    case isFalse => cases h

theorem Interval.holds_of_search {n : Nat} {d : Digits} (h : i.search n exponent = some d) :
    i.holds d.digits d.exponent := by
  induction n generalizing exponent with
  | zero => cases h
  | succ n ih =>
    rw [search] at h
    cases hhit : i.hitOn exponent with
    | some found =>
      rw [hhit] at h
      cases h
      exact holds_of_hitOn hhit
    | none =>
      rw [hhit] at h
      exact ih h

/-- The exact decimal lies in the interval. -/
theorem holds_exact {f : Format} {m : Nat} {q : Int} (hm : m ≠ 0) :
    (roundingInterval f m q).holds (m * 2 ^ q.toNat * 5 ^ (-q).toNat) (min q 0) := by
  have hunit : 0 < 2 ^ (q - 2).toNat * 10 ^ (-q).toNat :=
    Nat.mul_pos (Nat.two_pow_pos _) (Nat.pow_pos (by decide))
  have hvalue : m * 2 ^ q.toNat * 5 ^ (-q).toNat * 2 ^ (2 - q).toNat =
      4 * m * (2 ^ (q - 2).toNat * 10 ^ (-q).toNat) := by
    have htwos : 2 ^ q.toNat * 2 ^ (2 - q).toNat = 4 * 2 ^ (q - 2).toNat * 2 ^ (-q).toNat := by
      rw [show 4 = 2 ^ 2 from rfl, ← Nat.pow_add, ← Nat.pow_add, ← Nat.pow_add]
      congr 1
      omega
    rw [show 10 = 2 * 5 from rfl, Nat.mul_pow]
    linear_combination m * 5 ^ (-q).toNat * htwos
  have hend := (Format.lowEnd_bounds f m q).2
  have hlow := Nat.mul_lt_mul_of_pos_right (show f.lowEnd m q < 4 * m by omega) hunit
  have hhigh := Nat.mul_lt_mul_of_pos_right (show 4 * m < 4 * m + 2 by omega) hunit
  rw [holds_iff, show (min q 0).toNat = 0 by omega, show (-min q 0).toNat = (-q).toNat by omega,
    Nat.pow_zero, Nat.mul_one, hvalue, Nat.mul_assoc, Nat.mul_assoc (4 * m + 2)]
  exact ⟨hlow.le, hhigh.le, fun _ => ⟨hlow, hhigh⟩⟩

/-- The shortest decimal of a number lies in its interval. -/
theorem holds_shortest {f : Format} {m : Nat} {q : Int} (hm : m ≠ 0) :
    (roundingInterval f m q).holds (shortest f m q).digits (shortest f m q).exponent := by
  simp only [shortest, if_neg hm]
  split
  case h_1 d hd => rw [Interval.holds_stripZeros, Interval.holds_of_search hd]
  case h_2 => exact holds_exact hm

end Shortest

end CodeClones.Decimal
