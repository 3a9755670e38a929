/-!
# Exact values of binary floating-point numbers

A finite number is a sign, a natural mantissa and a power of two. Reading a number off its bits is
exact. Writing rounds to the nearest number of the format and takes the even mantissa of two equally
near ones, so that a number is narrowed to the shorter format and widened to the longer one here.
-/

namespace CodeClones.Decimal

/-- The finite part of a binary format. -/
structure Format where
  /-- Bits of a full mantissa, the leading one included. -/
  precision : Nat
  /-- Bits of the exponent field. -/
  exponentBits : Nat
  deriving DecidableEq, Repr

/-- The format of 32 bits. -/
def Format.single : Format := ⟨24, 8⟩

/-- The format of 64 bits. -/
def Format.double : Format := ⟨53, 11⟩

/-- The power of two of the smallest positive number. -/
def Format.minExponent (f : Format) : Int := 3 - Nat.pow 2 (f.exponentBits - 1) - f.precision

/-- The exponent field of infinities and of values that are no number. -/
def Format.topField (f : Format) : Nat := Nat.pow 2 f.exponentBits - 1

/-- What the bits of a floating-point number stand for. -/
inductive Reading where
  /-- The value `mantissa * 2 ^ exponent`, negated if so marked. -/
  | finite (negative : Bool) (mantissa : Nat) (exponent : Int)
  | infinite (negative : Bool)
  | notNumber
  deriving DecidableEq, Repr

/-- Reads the bits of a number of the format. -/
def Format.read (f : Format) (bits : Nat) : Reading :=
  let fractionBits := f.precision - 1
  let fraction := bits % Nat.pow 2 fractionBits
  let field := bits / Nat.pow 2 fractionBits % Nat.pow 2 f.exponentBits
  let negative := bits / Nat.pow 2 (fractionBits + f.exponentBits) % 2 == 1
  if field = f.topField then
    if fraction = 0 then .infinite negative else .notNumber
  else if field = 0 then .finite negative fraction f.minExponent
  else .finite negative (fraction + Nat.pow 2 fractionBits) (f.minExponent + (field - 1))

/-- The natural number nearest to `m / 2 ^ shift`, the even one of two. -/
def shiftRounded (m shift : Nat) : Nat :=
  let unit := Nat.pow 2 shift
  let quotient := m / unit
  let rest := 2 * (m % unit)
  if rest > unit ∨ (rest = unit ∧ quotient % 2 = 1) then quotient + 1 else quotient

/-- The bits of the number of the format nearest to a value; too large values become infinite. -/
def Format.write (f : Format) : Reading → Nat
  | .notNumber => f.topField * Nat.pow 2 (f.precision - 1) + Nat.pow 2 (f.precision - 2)
  | .infinite negative => signed negative (f.topField * Nat.pow 2 (f.precision - 1))
  | .finite negative m q =>
    if m = 0 then signed negative 0
    else
      let excess : Int := (m.log2 + 1 : Nat) - f.precision
      let exponent := max f.minExponent (q + excess)
      let rounded := if exponent ≤ q then m * Nat.pow 2 (q - exponent).toNat
        else shiftRounded m (exponent - q).toNat
      let field := (exponent - f.minExponent).toNat
      -- a carry out of the fraction moves into the exponent field by itself
      let bits := field * Nat.pow 2 (f.precision - 1) + rounded
      signed negative (min bits (f.topField * Nat.pow 2 (f.precision - 1)))
where
  signed (negative : Bool) (bits : Nat) : Nat :=
    if negative then bits + Nat.pow 2 (f.precision - 1 + f.exponentBits) else bits

/-- The value of a number of 32 bits. -/
def read32 (x : Float32) : Reading := Format.single.read x.toBits.toNat

/-- The value of a number of 64 bits. -/
def read64 (x : Float) : Reading := Format.double.read x.toBits.toNat

/-- The nearest number of 32 bits. -/
def narrow (x : Float) : Float32 := Float32.ofBits (Format.single.write (read64 x)).toUInt32

/-- The same number with 64 bits. -/
def widen (x : Float32) : Float := Float.ofBits (Format.double.write (read32 x)).toUInt64

/-- The nearest whole number, away from zero for a half. -/
def roundHalfAway (x : Float32) : Float32 :=
  match read32 x with
  | .finite negative m q =>
    if 0 ≤ q then x
    else
      let unit := Nat.pow 2 (-q).toNat
      Float32.ofBits (Format.single.write (.finite negative ((2 * m + unit) / (2 * unit)) 0)).toUInt32
  | _ => x

end CodeClones.Decimal
