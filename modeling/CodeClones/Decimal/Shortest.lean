import CodeClones.Decimal.Binary

/-!
# The fewest decimal digits that read back

The reals that round to a binary number form an interval around it whose ends belong to it exactly
when the mantissa is even. Among the decimals in that interval the ones with the fewest digits are
taken, and of those the one nearest to the number.
-/

namespace CodeClones.Decimal

/-- The value `digits * 10 ^ exponent`. -/
structure Digits where
  digits : Nat
  exponent : Int
  deriving DecidableEq, Repr

/-- A positive rational number with the bounds of the interval around it, over one denominator. -/
structure Interval where
  low : Nat
  value : Nat
  high : Nat
  denominator : Nat
  closed : Bool

/-- The interval of the reals that round to `m * 2 ^ q` in a format. -/
def roundingInterval (f : Format) (m : Nat) (q : Int) : Interval :=
  let narrowBelow := m = Nat.pow 2 (f.precision - 1) ∧ f.minExponent < q
  let scale := Nat.pow 2 (q - 2).toNat
  ⟨(if narrowBelow then 4 * m - 1 else 4 * m - 2) * scale, 4 * m * scale, (4 * m + 2) * scale,
    Nat.pow 2 (2 - q).toNat, m % 2 == 0⟩

/-- Whether the decimal `digits * 10 ^ exponent` lies in the interval. -/
def Interval.holds (i : Interval) (digits : Nat) (exponent : Int) : Bool :=
  let d := digits * Nat.pow 10 exponent.toNat * i.denominator
  let unit := Nat.pow 10 (-exponent).toNat
  if i.closed then i.low * unit ≤ d && d ≤ i.high * unit else i.low * unit < d && d < i.high * unit

/-- The greatest `n` with `n * 10 ^ exponent` at most the value. -/
def Interval.floorOn (i : Interval) (exponent : Int) : Nat :=
  i.value * Nat.pow 10 (-exponent).toNat / (i.denominator * Nat.pow 10 exponent.toNat)

/-- The nearer of the two decimals with last digit at `exponent` around the value that lies in the
interval. -/
def Interval.hitOn (i : Interval) (exponent : Int) : Option Digits :=
  let below := i.floorOn exponent
  let hitBelow := i.holds below exponent && below != 0
  let hitAbove := i.holds (below + 1) exponent
  let twice := 2 * i.value * Nat.pow 10 (-exponent).toNat
  let middle := (2 * below + 1) * Nat.pow 10 exponent.toNat * i.denominator
  if hitBelow && (!hitAbove || twice < middle || (twice == middle && below % 2 == 0)) then
    some ⟨below, exponent⟩
  else if hitAbove then some ⟨below + 1, exponent⟩
  else none

/-- The first hit among `n` ever finer grids of decimals, starting at `exponent`. -/
def Interval.search (i : Interval) : Nat → Int → Option Digits
  | 0, _ => none
  | n + 1, exponent => (i.hitOn exponent).orElse fun _ => i.search n (exponent - 1)

/-- Moves trailing zeros, at most `fuel` of them, into the exponent. -/
def stripZeros : Nat → Digits → Digits
  | 0, d => d
  | fuel + 1, d =>
    if d.digits % 10 = 0 ∧ d.digits ≠ 0 then stripZeros fuel ⟨d.digits / 10, d.exponent + 1⟩ else d

/-- The shortest decimal that reads back to `m * 2 ^ q`; zero has one zero digit. -/
def shortest (f : Format) (m : Nat) (q : Int) : Digits :=
  if m = 0 then ⟨0, 0⟩
  else
    let i := roundingInterval f m q
    -- a bound above the decimal exponent of the leading digit: log 2 is below 0.30103
    let bits := q + (m.log2 : Int) + 1
    let top := Int.fdiv (bits * 30103) 100000 + 1
    match i.search 25 top with
    | some d => stripZeros 25 d
    | none => ⟨m * Nat.pow 2 q.toNat * Nat.pow 5 (-q).toNat, min q 0⟩

/-- The shortest decimal of a number's absolute value with its sign, if it is finite. -/
def shortestOf (f : Format) : Reading → Option (Bool × Digits)
  | .finite negative m q => some (negative, shortest f m q)
  | _ => none

end CodeClones.Decimal
