import CodeClones.Decimal.Binary

/-!
# The binary number nearest to a decimal

A decimal is brought to a whole number of binary units, with one more bit that says whether something
was cut off, and then rounded once. Decimals far outside the range of a format are not computed: they
are infinite or zero.
-/

namespace CodeClones.Decimal

/-- Decimal exponents beyond which every format in use overflows, or has only zero left. -/
def farExponent : Int := 1200

/-- Digits and a power of ten as a binary value that rounds the same way. -/
def binaryOf (negative : Bool) (digits : Nat) (exponent : Int) : Reading :=
  let point : Int := (toString digits).length + exponent
  if digits = 0 ∨ point < -farExponent then .finite negative 0 0
  else if farExponent < point then .infinite negative
  else if 0 ≤ exponent then .finite negative (digits * Nat.pow 10 exponent.toNat) 0
  else
    let unit := Nat.pow 10 (-exponent).toNat
    let shift := 66 + unit.log2 - digits.log2
    let scaled := digits * Nat.pow 2 shift
    let cut := if scaled % unit = 0 then 0 else 1
    .finite negative (2 * (scaled / unit) + cut) (-shift - 1)

/-- The number of 32 bits nearest to a decimal. -/
def nearest32 (negative : Bool) (digits : Nat) (exponent : Int) : Float32 :=
  Float32.ofBits (Format.single.write (binaryOf negative digits exponent)).toUInt32

/-- The number of 64 bits nearest to a decimal. -/
def nearest64 (negative : Bool) (digits : Nat) (exponent : Int) : Float :=
  Float.ofBits (Format.double.write (binaryOf negative digits exponent)).toUInt64

/-- The value of decimal digits. -/
def digitsValue (digits : List Char) : Nat :=
  digits.foldl (fun n c => 10 * n + (c.toNat - '0'.toNat)) 0

/-- A decimal in text: sign, digits and power of ten. -/
structure Written where
  negative : Bool
  digits : Nat
  exponent : Int
  deriving DecidableEq, Repr

/-- Takes a sign off the front. -/
def takeSign : List Char → Bool × List Char
  | '-' :: rest => (true, rest)
  | '+' :: rest => (false, rest)
  | rest => (false, rest)

/-- The power of ten that a text behind the digits stands for. -/
def exponentOf? : List Char → Option Int
  | [] => some 0
  | c :: rest =>
    let (negative, digits) := takeSign rest
    if (c = 'e' ∨ c = 'E') ∧ !digits.isEmpty ∧ digits.all Char.isDigit then
      let n : Int := min (digitsValue digits) (1000 * farExponent.toNat)
      some (if negative then -n else n)
    else none

/-- The decimal that a text stands for: digits with at most one point, and perhaps an exponent. -/
def Written.ofText? (text : List Char) : Option Written := do
  let (negative, rest) := takeSign text
  let whole := rest.takeWhile Char.isDigit
  let rest := rest.dropWhile Char.isDigit
  let (fraction, rest) := match rest with
    | '.' :: more => (more.takeWhile Char.isDigit, more.dropWhile Char.isDigit)
    | _ => ([], rest)
  if whole.isEmpty && fraction.isEmpty then none
  else
    let exponent ← exponentOf? rest
    pure ⟨negative, digitsValue (whole ++ fraction), exponent - fraction.length⟩

/-- The number of 32 bits that a text stands for; infinities and `nan` are words in any case. -/
def ofText32? (text : String) : Option Float32 :=
  let (negative, rest) := takeSign text.toList
  let word := String.ofList (rest.map Char.toLower)
  if word = "inf" ∨ word = "infinity" then
    some (Float32.ofBits (Format.single.write (.infinite negative)).toUInt32)
  else if word = "nan" then some (Float32.ofBits (Format.single.write .notNumber).toUInt32)
  else (Written.ofText? text.toList).map fun w => nearest32 w.negative w.digits w.exponent

end CodeClones.Decimal
