import CodeClones.Decimal.Shortest

/-!
# Decimal texts

Layouts of a digit string: positional everywhere, positional within a range of exponents and
scientific outside, and a fixed number of places.
-/

namespace CodeClones.Decimal

/-- How a digit string becomes text. -/
structure Layout where
  /-- Least number of digits before the point, counted below zero for leading zeros behind it, that
  is still written positionally. -/
  positionalFrom : Int
  /-- Greatest number of digits before the point that is still written positionally. -/
  positionalTo : Int
  /-- Whether a whole number keeps the fraction `.0`. -/
  keepFraction : Bool
  deriving DecidableEq, Repr

/-- Zeros. -/
def zeros (n : Nat) : String := String.ofList (List.replicate n '0')

/-- Digits written positionally. -/
def positional (keepFraction : Bool) (d : Digits) : String :=
  let text := toString d.digits
  let point : Int := text.length + d.exponent
  if 0 ≤ d.exponent then
    text ++ zeros d.exponent.toNat ++ (if keepFraction then ".0" else "")
  else if 0 < point then
    String.ofList (text.toList.take point.toNat) ++ "." ++
      String.ofList (text.toList.drop point.toNat)
  else "0." ++ zeros (-point).toNat ++ text

/-- Digits with a point behind the first and a power of ten. -/
def scientific (d : Digits) : String :=
  let text := toString d.digits
  let power : Int := text.length + d.exponent - 1
  let mantissa := match text.toList with
    | first :: second :: rest => String.ofList (first :: '.' :: second :: rest)
    | short => String.ofList short
  mantissa ++ "e" ++ toString power

/-- The text of digits in a layout. -/
def Layout.render (l : Layout) (d : Digits) : String :=
  let point : Int := (toString d.digits).length + d.exponent
  if d.digits = 0 ∨ (l.positionalFrom ≤ point ∧ point ≤ l.positionalTo) then
    positional l.keepFraction d
  else scientific d

/-- The sign of a negative number. -/
def signText (negative : Bool) : String := if negative then "-" else ""

/-- The text of a value in messages: the fewest digits, always positional, no needless fraction. -/
def plainText (f : Format) : Reading → String
  | .finite negative m q => signText negative ++ positional false (shortest f m q)
  | .infinite negative => signText negative ++ "inf"
  | .notNumber => "NaN"

/-- A number of 32 bits in messages. -/
def plain32 (x : Float32) : String := plainText .single (read32 x)

/-- A number of 64 bits in messages. -/
def plain64 (x : Float) : String := plainText .double (read64 x)

/-- The whole number nearest to `numerator / denominator`, the even one of two. -/
def roundDiv (numerator denominator : Nat) : Nat :=
  let quotient := numerator / denominator
  let rest := 2 * (numerator % denominator)
  if rest > denominator ∨ (rest = denominator ∧ quotient % 2 = 1) then quotient + 1 else quotient

/-- A value with a set number of places; of two equally near texts the one with an even last
digit. -/
def fixedText (places : Nat) : Reading → String
  | .finite negative m q =>
    let scaled := roundDiv (m * Nat.pow 2 q.toNat * Nat.pow 10 places) (Nat.pow 2 (-q).toNat)
    let text := toString (scaled / Nat.pow 10 places)
    let fraction := toString (scaled % Nat.pow 10 places)
    let padded := zeros (places - fraction.length) ++ fraction
    signText negative ++ text ++ (if places = 0 then "" else "." ++ padded)
  | .infinite negative => signText negative ++ "inf"
  | .notNumber => "NaN"

end CodeClones.Decimal
