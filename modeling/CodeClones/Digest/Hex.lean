/-!
# Hexadecimal text of bytes

Each byte is written as two lower-case digits, the high half first.
-/

namespace CodeClones.Digest

/-- The lower-case digit of a value below sixteen. -/
def hexDigit (n : UInt8) : Char :=
  if n < 10 then Char.ofNat (48 + n.toNat) else Char.ofNat (87 + n.toNat)

/-- Two digits per byte. -/
def hexOfBytes (bytes : List UInt8) : String :=
  String.ofList (bytes.flatMap fun (b : UInt8) => [hexDigit (b >>> 4), hexDigit (b &&& 15)])

/-- The bytes of a word, least significant first. -/
def littleEndian32 (w : UInt32) : List UInt8 :=
  [w.toUInt8, (w >>> 8).toUInt8, (w >>> 16).toUInt8, (w >>> 24).toUInt8]

/-- The bytes of a word, most significant first. -/
def bigEndian32 (w : UInt32) : List UInt8 := (littleEndian32 w).reverse

/-- The bytes of a double word, least significant first. -/
def littleEndian64 (w : UInt64) : List UInt8 :=
  littleEndian32 w.toUInt32 ++ littleEndian32 (w >>> 32).toUInt32

/-- The bytes of a double word, most significant first. -/
def bigEndian64 (w : UInt64) : List UInt8 := (littleEndian64 w).reverse

/-- Eight digits of a word, most significant first. -/
def hex32 (w : UInt32) : String := hexOfBytes (bigEndian32 w)

/-- Sixteen digits of a double word, most significant first. -/
def hex64 (w : UInt64) : String := hexOfBytes (bigEndian64 w)

/-- A word rotated towards its low end. -/
def rotateRight (w : UInt32) (n : UInt32) : UInt32 := (w >>> n) ||| (w <<< (32 - n))

end CodeClones.Digest
