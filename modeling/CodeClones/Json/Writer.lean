import CodeClones.Decimal.Notation
import CodeClones.Digest.Hex
import CodeClones.Json.Value

/-!
# JSON texts

The compact text has no blanks. The pretty text puts every item and entry on a line of its own, two
blanks deeper than its container. A number that is not finite is written as `null`.
-/

namespace CodeClones.Json

/-- Numbers of 64 bits are positional from five zeros behind the point up to sixteen digits. -/
def doubleLayout : Decimal.Layout := ⟨-4, 16, true⟩

/-- Numbers of 32 bits are positional from six zeros behind the point up to thirteen digits. -/
def singleLayout : Decimal.Layout := ⟨-5, 13, true⟩

/-- The text of a floating-point value. -/
def floatText (f : Decimal.Format) (l : Decimal.Layout) (r : Decimal.Reading) : String :=
  match Decimal.shortestOf f r with
  | some (negative, digits) => Decimal.signText negative ++ l.render digits
  | none => "null"

/-- The text of a number of 32 bits. -/
def singleText (x : Float32) : String := floatText .single singleLayout (Decimal.read32 x)

/-- The text of a number. -/
def Number.text : Number → String
  | .integer n => toString n
  | .float x => floatText .double doubleLayout (Decimal.read64 x)
  | .single x => singleText x

/-- The characters that stand for one character inside a string. -/
def escapeChar (c : Char) : List Char :=
  if c = '"' then ['\\', '"']
  else if c = '\\' then ['\\', '\\']
  else if c = '\n' then ['\\', 'n']
  else if c = '\r' then ['\\', 'r']
  else if c = '\t' then ['\\', 't']
  else if c.toNat = 8 then ['\\', 'b']
  else if c.toNat = 12 then ['\\', 'f']
  else if c.toNat < 32 then
    ['\\', 'u', '0', '0', Digest.hexDigit (c.toNat.toUInt8 >>> 4),
      Digest.hexDigit (c.toNat.toUInt8 &&& 15)]
  else [c]

/-- A string with its quotes. -/
def quoted (s : String) : String :=
  String.ofList ('"' :: s.toList.flatMap escapeChar ++ ['"'])

mutual

/-- The text without blanks. -/
def Value.compact : Value → String
  | .null => "null"
  | .bool b => if b then "true" else "false"
  | .number n => n.text
  | .string s => quoted s
  | .array items => "[" ++ compactItems items ++ "]"
  | .object entries => "\x7b" ++ compactEntries entries ++ "\x7d"

/-- The items of an array with commas between them. -/
def compactItems : List Value → String
  | [] => ""
  | [v] => v.compact
  | v :: rest => v.compact ++ "," ++ compactItems rest

/-- The entries of an object with commas between them. -/
def compactEntries : List (String × Value) → String
  | [] => ""
  | [(k, v)] => quoted k ++ ":" ++ v.compact
  | (k, v) :: rest => quoted k ++ ":" ++ v.compact ++ "," ++ compactEntries rest

end

mutual

/-- The column at which the first container with `depth` others around it starts, in a compact text
behind `column` bytes. -/
def Value.deepColumn? : Nat → Nat → Value → Option Nat
  | 0, column, .array _ => some (column + 1)
  | 0, column, .object _ => some (column + 1)
  | depth + 1, column, .array items => deepColumnOfItems? depth (column + 1) items
  | depth + 1, column, .object entries => deepColumnOfEntries? depth (column + 1) entries
  | _, _, _ => none

/-- The first such column in the items of an array. -/
def deepColumnOfItems? (depth column : Nat) : List Value → Option Nat
  | [] => none
  | v :: rest =>
    (v.deepColumn? depth column).or
      (deepColumnOfItems? depth (column + v.compact.utf8ByteSize + 1) rest)

/-- The first such column in the entries of an object. -/
def deepColumnOfEntries? (depth column : Nat) : List (String × Value) → Option Nat
  | [] => none
  | (k, v) :: rest =>
    let start := column + (quoted k).utf8ByteSize + 1
    (v.deepColumn? depth start).or
      (deepColumnOfEntries? depth (start + v.compact.utf8ByteSize + 1) rest)

end

/-- Two blanks for each container around a place. -/
def indent (depth : Nat) : String := String.ofList (List.replicate (2 * depth) ' ')

mutual

/-- The text with a line for every item and entry, inside `depth` containers. -/
def Value.prettyAt (depth : Nat) : Value → String
  | .array (v :: rest) =>
    "[\n" ++ prettyItems (depth + 1) (v :: rest) ++ "\n" ++ indent depth ++ "]"
  | .object (e :: rest) =>
    "\x7b\n" ++ prettyEntries (depth + 1) (e :: rest) ++ "\n" ++ indent depth ++ "\x7d"
  | .array [] => "[]"
  | .object [] => "\x7b\x7d"
  | v => v.compact

/-- The items of an array, each on its line. -/
def prettyItems (depth : Nat) : List Value → String
  | [] => ""
  | [v] => indent depth ++ v.prettyAt depth
  | v :: rest => indent depth ++ v.prettyAt depth ++ ",\n" ++ prettyItems depth rest

/-- The entries of an object, each on its line. -/
def prettyEntries (depth : Nat) : List (String × Value) → String
  | [] => ""
  | [(k, v)] => indent depth ++ quoted k ++ ": " ++ v.prettyAt depth
  | (k, v) :: rest =>
    indent depth ++ quoted k ++ ": " ++ v.prettyAt depth ++ ",\n" ++ prettyEntries depth rest

end

/-- The text with a line for every item and entry. -/
def Value.pretty (v : Value) : String := v.prettyAt 0

end CodeClones.Json
