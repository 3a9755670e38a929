import CodeClones.Json.Value

/-!
# Reading JSON texts

A reader takes characters from the front and hands back the rest. Containers nest at most 127 deep.
A number without fraction and exponent that fits into 64 bits is whole; any other is the quotient or
product of its digits and a power of ten, both taken as floating-point numbers first.
-/

namespace CodeClones.Json

/-- The number of containers that may lie inside each other. -/
def maxNesting : Nat := 127

/-- Drops blanks between tokens. -/
def skipBlanks (s : List Char) : List Char :=
  s.dropWhile fun c => c == ' ' || c == '\n' || c == '\t' || c == '\r'

/-- The value of a hexadecimal digit of either case. -/
def hexValue? (c : Char) : Option Nat :=
  if c.isDigit then some (c.toNat - 48)
  else if 'a' ≤ c ∧ c ≤ 'f' then some (c.toNat - 87)
  else if 'A' ≤ c ∧ c ≤ 'F' then some (c.toNat - 55)
  else none

/-- The number of four hexadecimal digits. -/
def readHex4 : List Char → Option (Nat × List Char)
  | a :: b :: c :: d :: rest => do
    let a ← hexValue? a
    let b ← hexValue? b
    let c ← hexValue? c
    let d ← hexValue? d
    pure (((a * 16 + b) * 16 + c) * 16 + d, rest)
  | _ => none

/-- The character behind `\u`, of which two stand for a character beyond the first plane. -/
def readUnicode (s : List Char) : Option (Char × List Char) := do
  let (n, rest) ← readHex4 s
  if 0xDC00 ≤ n ∧ n ≤ 0xDFFF then none
  else if 0xD800 ≤ n ∧ n ≤ 0xDBFF then
    match rest with
    | '\\' :: 'u' :: more =>
      let (low, rest) ← readHex4 more
      if 0xDC00 ≤ low ∧ low ≤ 0xDFFF then
        pure (Char.ofNat (0x10000 + (n - 0xD800) * 0x400 + (low - 0xDC00)), rest)
      else none
    | _ => none
  else pure (Char.ofNat n, rest)

/-- The character that an escape stands for. -/
def readEscape : List Char → Option (Char × List Char)
  | '"' :: rest => some ('"', rest)
  | '\\' :: rest => some ('\\', rest)
  | '/' :: rest => some ('/', rest)
  | 'b' :: rest => some (Char.ofNat 8, rest)
  | 'f' :: rest => some (Char.ofNat 12, rest)
  | 'n' :: rest => some ('\n', rest)
  | 'r' :: rest => some ('\r', rest)
  | 't' :: rest => some ('\t', rest)
  | 'u' :: rest => readUnicode rest
  | _ => none

/-- The characters up to the closing quote, behind those already read in reverse. -/
def readStringTail : Nat → List Char → List Char → Option (String × List Char)
  | 0, _, _ => none
  | _, _, [] => none
  | _, read, '"' :: rest => some (String.ofList read.reverse, rest)
  | fuel + 1, read, '\\' :: rest => do
    let (c, rest) ← readEscape rest
    readStringTail fuel (c :: read) rest
  | fuel + 1, read, c :: rest => if c.toNat < 32 then none else readStringTail fuel (c :: read) rest

/-- The greatest digit string that is kept exactly. -/
def maxSignificand : Nat := UInt64.size - 1

/-- Digits taken over while they fit: the number, how many digits were left out, and how many
digits there were. -/
def takeDigits : List Char → Nat → Nat → Nat → Nat × Nat × Nat × List Char
  | c :: rest, n, dropped, count =>
    if c.isDigit then
      let next := n * 10 + (c.toNat - 48)
      if dropped = 0 ∧ next ≤ maxSignificand then takeDigits rest next 0 (count + 1)
      else takeDigits rest n (dropped + 1) (count + 1)
    else (n, dropped, count, c :: rest)
  | [], n, dropped, count => (n, dropped, count, [])

/-- Scales a number by a power of ten in steps of at most 308; `none` when it gets too large. -/
def scaleByTen (x : Float) (exponent : Int) : Option Float :=
  if 0 ≤ exponent then
    if exponent ≤ 308 then
      let y := x * Float.ofScientific 1 false exponent.toNat
      if y.isFinite then some y else none
    else if x == 0 then some x
    else none
  else
    let n := (-exponent).toNat
    let big := Float.ofScientific 1 false 308
    let steps := min (n / 309) 3
    let x := (List.range steps).foldl (fun x _ => x / big) x
    let rest := n - 308 * steps
    if rest ≤ 308 then some (x / Float.ofScientific 1 false rest) else some 0

/-- The exponent behind `e`, whose digits stop counting where they get senseless. -/
def readExponent (s : List Char) : Option (Int × List Char) :=
  let (negative, s) := match s with
    | '-' :: rest => (true, rest)
    | '+' :: rest => (false, rest)
    | _ => (false, s)
  let (n, dropped, count, rest) := takeDigits s 0 0 0
  if count = 0 then none
  else
    let n := if dropped = 0 then min n 100000 else 100000
    some (if negative then -(n : Int) else n, rest)

/-- Reads a number. -/
def readNumber (s : List Char) : Option (Number × List Char) :=
  let (negative, s) := match s with
    | '-' :: rest => (true, rest)
    | _ => (false, s)
  let (n, dropped, count, rest) := takeDigits s 0 0 0
  if count = 0 ∨ (s.head? = some '0' ∧ 1 < count) then none
  else
    let finish (n : Nat) (exponent : Int) (rest : List Char) : Option (Number × List Char) := do
      let x ← scaleByTen (Float.ofNat n) exponent
      pure (.float (if negative then -x else x), rest)
    let withExponent (n : Nat) (exponent : Int) (rest : List Char) : Option (Number × List Char) :=
      match rest with
      | c :: more =>
        if c = 'e' ∨ c = 'E' then do
          let (e, rest) ← readExponent more
          finish n (exponent + e) rest
        else finish n exponent rest
      | [] => finish n exponent []
    match rest with
    | '.' :: more =>
      let (n, lost, places, rest) :=
        if dropped = 0 then takeDigits more n 0 0 else takeDigits more n 1 0
      if places = 0 then none
      else
        let taken := if dropped = 0 then places - lost else 0
        withExponent n ((dropped : Int) - taken) rest
    | c :: _ =>
      if c = 'e' ∨ c = 'E' then withExponent n dropped rest
      else if dropped ≠ 0 then finish n dropped rest
      else whole negative n rest
    | [] => if dropped ≠ 0 then finish n dropped [] else whole negative n []
where
  /-- A number without fraction and exponent; below the least of 64 bits it is not whole. -/
  whole (negative : Bool) (n : Nat) (rest : List Char) : Option (Number × List Char) :=
    if !negative then some (.integer n, rest)
    else if n = 0 ∨ UInt64.size / 2 < n then some (.float (-(Float.ofNat n)), rest)
    else some (.integer (-n), rest)

/-- Takes a word off the front. -/
def readWord (word : String) (value : Value) (s : List Char) : Option (Value × List Char) :=
  if word.toList.isPrefixOf s then some (value, s.drop word.length) else none

mutual

/-- Reads a value behind blanks, with containers nested at most `depth` deep. -/
def readValue : Nat → Nat → List Char → Option (Value × List Char)
  | 0, _, _ => none
  | fuel + 1, depth, s =>
    match skipBlanks s with
    | 'n' :: rest => readWord "null" .null ('n' :: rest)
    | 't' :: rest => readWord "true" (.bool true) ('t' :: rest)
    | 'f' :: rest => readWord "false" (.bool false) ('f' :: rest)
    | '"' :: rest =>
      (readStringTail (rest.length + 1) [] rest).map fun (t, rest) => (.string t, rest)
    | '[' :: rest =>
      if depth ≤ 1 then none
      else
        match skipBlanks rest with
        | ']' :: rest => some (.array [], rest)
        | _ => readItems fuel (depth - 1) [] rest
    | '\x7b' :: rest =>
      if depth ≤ 1 then none
      else
        match skipBlanks rest with
        | '\x7d' :: rest => some (.object [], rest)
        | _ => readEntries fuel (depth - 1) [] rest
    | c :: rest =>
      if c = '-' ∨ c.isDigit then
        (readNumber (c :: rest)).map fun (n, rest) => (.number n, rest)
      else none
    | [] => none

/-- Reads the items of an array up to its end, behind those already read in reverse. -/
def readItems : Nat → Nat → List Value → List Char → Option (Value × List Char)
  | 0, _, _, _ => none
  | fuel + 1, depth, items, s => do
    let (v, rest) ← readValue fuel depth s
    match skipBlanks rest with
    | ',' :: rest => readItems fuel depth (v :: items) rest
    | ']' :: rest => some (.array (v :: items).reverse, rest)
    | _ => none

/-- Reads the entries of an object up to its end, behind those already read. -/
def readEntries : Nat → Nat → Object → List Char → Option (Value × List Char)
  | 0, _, _, _ => none
  | fuel + 1, depth, entries, s =>
    match skipBlanks s with
    | '"' :: rest => do
      let (key, rest) ← readStringTail (rest.length + 1) [] rest
      match skipBlanks rest with
      | ':' :: rest => do
        let (v, rest) ← readValue fuel depth rest
        let entries := entries.insert key v
        match skipBlanks rest with
        | ',' :: rest => readEntries fuel depth entries rest
        | '\x7d' :: rest => some (.object entries, rest)
        | _ => none
      | _ => none
    | _ => none

end

/-- The value that the whole text stands for. -/
def Value.ofText? (text : String) : Option Value := do
  let s := text.toList
  let (v, rest) ← readValue (s.length + 1) (maxNesting + 1) s
  if (skipBlanks rest).isEmpty then pure v else none

end CodeClones.Json
