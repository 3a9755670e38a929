import CodeClones.Decimal.Nearest
import CodeClones.Toml.Value

/-!
# Reading TOML

A document is a sequence of lines with headers, keys with values, and comments. Readers take
characters off the front of a list and give what is left, or fail.
-/

namespace CodeClones.Toml

/-- A reader of something at the front of a text. -/
abbrev Reader (α : Type) := List Char → Option (α × List Char)

/-- Whether a character is a blank within a line. -/
def isBlank (c : Char) : Bool := c == ' ' || c == '\t'

/-- Drops blanks. -/
def skipBlanks (s : List Char) : List Char := s.dropWhile isBlank

/-- Whether a character may stand in a comment. -/
def isCommentChar (c : Char) : Bool := c == '\t' || (32 ≤ c.toNat && c.toNat != 127)

/-- Drops a comment. -/
def skipComment : List Char → List Char
  | '#' :: rest => rest.dropWhile isCommentChar
  | s => s

/-- Takes a line end. -/
def lineEnd? : List Char → Option (List Char)
  | '\n' :: rest => some rest
  | '\r' :: '\n' :: rest => some rest
  | _ => none

/-- Takes what may stand behind the content of a line, with the line end. -/
def lineTail? (s : List Char) : Option (List Char) :=
  match skipComment (skipBlanks s) with
  | [] => some []
  | rest => lineEnd? rest

/-- Drops blanks, comments and line ends; a comment must end with its line. -/
def skipLines? : Nat → List Char → Option (List Char)
  | 0, _ => none
  | fuel + 1, s =>
    match skipBlanks s with
    | '#' :: rest => (lineEnd? (skipComment ('#' :: rest))).bind (skipLines? fuel)
    | rest =>
      match lineEnd? rest with
      | some rest => skipLines? fuel rest
      | none => some rest

/-! ## Strings -/

/-- The value of hexadecimal digits. -/
def hexValue? (digits : List Char) : Option Nat :=
  digits.foldlM (fun n c =>
    if c.isDigit then some (16 * n + (c.toNat - 48))
    else if 'a' ≤ c ∧ c ≤ 'f' then some (16 * n + (c.toNat - 87))
    else if 'A' ≤ c ∧ c ≤ 'F' then some (16 * n + (c.toNat - 55))
    else none) 0

/-- The character with a number, if there is one. -/
def charOf? (n : Nat) : Option Char := if n.isValidChar then some (Char.ofNat n) else none

/-- Takes the character that is escaped behind a backslash. -/
def escaped? : Reader Char
  | 'b' :: rest => some ('\x08', rest)
  | 't' :: rest => some ('\t', rest)
  | 'n' :: rest => some ('\n', rest)
  | 'f' :: rest => some ('\x0c', rest)
  | 'r' :: rest => some ('\r', rest)
  | '"' :: rest => some ('"', rest)
  | '\\' :: rest => some ('\\', rest)
  | 'u' :: rest => code 4 rest
  | 'U' :: rest => code 8 rest
  | _ => none
where
  code (n : Nat) (s : List Char) : Option (Char × List Char) :=
    if s.length < n then none
    else ((hexValue? (s.take n)).bind charOf?).map fun c => (c, s.drop n)

/-- Whether a character may stand in a string as it is. -/
def isTextChar (c : Char) : Bool := isCommentChar c

/-- Takes the rest of a string on one line; the characters before it are given in reverse. -/
def lineString? (escapes : Bool) (mark : Char) : Nat → List Char → Reader String
  | 0, _, _ => none
  | _, _, [] => none
  | fuel + 1, before, c :: rest =>
    if c = mark then some (String.ofList before.reverse, rest)
    else if c = '\\' ∧ escapes then
      (escaped? rest).bind fun (e, rest) => lineString? escapes mark fuel (e :: before) rest
    else if isTextChar c then lineString? escapes mark fuel (c :: before) rest
    else none

/-- Drops the blanks and line ends behind a backslash at the end of a line. -/
def skipJoined (s : List Char) : List Char :=
  s.dropWhile fun c => isBlank c || c == '\n' || c == '\r'

/-- Takes the rest of a string over several lines. Three marks end it, and up to two marks directly
before those belong to it. -/
def blockString? (escapes : Bool) (mark : Char) : Nat → List Char → Reader String
  | 0, _, _ => none
  | _, _, [] => none
  | fuel + 1, before, c :: rest =>
    if c = mark then
      let marks := (c :: rest).takeWhile (· == mark)
      if marks.length < 3 then blockString? escapes mark fuel (c :: before) rest
      else if 5 < marks.length then none
      else
        let kept := marks.drop 3
        some (String.ofList (kept ++ before).reverse, (c :: rest).drop marks.length)
    else if c = '\\' ∧ escapes then
      let joined := skipBlanks rest
      if (lineEnd? joined).isSome then
        blockString? escapes mark fuel before (skipJoined joined)
      else (escaped? rest).bind fun (e, rest) => blockString? escapes mark fuel (e :: before) rest
    else
      match lineEnd? (c :: rest) with
      | some rest => blockString? escapes mark fuel ('\n' :: before) rest
      | none =>
        if isTextChar c then blockString? escapes mark fuel (c :: before) rest else none

/-- Takes a string. -/
def string? : Reader String
  | '"' :: '"' :: '"' :: rest =>
    blockString? true '"' (rest.length + 1) [] ((lineEnd? rest).getD rest)
  | '\'' :: '\'' :: '\'' :: rest =>
    blockString? false '\'' (rest.length + 1) [] ((lineEnd? rest).getD rest)
  | '"' :: rest => lineString? true '"' (rest.length + 1) [] rest
  | '\'' :: rest => lineString? false '\'' (rest.length + 1) [] rest
  | _ => none

/-! ## Numbers and dates -/

/-- Takes digits with single low lines between them, and gives the digits. -/
def digits? (isDigit : Char → Bool) : Reader (List Char)
  | [] => none
  | c :: rest => if isDigit c then some (go [c] rest) else none
where
  go (before : List Char) : List Char → List Char × List Char
    | [] => (before.reverse, [])
    | '_' :: c :: rest =>
      if isDigit c then go (c :: before) rest else (before.reverse, '_' :: c :: rest)
    | c :: rest => if isDigit c then go (c :: before) rest else (before.reverse, c :: rest)

/-- Takes a decimal whole number without sign; only zero starts with a zero. -/
def wholeDigits? : Reader (List Char)
  | '0' :: rest => some (['0'], rest)
  | s => digits? Char.isDigit s

/-- The value of digits of a base. -/
def valueIn (base : Nat) (digits : List Char) : Nat :=
  digits.foldl (fun n c => base * n + (hexValue? [c]).getD 0) 0

/-- A whole number of 64 bits with sign. -/
def integerValue? (n : Int) : Option Value :=
  if Int64.minValue.toInt ≤ n ∧ n ≤ Int64.maxValue.toInt then some (.integer n) else none

/-- Takes a whole number of a base behind its mark. -/
def basedInteger? (base : Nat) (s : List Char) : Option (Value × List Char) := do
  let isDigit := fun c => (hexValue? [c]).any (· < base)
  let (digits, rest) ← digits? isDigit s
  pure (← integerValue? (valueIn base digits), rest)

/-- Takes the part of a number behind its whole digits: fraction digits, the power of ten, and
whether there was any of them. -/
def numberTail? (s : List Char) : Option (List Char × Int × Bool × List Char) := do
  let (fraction, rest) ← match s with
    | '.' :: rest => digits? Char.isDigit rest
    | _ => some ([], s)
  match rest with
  | c :: more =>
    if c = 'e' ∨ c = 'E' then
      let (negative, more) := Decimal.takeSign more
      let (digits, more) ← digits? Char.isDigit more
      let n : Int := Decimal.digitsValue digits
      pure (fraction, if negative then -n else n, true, more)
    else pure (fraction, 0, !fraction.isEmpty, rest)
  | [] => pure (fraction, 0, !fraction.isEmpty, rest)

/-- Takes a number in decimal digits. A fraction must not grow beyond all bounds. -/
def decimal? (negative : Bool) (s : List Char) : Option (Value × List Char) := do
  let (whole, rest) ← wholeDigits? s
  match numberTail? rest with
  | some (fraction, exponent, true, rest) =>
    let x := Decimal.nearest64 negative (Decimal.digitsValue (whole ++ fraction))
      (exponent - fraction.length)
    if x.isInf && !negative then none else pure (.float x, rest)
  | _ =>
    let n : Int := Decimal.digitsValue whole
    pure (← integerValue? (if negative then -n else n), rest)

/-- Takes a number. -/
def number? (s : List Char) : Option (Value × List Char) :=
  match s with
  | '0' :: 'x' :: rest => basedInteger? 16 rest
  | '0' :: 'o' :: rest => basedInteger? 8 rest
  | '0' :: 'b' :: rest => basedInteger? 2 rest
  | _ =>
    let (negative, rest) := Decimal.takeSign s
    match rest with
    | 'i' :: 'n' :: 'f' :: rest =>
      some (.float (Float.ofBits
        (Decimal.Format.double.write (.infinite negative)).toUInt64), rest)
    | 'n' :: 'a' :: 'n' :: rest =>
      some (.float (Float.ofBits (Decimal.Format.double.write .notNumber).toUInt64), rest)
    | _ => decimal? negative rest

/-- Takes a number of exactly `n` digits between bounds. -/
def bounded? (n low high : Nat) (s : List Char) : Option (Nat × List Char) :=
  let digits := s.take n
  let value := Decimal.digitsValue digits
  if digits.length = n ∧ digits.all Char.isDigit ∧ low ≤ value ∧ value ≤ high then
    some (value, s.drop n)
  else none

/-- The number of days of a month. -/
def daysIn (year month : Nat) : Nat :=
  if month = 2 then
    if year % 4 = 0 ∧ (year % 100 ≠ 0 ∨ year % 400 = 0) then 29 else 28
  else if month = 4 ∨ month = 6 ∨ month = 9 ∨ month = 11 then 30
  else 31

/-- Takes a given character. -/
def char? (c : Char) : List Char → Option (List Char)
  | d :: rest => if d = c then some rest else none
  | [] => none

/-- Takes a date. -/
def date? (s : List Char) : Option (List Char) := do
  let (year, s) ← bounded? 4 0 9999 s
  let s ← char? '-' s
  let (month, s) ← bounded? 2 1 12 s
  let s ← char? '-' s
  let (_, s) ← bounded? 2 1 (daysIn year month) s
  pure s

/-- Takes a time of day. -/
def time? (s : List Char) : Option (List Char) := do
  let (_, s) ← bounded? 2 0 23 s
  let s ← char? ':' s
  let (_, s) ← bounded? 2 0 59 s
  let s ← char? ':' s
  let (_, s) ← bounded? 2 0 60 s
  match s with
  | '.' :: rest =>
    if (rest.head?.any Char.isDigit) then pure (rest.dropWhile Char.isDigit) else none
  | _ => pure s

/-- Takes the distance from universal time, if one is given. -/
def offset? : List Char → Option (List Char)
  | 'Z' :: rest => some rest
  | 'z' :: rest => some rest
  | c :: rest =>
    if c = '+' ∨ c = '-' then do
      let (_, s) ← bounded? 2 0 23 rest
      let s ← char? ':' s
      let (_, s) ← bounded? 2 0 59 s
      pure s
    else some (c :: rest)
  | [] => some []

/-- Takes a date, a time, or a date with a time. -/
def moment? (s : List Char) : Option (Value × List Char) :=
  match date? s with
  | some (c :: rest) =>
    if c = 'T' ∨ c = 't' ∨ c = ' ' then
      match time? rest with
      | some rest => (offset? rest).map fun rest => (.moment, rest)
      | none => some (.moment, c :: rest)
    else some (.moment, c :: rest)
  | some [] => some (.moment, [])
  | none => (time? s).map fun rest => (.moment, rest)

/-! ## Keys and values -/

/-- Whether a character may stand in a key without quotes. -/
def isBareKeyChar (c : Char) : Bool := c.isAlphanum || c == '_' || c == '-'

/-- Takes one part of a key with the blanks around it. -/
def keyPart? (s : List Char) : Option (String × List Char) :=
  match skipBlanks s with
  | '"' :: rest => (lineString? true '"' (rest.length + 1) [] rest).map fun (k, r) =>
    (k, skipBlanks r)
  | '\'' :: rest => (lineString? false '\'' (rest.length + 1) [] rest).map fun (k, r) =>
    (k, skipBlanks r)
  | rest =>
    let key := rest.takeWhile isBareKeyChar
    if key.isEmpty then none
    else some (String.ofList key, skipBlanks (rest.dropWhile isBareKeyChar))

/-- Takes a key: the parts before the last, and the last. -/
def key? : Nat → Reader (List String × String)
  | 0, _ => none
  | fuel + 1, s =>
    match keyPart? s with
    | some (part, '.' :: rest) =>
      (key? fuel rest).map fun ((path, last), rest) => ((part :: path, last), rest)
    | some (part, rest) => some (([], part), rest)
    | none => none

/-- Values nested deeper than this are refused. -/
def depthLimit : Nat := 80

mutual

/-- Takes a value inside `depth` containers. -/
def value? : Nat → Nat → Reader Value
  | 0, _, _ => none
  | fuel + 1, depth, s =>
    match s with
    | '"' :: _ => (string? s).map fun (t, rest) => (.string t, rest)
    | '\'' :: _ => (string? s).map fun (t, rest) => (.string t, rest)
    | '[' :: rest =>
      if depthLimit ≤ depth + 1 then none else items? fuel (depth + 1) [] rest
    | '\x7b' :: rest =>
      if depthLimit ≤ depth + 1 then none
      else
        match skipBlanks rest with
        | '\x7d' :: rest => some (.table [], rest)
        | rest => entries? fuel (depth + 1) [] rest
    | 't' :: 'r' :: 'u' :: 'e' :: rest => some (.bool true, rest)
    | 'f' :: 'a' :: 'l' :: 's' :: 'e' :: rest => some (.bool false, rest)
    | _ =>
      match moment? s with
      | some found => some found
      | none => number? s

/-- Takes the items of an array and its end. -/
def items? : Nat → Nat → List Value → Reader Value
  | 0, _, _, _ => none
  | fuel + 1, depth, before, s =>
    match skipLines? (s.length + 1) s with
    | some (']' :: rest) => some (.array before.reverse, rest)
    | some rest =>
      match value? fuel depth rest with
      | some (v, rest) =>
        match skipLines? (rest.length + 1) rest with
        | some (',' :: rest) => items? fuel depth (v :: before) rest
        | some (']' :: rest) => some (.array (v :: before).reverse, rest)
        | _ => none
      | none => none
    | none => none

/-- Takes the entries of a table in braces and its end. -/
def entries? : Nat → Nat → Draft → Reader Value
  | 0, _, _, _ => none
  | fuel + 1, depth, before, s =>
    match key? depthLimit s with
    | some ((path, key), '=' :: rest) =>
      match value? fuel depth (skipBlanks rest) with
      | some (v, rest) =>
        match Draft.addValue path key v before with
        | some entries =>
          match skipBlanks rest with
          | ',' :: rest => entries? fuel depth entries rest
          | '\x7d' :: rest => some (.table (finish entries), rest)
          | _ => none
        | none => none
      | none => none
    | _ => none

end

/-! ## Documents -/

/-- A document that has been read up to some line. -/
structure Progress where
  root : Draft := []
  /-- The path of the table that keys are added to. -/
  table : List String := []

/-- Takes a header behind its opening bracket. -/
def header? (p : Progress) (s : List Char) : Option (Progress × List Char) :=
  match s with
  | '[' :: rest =>
    match key? depthLimit rest with
    | some ((path, key), ']' :: ']' :: rest) =>
      (p.root.openElement path key).bind fun root =>
        (lineTail? rest).map fun rest => (⟨root, path ++ [key]⟩, rest)
    | _ => none
  | _ =>
    match key? depthLimit s with
    | some ((path, key), ']' :: rest) =>
      (p.root.openTable path key).bind fun root =>
        (lineTail? rest).map fun rest => (⟨root, path ++ [key]⟩, rest)
    | _ => none

/-- Takes a key with its value. -/
def assignment? (p : Progress) (s : List Char) : Option (Progress × List Char) :=
  match key? depthLimit s with
  | some ((path, key), '=' :: rest) => do
    let rest := skipBlanks rest
    let (v, rest) ← value? (2 * rest.length + 2) 0 rest
    let root ← Draft.changeAt false (fun _ t => t.addValue path key v) .header p.table p.root
    let rest ← lineTail? rest
    pure (⟨root, p.table⟩, rest)
  | _ => none

/-- Takes all lines of a document. -/
def document? : Nat → Progress → List Char → Option Draft
  | 0, _, _ => none
  | fuel + 1, p, s =>
    match skipBlanks s with
    | [] => some p.root
    | '#' :: rest => (lineTail? ('#' :: rest)).bind (document? fuel p)
    | '[' :: rest => (header? p rest).bind fun (p, rest) => document? fuel p rest
    | rest =>
      match lineEnd? rest with
      | some rest => document? fuel p rest
      | none => (assignment? p rest).bind fun (p, rest) => document? fuel p rest

/-- The table that a text stands for. A mark of the byte order at the front is dropped. -/
def Table.ofText? (text : String) : Option Table :=
  let s := match text.toList with
    | '\uFEFF' :: rest => rest
    | s => s
  (document? (s.length + 1) {} s).map finish

end CodeClones.Toml
