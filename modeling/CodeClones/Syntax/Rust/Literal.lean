import CodeClones.Syntax.Lexeme

/-!
# Blanks and literals of Rust

Block comments nest. A raw string ends at a quote with as many number signs as it began with. An
apostrophe opens a character literal where one ends right behind its character, and a lifetime
elsewhere.
-/

namespace CodeClones.Syntax.Rust

/-- The place behind a block comment, given its open depth and a place inside. -/
def blockCommentEnd (src : Source) : Nat → Nat → Nat → Option Nat
  | 0, _, _ => none
  | fuel + 1, depth, i =>
    match src[i]?, src[i + 1]? with
    | some '/', some '*' => blockCommentEnd src fuel (depth + 1) (i + 2)
    | some '*', some '/' =>
      if depth ≤ 1 then some (i + 2) else blockCommentEnd src fuel (depth - 1) (i + 2)
    | some _, _ => blockCommentEnd src fuel depth (i + 1)
    | none, _ => none

/-- A comment that starts at a place. -/
def commentAt (src : Source) (i : Nat) : Option (String × Nat) :=
  match src[i]?, src[i + 1]? with
  | some '/', some '/' => some ("line_comment", spanEnd (· != '\n') src i)
  | some '/', some '*' =>
    (blockCommentEnd src (src.size + 1 - i) 1 (i + 2)).map fun j => ("block_comment", j)
  | _, _ => none

/-- The place behind blanks and comments. -/
def skipGaps (src : Source) : Nat → Nat → Nat
  | 0, i => i
  | fuel + 1, i =>
    if charIs Text.isBlank src i then skipGaps src fuel (i + 1)
    else
      match commentAt src i with
      | some (_, j) => skipGaps src fuel j
      | none => i

/-- The start of the next token. -/
def lead : Lead := fun src c => some (skipGaps src (src.size + 1) c.pos)

/-- Takes all that is left if it holds no token. -/
def atEnd : Scanner := fun src c =>
  let next := skipGaps src (src.size + 1) c.pos
  if next = src.size then some (next, { c with pos := next }) else none

/-- The place behind the escape whose backslash stands at `i`. -/
def escapeEnd (src : Source) (i : Nat) : Option Nat :=
  let digits (count start : Nat) : Option Nat :=
    if (List.range count).all fun k => charIs isHexDigit src (start + k) then some (start + count)
    else none
  match src[i + 1]?, src[i + 2]? with
  | none, _ => none
  | some 'x', _ => digits 2 (i + 2)
  | some 'u', some '\x7b' =>
    let j := spanEnd isHexDigit src (i + 3)
    if i + 3 < j ∧ src[j]? = some '\x7d' then some (j + 1) else none
  | some 'u', _ => digits 4 (i + 2)
  | some _, _ => some (i + 2)

/-- The place behind the closing quote of a string, from a place inside it. -/
def stringEnd (src : Source) : Nat → Nat → Option Nat
  | 0, _ => none
  | fuel + 1, i =>
    match src[i]? with
    | none => none
    | some '"' => some (i + 1)
    | some '\\' =>
      match escapeEnd src i with
      | some j => stringEnd src fuel j
      | none => none
    | some _ => stringEnd src fuel (i + 1)

/-- The place behind a raw string, from a place inside it. -/
def rawStringEnd (src : Source) (signs : List Char) : Nat → Nat → Option Nat
  | 0, _ => none
  | fuel + 1, i =>
    match src[i]? with
    | none => none
    | some '"' =>
      match expectChars signs src (i + 1) with
      | some j => some j
      | none => rawStringEnd src signs fuel (i + 1)
    | some _ => rawStringEnd src signs fuel (i + 1)

/-- Skips a letter that marks a string of bytes or of the C form. -/
def skipStringMark (src : Source) (i : Nat) : Nat :=
  if charIs (fun c => c == 'b' || c == 'c') src i then i + 1 else i

/-- A string, raw or not. -/
def string : Recogniser := fun src i =>
  let j := skipStringMark src i
  match src[j]? with
  | some '"' => stringEnd src (src.size + 1) (j + 1)
  | some 'r' =>
    let k := spanEnd (· == '#') src (j + 1)
    if src[k]? = some '"' then
      rawStringEnd src (List.replicate (k - (j + 1)) '#') (src.size + 1) (k + 1)
    else none
  | _ => none

/-- A character or byte literal. -/
def character : Recogniser := fun src i =>
  let j := if src[i]? = some 'b' then i + 1 else i
  if src[j]? = some '\'' then
    match src[j + 1]? with
    | some '\\' =>
      match escapeEnd src (j + 1) with
      | some k => if src[k]? = some '\'' then some (k + 1) else none
      | none => none
    | some c => if c ≠ '\'' ∧ src[j + 2]? = some '\'' then some (j + 3) else none
    | none => none
  else none

/-- A lifetime or a label. -/
def lifetime : Recogniser := fun src i =>
  if src[i]? = some '\'' then nameEnd src (i + 1) else none

/-- The suffixes of whole numbers. -/
def suffixes : List String :=
  ["u8", "i8", "u16", "i16", "u32", "i32", "u64", "i64", "u128", "i128", "isize", "usize", "f32",
    "f64"]

/-- Skips a suffix of numbers. -/
def skipSuffix (src : Source) (i : Nat) : Nat :=
  match suffixes.filterMap fun s => expectChars s.toList src i with
  | [] => i
  | ends => ends.foldl max i

/-- A whole number. -/
def integer : Recogniser := fun src i =>
  let based (letter : Char) (isDigit : Char → Bool) : Option Nat :=
    if src[i]? = some '0' ∧ src[i + 1]? = some letter then
      let j := spanEnd (fun c => isDigit c || c == '_') src (i + 2)
      if i + 2 < j then some j else none
    else none
  let digits := ((based 'x' isHexDigit).orElse fun _ => based 'o' (fun c => '0' ≤ c && c ≤ '7'))
    |>.orElse fun _ => based 'b' (fun c => c == '0' || c == '1')
    |>.orElse fun _ => digitsEnd Char.isDigit src i
  digits.map (skipSuffix src)

/-- Skips the width behind a letter at the end of a number. -/
def skipWidth (src : Source) (i : Nat) : Nat :=
  if charIs ['f', 'i', 'u'].contains src i ∧ charIs Char.isDigit src (i + 1) then
    spanEnd Char.isDigit src (i + 1)
  else i

/-- A number with a fraction or an exponent. -/
def float : Recogniser := fun src i => do
  let j ← digitsEnd Char.isDigit src i
  let isNumeric (c : Char) : Bool := c.isDigit || c == '_'
  let point := src[j]? == some '.'
  if point && charIs (fun c => c == '.' || startsName c) src (j + 1) then none
  else
    let j := if point then spanEnd isNumeric src (j + 1) else j
    let k := exponentEnd src j
    if !point && k == j then none else some (skipWidth src k)

/-- A word, with the mark of a raw identifier in front of it if it has one. -/
def identifier : Recogniser := fun src i =>
  if src[i]? = some 'r' ∧ src[i + 1]? = some '#' then nameEnd src (i + 2) else nameEnd src i

/-- One character of an operator or a mark, as it may stand in a macro. -/
def macroPunctuation : Recogniser := fun src i =>
  if charIs "+-*/%^!&|=<>@_.,;:#?$".toList.contains src i then some (i + 1) else none

end CodeClones.Syntax.Rust
