import CodeClones.Syntax.Lexeme

/-!
# Literals of Python

Numbers and strings. Letters in front of a string say whether backslashes are kept and whether
braces hold expressions. Outside strings of three quotes a line may only end directly behind the
quote or an escape.
-/

namespace CodeClones.Syntax.Python

/-- How the text of a string is delimited and read. -/
structure Quote where
  mark : Char
  triple : Bool
  raw : Bool
  format : Bool
  deriving DecidableEq, Repr

/-- Whether a letter may stand in front of a string. -/
def isStringFlag (c : Char) : Bool :=
  ['f', 'F', 'r', 'R', 'b', 'B', 'u', 'U'].contains c

/-- Whether a character delimits strings. -/
def isQuote (c : Char) : Bool := c == '"' || c == '\''

/-- The quote that opens a string at a place, and the place behind it. -/
def openQuote? (src : Source) (i : Nat) : Option (Quote × Nat) :=
  let j := spanEnd isStringFlag src i
  let flags := (src.extract i j).toList
  match src[j]? with
  | some mark =>
    if isQuote mark then
      let triple := src[j + 1]? == some mark && src[j + 2]? == some mark
      let raw := flags.any fun c => c == 'r' || c == 'R'
      let format := flags.any fun c => c == 'f' || c == 'F'
      some (⟨mark, triple, raw, format⟩, if triple then j + 3 else j + 1)
    else none
  | none => none

/-- Whether the closing quote stands at a place. -/
def Quote.closesAt (q : Quote) (src : Source) (i : Nat) : Bool :=
  src[i]? == some q.mark &&
    (!q.triple || (src[i + 1]? == some q.mark && src[i + 2]? == some q.mark))

/-- The length of the quote. -/
def Quote.width (q : Quote) : Nat := if q.triple then 3 else 1

/-- The place behind a backslash and the character it takes along. -/
def Quote.escapeEnd (q : Quote) (src : Source) (i : Nat) : Nat :=
  match src[i + 1]? with
  | some c =>
    if c = '\r' ∧ src[i + 2]? = some '\n' then i + 3
    else if c = '\n' ∨ c = '\\' then i + 2
    else if isQuote c ∧ (c = q.mark ∨ !q.raw) then i + 2
    else i + 1
  | none => i + 1

/-- The place where the text of a string stops: before the closing quote, or before a brace that is
not doubled in a string with expressions. `fresh` says whether a line may end here. -/
def Quote.textEnd (q : Quote) (src : Source) : Nat → Bool → Nat → Option Nat
  | 0, _, _ => none
  | fuel + 1, fresh, i =>
    match src[i]? with
    | none => none
    | some c =>
      if q.closesAt src i then some i
      else if q.format && (c == '\x7b' || c == '\x7d') then
        if src[i + 1]? = some c then q.textEnd src fuel true (i + 2) else some i
      else if c = '\\' then q.textEnd src fuel (!q.raw || fresh) (q.escapeEnd src i)
      else if c = '\n' ∧ !q.triple ∧ !fresh then none
      else q.textEnd src fuel false (i + 1)

/-- The place behind the text of a string. -/
def Quote.text (q : Quote) : Recogniser := fun src i => q.textEnd src (src.size + 1 - i) true i

/-- A string without expressions. -/
def plainString : Recogniser := fun src i => do
  let (q, j) ← openQuote? src i
  if q.format then none
  else
    let k ← q.text src j
    some (k + q.width)

/-- The opening of a string with expressions under the given quote. -/
def formatOpening (q : Quote) : Recogniser := fun src i => do
  let (found, j) ← openQuote? src i
  if found = q then some j else none

/-- The text of a string with expressions, up to the next brace or quote. -/
def formatText (q : Quote) : Recogniser := fun src i => do
  let j ← q.text src i
  if i < j then some j else none

/-- The closing quote. -/
def formatClosing (q : Quote) : Recogniser := fun src i =>
  if q.closesAt src i then some (i + q.width) else none

/-- The text between braces of a format specification. -/
def specificationText : Recogniser := fun src i =>
  let j := spanEnd (fun c => c != '\x7b' && c != '\x7d' && c != '\n') src i
  if i < j then some j else none

/-- A conversion mark with its letter. -/
def conversion : Recogniser := fun src i =>
  if src[i]? = some '!' ∧ charIs Char.isLower src (i + 1) then some (i + 2) else none

/-- The place behind digits of a base marked by a letter after zero. -/
def basedNumber (letter : Char) (isDigit : Char → Bool) : Recogniser := fun src i =>
  if src[i]? = some '0' ∧ charIs (fun c => c.toLower == letter) src (i + 1) then
    let j := spanEnd (fun c => isDigit c || c == '_') src (i + 2)
    if i + 2 < j then some j else none
  else none

/-- Skips one character that satisfies `p`. -/
def skipOne (p : Char → Bool) (src : Source) (i : Nat) : Nat :=
  if charIs p src i then i + 1 else i

/-- The place behind a decimal number with fraction, exponent and unit. -/
def decimalNumber : Recogniser := fun src i =>
  let isUnit (c : Char) : Bool := c == 'j' || c == 'J' || c == 'l' || c == 'L'
  match digitsEnd Char.isDigit src i with
  | some j =>
    let j := if src[j]? = some '.' then (digitsEnd Char.isDigit src (j + 1)).getD (j + 1) else j
    some (skipOne isUnit src (exponentEnd src j))
  | none =>
    if src[i]? = some '.' then
      (digitsEnd Char.isDigit src (i + 1)).map fun j => skipOne isUnit src (exponentEnd src j)
    else none

/-- A number. -/
def number : Recogniser := fun src i =>
  (basedNumber 'x' isHexDigit src i).orElse fun _ =>
    (basedNumber 'o' (fun c => '0' ≤ c && c ≤ '7') src i).orElse fun _ =>
      (basedNumber 'b' (fun c => c == '0' || c == '1') src i).orElse fun _ => decimalNumber src i

end CodeClones.Syntax.Python
