import CodeClones.Syntax.Lexeme

/-!
# Blanks, line ends and literals of TypeScript

A line end closes a statement where the next token cannot go on with it. Which tokens go on depends
on whether an expression stands before the line end. Inside brackets line ends carry no meaning, and
a block inside brackets starts afresh.
-/

namespace CodeClones.Syntax.TypeScript

/-- Whether a character is a blank between tokens. -/
def isGap (c : Char) : Bool :=
  Text.isBlank c || c == '\uFEFF' || c == '\u2060' || c == '\u200B'

/-- The place behind the end of a block comment, from a place inside it. -/
def blockCommentEnd (src : Source) : Nat → Nat → Option Nat
  | 0, _ => none
  | fuel + 1, i =>
    match src[i]?, src[i + 1]? with
    | some '*', some '/' => some (i + 2)
    | some _, _ => blockCommentEnd src fuel (i + 1)
    | none, _ => none

/-- A comment that starts at a place. -/
def commentAt (src : Source) (i : Nat) : Option (String × Nat) :=
  match src[i]?, src[i + 1]? with
  | some '/', some '/' => some ("comment", spanEnd (· != '\n') src i)
  | some '/', some '*' =>
    (blockCommentEnd src (src.size + 1 - i) (i + 2)).map fun j => ("comment", j)
  | _, _ => none

/-- The place behind blanks and comments, and whether a line ended outside comments. -/
def skipGaps (src : Source) : Nat → Bool → Nat → Bool × Nat
  | 0, ended, i => (ended, i)
  | fuel + 1, ended, i =>
    if charIs isGap src i then skipGaps src fuel (ended || src[i]? == some '\n') (i + 1)
    else
      match commentAt src i with
      | some (_, j) => skipGaps src fuel ended j
      | none => (ended, i)

/-- The gap behind a place. -/
def gapAt (src : Source) (i : Nat) : Bool × Nat := skipGaps src (src.size + 1) false i

/-- The start of the next token. -/
def lead : Lead := fun src c => some (gapAt src c.pos).2

/-- Whether a character starts an identifier. -/
def startsIdentifier (c : Char) : Bool :=
  !isGap c && !c.isDigit && 32 ≤ c.toNat &&
    !(":;`\"'@#.,|^&<=>+-*/\\%?!~()[]\x7b\x7d".toList.contains c)

/-- Whether a character continues an identifier. -/
def isIdentifierPart (c : Char) : Bool := startsIdentifier c || c.isDigit

/-- An identifier. -/
def identifier : Recogniser := fun src i =>
  if charIs startsIdentifier src i then some (spanEnd isIdentifierPart src i) else none

/-- A private name. -/
def privateName : Recogniser := fun src i =>
  if src[i]? = some '#' then identifier src (i + 1) else none

/-- Whether a line end before a token that starts at `i` closes a statement. `afterExpression` says
that an expression stands before the line end, `beforeBody` that a body may follow. -/
def closesBefore (afterExpression beforeBody : Bool) (src : Source) (i : Nat) : Bool :=
  match src[i]? with
  | none => true
  | some c =>
    if "`,.;*%>=<?^|&/:".toList.contains c then false
    else if c = '\x7b' then !beforeBody
    else if c = '(' ∨ c = '[' then !afterExpression
    else if c = '+' then src[i + 1]? == some '+'
    else if c = '-' then src[i + 1]? == some '-'
    else if c = '!' then src[i + 1]? != some '='
    else
      !(wholeWord Char.isAlpha "in" src i).isSome &&
        !(wholeWord Char.isAlpha "instanceof" src i).isSome

/-- Succeeds where a statement ends without a semicolon. -/
def statementEnd (afterExpression beforeBody : Bool) : Scanner := fun src c =>
  let (ended, i) := gapAt src c.pos
  let closes := match src[i]? with
    | none => true
    | some '\x7d' =>
      -- a brace before a colon ends a pattern, not a block
      let (_, j) := gapAt src (i + 1)
      src[j]? != some ':' || afterExpression
    | some _ => ended && closesBefore afterExpression beforeBody src i
  if closes then some (c.pos, c) else none

/-- Succeeds where no line ends before the next token, or brackets are open. -/
def sameLine : Scanner := fun src c =>
  if c.brackets ≠ 0 || !(gapAt src c.pos).1 then some (c.pos, c) else none

/-- Opens a block, in which line ends count again. -/
def blockOpening : Scanner := fun src c =>
  (token lead (fixed "\x7b") src c).map fun (start, c) =>
    (start, { c with indents := c.brackets :: c.indents, brackets := 0 })

/-- Closes a block. -/
def blockClosing : Scanner := fun src c =>
  (token lead (fixed "\x7d") src c).map fun (start, c) =>
    (start, { c with indents := c.indents.tail, brackets := c.indents.headD 0 })

/-- Takes all that is left if it holds no token. -/
def atEnd : Scanner := fun src c =>
  let (_, next) := gapAt src c.pos
  if next = src.size then some (next, { c with pos := next }) else none

/-- The place behind the closing mark of a string, from a place inside it. -/
def stringEnd (mark : Char) (src : Source) : Nat → Nat → Option Nat
  | 0, _ => none
  | fuel + 1, i =>
    match src[i]? with
    | none => none
    | some c =>
      if c = mark then some (i + 1)
      else if c = '\n' ∨ c = '\r' then none
      else if c = '\\' then
        let wide := src[i + 1]? == some '\r' && src[i + 2]? == some '\n'
        stringEnd mark src fuel (if wide then i + 3 else i + 2)
      else stringEnd mark src fuel (i + 1)

/-- A string between quotes. -/
def string : Recogniser := fun src i =>
  match src[i]? with
  | some c => if c = '"' ∨ c = '\'' then stringEnd c src (src.size + 1) (i + 1) else none
  | none => none

/-- The text of a template up to its end or its next expression. -/
def templateTextEnd (src : Source) : Nat → Nat → Nat
  | 0, i => i
  | fuel + 1, i =>
    match src[i]? with
    | none => i
    | some '`' => i
    | some '\\' => templateTextEnd src fuel (i + 2)
    | some '$' =>
      if src[i + 1]? = some '\x7b' then i else templateTextEnd src fuel (i + 1)
    | some _ => templateTextEnd src fuel (i + 1)

/-- The text of a template. -/
def templateText : Recogniser := fun src i =>
  let j := min (templateTextEnd src (src.size + 1) i) src.size
  if i < j then some j else none

/-- The place behind the body of a regular expression and its slash. -/
def regexEnd (src : Source) : Nat → Bool → Nat → Option Nat
  | 0, _, _ => none
  | fuel + 1, inClass, i =>
    match src[i]? with
    | none => none
    | some c =>
      if c = '\n' then none
      else if c = '\\' then regexEnd src fuel inClass (i + 2)
      else if c = '[' then regexEnd src fuel true (i + 1)
      else if c = ']' then regexEnd src fuel false (i + 1)
      else if c = '/' ∧ !inClass then some (i + 1)
      else regexEnd src fuel inClass (i + 1)

/-- A regular expression with its flags. -/
def regex : Recogniser := fun src i =>
  if src[i]? = some '/' ∧ !charIs (fun c => c == '/' || c == '*') src (i + 1) then
    (regexEnd src (src.size + 1) false (i + 1)).map (spanEnd Char.isAlpha src)
  else none

/-- The place behind the digits of a base marked by a letter. -/
def basedNumber (letter : Char) (isDigit : Char → Bool) : Recogniser := fun src i =>
  if src[i]? = some '0' ∧ charIs (fun c => c.toLower == letter) src (i + 1) then
    let j := spanEnd (fun c => isDigit c || c == '_') src (i + 2)
    if i + 2 < j then some j else none
  else none

/-- A number. -/
def number : Recogniser := fun src i =>
  let decimal : Option Nat :=
    match digitsEnd Char.isDigit src i with
    | some j =>
      let j := if src[j]? = some '.' then (digitsEnd Char.isDigit src (j + 1)).getD (j + 1) else j
      some (exponentEnd src j)
    | none =>
      if src[i]? = some '.' then (digitsEnd Char.isDigit src (i + 1)).map (exponentEnd src) else none
  let based := (basedNumber 'x' isHexDigit src i)
    |>.orElse fun _ => basedNumber 'o' (fun c => '0' ≤ c && c ≤ '7') src i
    |>.orElse fun _ => basedNumber 'b' (fun c => c == '0' || c == '1') src i
  (based.orElse fun _ => decimal).map fun j => if src[j]? = some 'n' then j + 1 else j

/-- Text between the tags of an element. -/
def elementText : Recogniser := fun src i =>
  let j := spanEnd (fun c => !(['\x7b', '\x7d', '<', '>'].contains c)) src i
  if i < j then some j else none

/-- The value of an attribute between quotes, in which nothing is escaped. -/
def attributeText : Recogniser := fun src i =>
  match src[i]? with
  | some c =>
    let j := spanEnd (· != c) src (i + 1)
    if (c = '"' ∨ c = '\'') ∧ j < src.size then some (j + 1) else none
  | none => none

/-- A name of a tag or an attribute, in which hyphens may occur. -/
def elementName : Recogniser := fun src i =>
  if charIs startsIdentifier src i then
    some (spanEnd (fun c => isIdentifierPart c || c == '-') src i)
  else none

end CodeClones.Syntax.TypeScript
