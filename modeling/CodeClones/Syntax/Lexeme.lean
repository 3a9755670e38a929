import CodeClones.Syntax.Rule
import CodeClones.Text.Basic
import CodeClones.Text.Classes

/-!
# Tokens

Recognisers of single tokens. A recogniser gets the place where a token would start and gives the
place behind it. What may stand in front of a token is up to the grammar.
-/

namespace CodeClones.Syntax

/-- Gives the place behind a token that starts at a place. -/
abbrev Recogniser := Source → Nat → Option Nat

/-- Gives the place where the next token starts. -/
abbrev Lead := Source → Cursor → Option Nat

/-- The place behind the characters from `i` on that satisfy `p`. -/
def spanEnd (p : Char → Bool) (src : Source) (i : Nat) : Nat :=
  if h : i < src.size then
    if p src[i] then spanEnd p src (i + 1) else i
  else i
termination_by src.size - i

/-- The place behind the given characters. -/
def expectChars : List Char → Recogniser
  | [], _, i => some i
  | c :: rest, src, i => if src[i]? = some c then expectChars rest src (i + 1) else none

/-- Whether the character at a place satisfies `p`. -/
def charIs (p : Char → Bool) (src : Source) (i : Nat) : Bool := (src[i]?).any p

/-- Whether the text goes on with the given characters. -/
def hasText (text : String) (src : Source) (i : Nat) : Bool :=
  (expectChars text.toList src i).isSome

/-- Whether a character starts an identifier. -/
def startsName (c : Char) : Bool := c == '_' || Text.isIdentifierStart c

/-- The place behind an identifier. -/
def nameEnd : Recogniser := fun src i =>
  if charIs startsName src i then some (spanEnd Text.isIdentifierPart src (i + 1)) else none

/-- The characters between two places. -/
def slice (src : Source) (start stop : Nat) : String :=
  String.ofList (src.extract start stop).toList

/-- The place behind a fixed text. -/
def fixed (text : String) : Recogniser := expectChars text.toList

/-- The place behind a fixed text that is not followed by one of the given characters. -/
def fixedBefore (text : String) (refused : List Char) : Recogniser := fun src i =>
  match expectChars text.toList src i with
  | some j => if charIs refused.contains src j then none else some j
  | none => none

/-- The place behind a word that ends there. -/
def wholeWord (isPart : Char → Bool) (word : String) : Recogniser := fun src i =>
  match expectChars word.toList src i with
  | some j => if charIs isPart src j then none else some j
  | none => none

/-- Takes a token behind what may stand in front of it. -/
def token (lead : Lead) (r : Recogniser) : Scanner := fun src c =>
  match lead src c with
  | some start =>
    match r src start with
    | some stop => some (start, { c with pos := stop })
    | none => none
  | none => none

/-- Takes a token that opens a bracket. -/
def opening (lead : Lead) (r : Recogniser) : Scanner := fun src c =>
  (token lead r src c).map fun (start, c) => (start, { c with brackets := c.brackets + 1 })

/-- Takes a token that closes a bracket. -/
def closing (lead : Lead) (r : Recogniser) : Scanner := fun src c =>
  (token lead r src c).map fun (start, c) => (start, { c with brackets := c.brackets - 1 })

/-- The comments between two places that hold only blanks otherwise. `commentAt` gives the kind of
a comment that starts at a place, and the place behind it. -/
def gapComments (commentAt : Source → Nat → Option (String × Nat)) (src : Source)
    (start stop : Nat) : List Node :=
  if _h : start < stop then
    match commentAt src start with
    | some (kind, next) =>
      if _h' : start < next then
        .mk kind true none start next [] :: gapComments commentAt src next stop
      else gapComments commentAt src (start + 1) stop
    | none => gapComments commentAt src (start + 1) stop
  else []
termination_by stop - start

/-- The token starts right where the last one ended. -/
def adjacent : Lead := fun _ c => some c.pos

/-- The place behind decimal digits and low lines, of which the first is a digit. -/
def digitsEnd (isDigit : Char → Bool) : Recogniser := fun src i =>
  if charIs isDigit src i then some (spanEnd (fun c => isDigit c || c == '_') src i) else none

/-- Whether a character is a digit of base sixteen. -/
def isHexDigit (c : Char) : Bool :=
  c.isDigit || ('a' ≤ c && c ≤ 'f') || ('A' ≤ c && c ≤ 'F')

/-- The place behind an exponent, or `i` if there is none. -/
def exponentEnd (src : Source) (i : Nat) : Nat :=
  if charIs (fun c => c == 'e' || c == 'E') src i then
    let j := if charIs (fun c => c == '+' || c == '-') src (i + 1) then i + 2 else i + 1
    (digitsEnd Char.isDigit src j).getD i
  else i

end CodeClones.Syntax
