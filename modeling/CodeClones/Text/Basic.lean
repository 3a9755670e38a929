/-!
# Blanks, cuts and lines

Text is handled as lists of characters. Blank characters are those with the Unicode white space
property. A line ends before a line feed, and a carriage return directly before that line feed
belongs to the line end.
-/

namespace CodeClones.Text

/-- The characters with the Unicode white space property. -/
def isBlank (c : Char) : Bool :=
  let n := c.toNat
  (9 ≤ n && n ≤ 13) || n == 0x20 || n == 0x85 || n == 0xA0 || n == 0x1680 ||
    (0x2000 ≤ n && n ≤ 0x200A) || n == 0x2028 || n == 0x2029 || n == 0x202F || n == 0x205F ||
    n == 0x3000

/-- Drops the leading characters that satisfy `p`. -/
def trimStartWith (p : Char → Bool) (s : List Char) : List Char := s.dropWhile p

/-- Drops the trailing characters that satisfy `p`. -/
def trimEndWith (p : Char → Bool) (s : List Char) : List Char := (s.reverse.dropWhile p).reverse

/-- Drops blanks at both ends. -/
def trim (s : List Char) : List Char := trimEndWith isBlank (trimStartWith isBlank s)

/-- Whether only blanks occur. -/
def isBlankText (s : List Char) : Bool := s.all isBlank

/-- The pieces between the characters that satisfy `p`, in order; one more than such characters. -/
def splitOnChar (p : Char → Bool) : List Char → List (List Char)
  | [] => [[]]
  | c :: rest =>
    if p c then [] :: splitOnChar p rest
    else
      match splitOnChar p rest with
      | [] => [[c]]
      | piece :: pieces => (c :: piece) :: pieces

/-- The maximal runs of characters that do not satisfy `p`. -/
def fields (p : Char → Bool) (s : List Char) : List (List Char) :=
  (splitOnChar p s).filter (!·.isEmpty)

/-- Removes a carriage return at the end. -/
def dropReturn (s : List Char) : List Char :=
  match s.reverse with
  | '\r' :: rest => rest.reverse
  | _ => s

/-- The lines among pieces cut at line feeds: the last piece is a line only if it is not empty. -/
def linesOfPieces : List (List Char) → List (List Char)
  | [] => []
  | [last] => if last.isEmpty then [] else [last]
  | piece :: pieces => dropReturn piece :: linesOfPieces pieces

/-- The lines of a text without their line ends. -/
def lines (s : List Char) : List (List Char) := linesOfPieces (splitOnChar (· == '\n') s)

/-- Whether `s` starts with `start`; gives what follows it. -/
def dropStart? (start : List Char) (s : List Char) : Option (List Char) :=
  if start.isPrefixOf s then some (s.drop start.length) else none

/-- The text before the last place where `mark` occurs, and the text after it. -/
def splitAtLast? (mark : List Char) : List Char → Option (List Char × List Char)
  | [] => if mark.isEmpty then some ([], []) else none
  | c :: rest =>
    match splitAtLast? mark rest with
    | some (before, after) => some (c :: before, after)
    | none => (dropStart? mark (c :: rest)).map fun after => ([], after)

/-- Lower case of the Latin letters A to Z; other characters stay. -/
def lowerLatin (s : String) : String := s.map Char.toLower

/-- Pieces joined with `sep` between neighbours. -/
def joinWith (sep : List Char) : List (List Char) → List Char
  | [] => []
  | [piece] => piece
  | piece :: pieces => piece ++ sep ++ joinWith sep pieces

end CodeClones.Text

namespace String

/-- The text without blanks at both ends. -/
def trimBlanks (s : String) : String := ofList (CodeClones.Text.trim s.toList)

/-- The lines of the text without their line ends. -/
def sourceLines (s : String) : List String := (CodeClones.Text.lines s.toList).map ofList

end String
