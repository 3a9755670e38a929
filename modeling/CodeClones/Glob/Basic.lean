import CodeClones.Text.Pattern

/-!
# Glob patterns

A glob describes paths. `?` stands for one byte and `*` for any number of bytes, slashes included.
`**` between slashes stands for any number of directories. Square brackets list bytes, and curly
brackets list alternatives. Paths are compared byte by byte.
-/

namespace CodeClones

/-- A part of a glob. -/
inductive GlobPart where
  | literal (c : Char)
  /-- One byte. -/
  | anyByte
  /-- Any number of bytes. -/
  | anyBytes
  /-- Any directories at the start. -/
  | leading
  /-- Anything in a directory. -/
  | inside
  /-- Any directories between two slashes. -/
  | between
  /-- One byte in one of the ranges, or in none of them if `negated`. -/
  | range (negated : Bool) (ranges : List (Char × Char))
  /-- One of some globs. -/
  | alternatives (globs : List (List GlobPart))
  deriving Inhabited

/-- A glob. -/
abbrev Glob := List GlobPart

namespace GlobPart

open Pattern

/-- The byte of a slash. -/
def slash : UInt8 := 47

/-- The bytes of a character. -/
def bytesOf (c : Char) : List UInt8 := (String.singleton c).toUTF8.toList

/-- Pieces without a slash at their front, that are empty, a slash, or end in a slash. -/
def directories : Pattern UInt8 :=
  or (maybe (items [slash])) (row [many any, items [slash]])

/-- Whether a byte lies in a range of characters: it is one of the bytes of the ends, or lies between
the last byte of the first end and the first byte of the last end. -/
def inRange (range : Char × Char) (b : UInt8) : Bool :=
  let low := bytesOf range.1
  let high := bytesOf range.2
  if range.1 = range.2 then low.contains b
  else
    low.dropLast.contains b || high.tail.contains b ||
      (low.getLast?.any (· ≤ b) && high.head?.any (b ≤ ·))

/-- One pattern after another, either of which may be absent. -/
def join : Option (Pattern UInt8) → Option (Pattern UInt8) → Option (Pattern UInt8)
  | some a, some b => some (seq a b)
  | some a, none => some a
  | none, b => b

mutual

/-- The paths that a part describes; a part without alternatives has no pattern. -/
def pattern? : GlobPart → Option (Pattern UInt8)
  | literal c => some (items (bytesOf c))
  | anyByte => some any
  | anyBytes => some (many any)
  | leading => some directories
  | inside => some (row [items [slash], many any])
  | between => some (row [items [slash], or empty (row [many any, items [slash]])])
  | range negated ranges => some (one fun b => ranges.any (inRange · b) != negated)
  | alternatives globs =>
    match patterns globs with
    | [] => none
    | p :: ps => some (firstOf (p :: ps))

/-- The paths that a row of parts describes. -/
def rowPattern? : List GlobPart → Option (Pattern UInt8)
  | [] => none
  | part :: rest => join part.pattern? (rowPattern? rest)

/-- The patterns of some globs, as far as they have one. -/
def patterns : List (List GlobPart) → List (Pattern UInt8)
  | [] => []
  | glob :: globs => (rowPattern? glob).toList ++ patterns globs

end

/-- Whether a part is a literal character. -/
def isLiteral : GlobPart → Bool
  | literal _ => true
  | _ => false

/-- Whether a part is the given character. -/
def isChar (c : Char) : GlobPart → Bool
  | literal d => c == d
  | _ => false

end GlobPart

namespace Glob

/-- The paths that a glob describes; any directories alone mean all that is in them. -/
def pattern : Glob → Pattern UInt8
  | [.leading] => .many .any
  | parts => (GlobPart.rowPattern? parts).getD .empty

/-- Whether a glob that ends in a dot can only be told by the name of a file: it gives a name in any
directories, or an extension behind other parts than characters. -/
def asksForName (glob : Glob) : Bool :=
  let tail := match glob with
    | .leading :: rest => rest
    | _ => glob
  let ending := match tail with
    | .anyBytes :: rest => rest
    | _ => tail
  if !ending.all GlobPart.isLiteral then true
  else if ending.length < tail.length then ending.length == 1
  else tail.length < glob.length && !ending.any (GlobPart.isChar '/')

/-- Whether a glob ends in a dot. -/
def endsInDot (glob : Glob) : Bool := glob.getLast?.any (GlobPart.isChar '.')

/-- Whether the last piece of a path leads to the directory above. -/
def leadsUp (path : String) : Bool :=
  (path.toList.reverse.takeWhile (· != '/')) == ['.', '.']

/-- Whether a path fits a glob. A path that leads up has no file name, so it fits no glob that ends in
a dot and asks for a name. -/
def fits (glob : Glob) (path : String) : Bool :=
  !(glob.asksForName && glob.endsInDot && leadsUp path) && glob.pattern.fits path.toUTF8.toList

end Glob

end CodeClones
