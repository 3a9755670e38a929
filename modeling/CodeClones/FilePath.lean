import CodeClones.Text.Basic

/-!
# File paths

A path is text with components between slashes. Repeated slashes and components `.` behind the first
carry no meaning; components `..` are kept. Paths are ordered component by component.
-/

namespace CodeClones

namespace FilePath

/-- One step of a path. -/
inductive Component where
  | root
  | current
  | parent
  | name (s : String)
  deriving DecidableEq, Repr

/-- The rank of the component's form: the root first, names last. -/
def Component.rank : Component → Nat
  | .root => 0
  | .current => 1
  | .parent => 2
  | .name _ => 3

/-- The order of components: by form, and names by their characters. -/
def Component.lt : Component → Component → Bool
  | .name a, .name b => a < b
  | a, b => a.rank < b.rank

/-- Whether a path starts at the root. -/
def isAbsolute (path : String) : Bool := path.toList.head? == some '/'

/-- The pieces of a path between slashes. -/
def pieces (path : String) : List (List Char) := Text.splitOnChar (· == '/') path.toList

/-- Whether a piece is not empty and not the present directory. -/
def carries (piece : List Char) : Bool := piece != [] && piece != ['.']

/-- The component of a piece that carries meaning. -/
def componentOf (piece : List Char) : Component :=
  if piece = ['.', '.'] then .parent else .name (String.ofList piece)

/-- The components of a path. -/
def components (path : String) : List Component :=
  let front : List Component :=
    if isAbsolute path then [.root]
    else if (pieces path).head? = some ['.'] then [.current]
    else []
  front ++ ((pieces path).filter carries).map componentOf

/-- The order of paths: the first differing component decides, and a path precedes its
continuations. -/
def componentsLt : List Component → List Component → Bool
  | _, [] => false
  | [], _ :: _ => true
  | a :: as, b :: bs => a.lt b || (a == b && componentsLt as bs)

/-- Whether a path comes before another. -/
def lt (a b : String) : Bool := componentsLt (components a) (components b)

/-- The last component, if it is a name. -/
def fileName? (path : String) : Option String :=
  match (components path).getLast? with
  | some (.name s) => some s
  | _ => none

/-- The part of a file name behind its last dot, if that dot is not the first character. -/
def extension? (path : String) : Option String := do
  let name ← fileName? path
  let (stem, ext) ← Text.splitAtLast? ['.'] name.toList
  if stem.isEmpty then none else some (String.ofList ext)

/-- The path `below` as seen from the directory `base`. -/
def join (base below : String) : String :=
  if isAbsolute below then below
  else if base.isEmpty || base.toList.getLast? == some '/' then base ++ below
  else base ++ "/" ++ below

/-- The path above the last component, if there is one besides the root. -/
def parent? (path : String) : Option String :=
  match (components path).getLast? with
  | none | some .root => none
  | some _ =>
    let trim := List.dropWhile (!carries ·)
    let above := trim ((trim (pieces path).reverse).drop 1)
    if above.isEmpty then some (if isAbsolute path then "/" else "")
    else some (String.ofList (Text.joinWith ['/'] above.reverse))

/-- Drops leading pieces until `n` of them that carry meaning are gone, and pieces without meaning
up to the next that has. -/
def dropPieces : Nat → List (List Char) → List (List Char)
  | 0, ps => ps.dropWhile (!carries ·)
  | _, [] => []
  | n + 1, p :: ps => if carries p then dropPieces n ps else dropPieces (n + 1) ps

/-- The text of the path below `base`, if `base` leads to it component by component. -/
def below? (base path : String) : Option String :=
  let baseParts := components base
  let parts := components path
  if baseParts.isPrefixOf parts && isAbsolute base == isAbsolute path then
    let names := baseParts.filter fun c => c != .root && c != .current
    let rest := dropPieces names.length (pieces path)
    let rest := (rest.reverse.dropWhile (!carries ·)).reverse
    some (String.ofList (Text.joinWith ['/'] rest))
  else none

/-- The text of components. -/
def textOf : List Component → String
  | .root :: rest => "/" ++ "/".intercalate (rest.map pieceOf)
  | parts => "/".intercalate (parts.map pieceOf)
where
  /-- The piece of a component. -/
  pieceOf : Component → String
    | .root => "/"
    | .current => "."
    | .parent => ".."
    | .name s => s

/-- The path without repeated slashes and pieces that carry no meaning. -/
def tidy (path : String) : String := textOf (components path)

end FilePath

/-- Path text with slashes only and without one leading `./`. -/
def normalizePath (path : String) : String :=
  match path.toList.map fun c => if c = '\\' then '/' else c with
  | '.' :: '/' :: rest => String.ofList rest
  | slashed => String.ofList slashed

/-- The normalized path as seen from the directory `root`, if it lies there. -/
def relativePath (root path : String) : String :=
  normalizePath ((FilePath.below? root path).getD path)

end CodeClones
