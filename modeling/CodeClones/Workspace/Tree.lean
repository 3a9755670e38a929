import CodeClones.Digest.Blake3
import CodeClones.FilePath

/-!
# File trees

A file tree holds files, links and directories under names. Paths are followed piece by piece from
the root; a link leads on to its target, and at most forty links are followed. Every access is a
function of the tree that it sees, and every change gives a new tree.
-/

namespace CodeClones

/-- Why a file cannot be used. -/
inductive FileError where
  | notFound
  | exists
  | notDirectory
  | isDirectory
  | tooManyLinks
  /-- The bytes are not text. -/
  | notText
  deriving DecidableEq, Repr

/-- The text of an error. -/
def FileError.message : FileError → String
  | .notFound => "No such file or directory (os error 2)"
  | .exists => "File exists (os error 17)"
  | .notDirectory => "Not a directory (os error 20)"
  | .isDirectory => "Is a directory (os error 21)"
  | .tooManyLinks => "Too many levels of symbolic links (os error 40)"
  | .notText => "stream did not contain valid UTF-8"

/-- What stands under a name. -/
inductive Entry where
  | file (bytes : ByteArray)
  | link (target : String)
  | directory (entries : List (String × Entry))
  deriving Inhabited

namespace Entry

/-- Whether an entry is a directory. -/
def isDirectory : Entry → Bool
  | directory _ => true
  | _ => false

/-- Whether an entry is a file. -/
def isFile : Entry → Bool
  | file _ => true
  | _ => false

/-- The entries of a directory. -/
def entries : Entry → List (String × Entry)
  | directory es => es
  | _ => []

/-- The entry under a name of a directory. -/
def child? (e : Entry) (name : String) : Option Entry := e.entries.lookup name

/-- The entry at the end of a path of names, links not followed. -/
def at? : List String → Entry → Option Entry
  | [], e => some e
  | name :: path, e => (e.child? name).bind (at? path)

/-- Puts an entry under a name of a directory, or removes what is there. -/
def setChild (name : String) (value : Option Entry) : List (String × Entry) → List (String × Entry)
  | [] => (value.map fun v => (name, v)).toList
  | (n, e) :: rest =>
    if n = name then (value.map fun v => (name, v)).toList ++ rest
    else (n, e) :: setChild name value rest

/-- Changes the entry at the end of a path of names; without its directory nothing changes. -/
def change (value : Option Entry) : List String → Entry → Entry
  | [name], directory es => directory (setChild name value es)
  | name :: next :: path, directory es =>
    match es.lookup name with
    | some e => directory (setChild name (some (change value (next :: path) e)) es)
    | none => directory es
  | _, e => e

end Entry

/-- A file tree, from the root directory on. -/
abbrev Tree := Entry

namespace Tree

/-- Walks along the pieces of a path from a directory, given by its names from the root. At a link the
walk goes on with `jump`, from a directory along the pieces that are left. -/
def walk (t : Tree) (jump : List String → List String → Except FileError (List String))
    (place : List String) : List String → Except FileError (List String)
  | [] => .ok place
  | piece :: rest =>
    match t.at? place with
    | none => .error .notFound
    | some (.file _) | some (.link _) => .error .notDirectory
    | some (.directory entries) =>
      if piece = "" ∨ piece = "." then walk t jump place rest
      else if piece = ".." then walk t jump place.dropLast rest
      else
        match entries.lookup piece with
        | none => .error .notFound
        | some (.link target) =>
          let start := if FilePath.isAbsolute target then [] else place
          jump start ((FilePath.pieces target).map String.ofList ++ rest)
        | some _ => walk t jump (place ++ [piece]) rest

/-- Follows the pieces of a path from a directory over a number of links at most. -/
def follow (t : Tree) : Nat → List String → List String → Except FileError (List String)
  | 0 => walk t fun _ _ => .error .tooManyLinks
  | links + 1 => walk t (follow t links)

/-- The names that lead to what a path stands for. -/
def resolve (t : Tree) (path : String) : Except FileError (List String) :=
  follow t 40 [] ((FilePath.pieces path).map String.ofList)

/-- What a path stands for. -/
def entry (t : Tree) (path : String) : Except FileError Entry :=
  match t.resolve path with
  | .ok place =>
    match t.at? place with
    | some e => .ok e
    | none => .error .notFound
  | .error e => .error e

/-- Whether a path leads to anything. -/
def holds (t : Tree) (path : String) : Bool := (t.entry path).isOk

/-- Whether a path leads to a file. -/
def holdsFile (t : Tree) (path : String) : Bool :=
  match t.entry path with
  | .ok e => e.isFile
  | .error _ => false

/-- Whether a path leads to a directory. -/
def holdsDirectory (t : Tree) (path : String) : Bool :=
  match t.entry path with
  | .ok e => e.isDirectory
  | .error _ => false

/-- The bytes of a file. -/
def read (t : Tree) (path : String) : Except FileError ByteArray :=
  match t.entry path with
  | .ok (.file bytes) => .ok bytes
  | .ok _ => .error .isDirectory
  | .error e => .error e

/-- The text of a file. -/
def readText (t : Tree) (path : String) : Except FileError String :=
  match t.read path with
  | .ok bytes =>
    match String.fromUTF8? bytes with
    | some text => .ok text
    | none => .error .notText
  | .error e => .error e

/-- The digest of the bytes of a file that can be read. -/
def digest? (t : Tree) (path : String) : Option String :=
  (t.read path).toOption.map Digest.Blake3.hexOf

/-- The path without links, `.` and `..`. -/
def canonical (t : Tree) (path : String) : Except FileError String :=
  (t.resolve path).map fun place => "/" ++ "/".intercalate place

/-- Makes a directory with the given pieces of path, the last one first, and all above it. -/
def makeDirectories (t : Tree) : List String → Except FileError Tree
  | [] => .ok t
  | piece :: above =>
    match follow t 40 [] (piece :: above).reverse with
    | .ok place =>
      if (t.at? place).any Entry.isDirectory then .ok t else .error .exists
    | .error .notFound => do
      let t ← makeDirectories t above
      match follow t 40 [] (piece :: above).reverse with
      | .ok _ => .ok t
      | .error _ =>
        let place ← follow t 40 [] above.reverse
        .ok (t.change (some (.directory [])) (place ++ [piece]))
    | .error e => .error e

/-- Makes a directory and all above it that are missing. -/
def makeDirectory (t : Tree) (path : String) : Except FileError Tree :=
  t.makeDirectories ((FilePath.pieces path).map String.ofList).reverse

/-- Writes a file into a directory that exists. A path with a slash at its end names no file. -/
def write (t : Tree) (path : String) (bytes : ByteArray) : Except FileError Tree :=
  let pieces := ((FilePath.pieces path).map String.ofList).reverse
  match pieces.dropWhile (· == "") with
  | piece :: above => do
    let place ← follow t 40 [] above.reverse
    if pieces.head? = some "" then .error .isDirectory
    else
      match follow t 40 place [piece] with
      | .ok found =>
        if (t.at? found).any Entry.isDirectory then .error .isDirectory
        else .ok (t.change (some (.file bytes)) found)
      | .error .notFound => .ok (t.change (some (.file bytes)) (place ++ [piece]))
      | .error e => .error e
  | [] => .error .isDirectory

/-- Puts an entry at a path, making the directories above it. -/
def put (t : Tree) (path : String) (e : Entry) : Except FileError Tree :=
  match ((FilePath.pieces path).map String.ofList).reverse with
  | piece :: above => do
    let t ← t.makeDirectories above
    let place ← follow t 40 [] above.reverse
    .ok (t.change (some e) (place ++ [piece]))
  | [] => .error .notFound

/-- Removes what stands under the last piece of a path, with all below it. -/
def remove (t : Tree) (path : String) : Tree :=
  match ((FilePath.pieces path).map String.ofList).reverse with
  | piece :: above =>
    match follow t 40 [] above.reverse with
    | .ok place => t.change none (place ++ [piece])
    | .error _ => t
  | [] => t

end Tree

end CodeClones
