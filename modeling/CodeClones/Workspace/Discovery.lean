import CodeClones.Language
import CodeClones.Symbol.Filter
import CodeClones.Workspace.FileState
import CodeClones.Workspace.Tree

/-!
# Files to search

A search covers the files below a directory, in the order of their paths. Directories that hold no
sources of their own are passed over, links are not followed, and excluded files are left out. Include
patterns name the files; without them every file of a known language is taken.
-/

namespace CodeClones

/-- Names of directories that are passed over. -/
def passedOver : List String := [".git", ".simdup", "target", "node_modules"]

namespace Entry

mutual

/-- The files at and below an entry under a path. -/
def filesBelow (path : String) : Entry → List String
  | file _ => [path]
  | link _ => []
  | directory entries => filesIn path entries

/-- The files below the entries of a directory under a path. -/
def filesIn (path : String) : List (String × Entry) → List String
  | [] => []
  | (name, e) :: rest =>
    (if e.isDirectory && passedOver.contains name then []
      else filesBelow (FilePath.join path name) e) ++ filesIn path rest

end

end Entry

namespace Tree

/-- The entry that the last piece of a path names, a link not followed unless a slash or `.` comes
after it. -/
def namedEntry? (t : Tree) (path : String) : Option Entry :=
  match ((FilePath.pieces path).filter FilePath.carries).reverse with
  | piece :: above =>
    if piece = ['.', '.'] ∨ (FilePath.pieces path).getLast? ≠ some piece then
      (t.entry path).toOption
    else
      let parent := "/" ++ String.ofList (Text.joinWith ['/'] above.reverse)
      (t.entry parent).toOption.bind (·.child? (String.ofList piece))
  | [] => some t

/-- All files at and below a path. A link at its end is followed to a directory. -/
def filesBelow (t : Tree) (path : String) : List String :=
  match t.namedEntry? path with
  | some (.directory entries) =>
    if passedOver.contains ((FilePath.fileName? path).getD "") then []
    else Entry.filesIn path entries
  | some (.file _) => [path]
  | some (.link _) =>
    match t.entry path with
    | .ok (.directory entries) => Entry.filesIn path entries
    | _ => []
  | none => []

end Tree

/-- The globs that an include pattern stands for. -/
def includeGlobs (pattern : String) : List String :=
  if pattern.toList.contains '/' then [pattern] else [pattern, "**/" ++ pattern]

/-- Whether a file is included: by a glob, or without globs by its language. -/
def isIncluded (root : String) (globs : Option (List Glob)) (path : String) : Bool :=
  match globs with
  | some globs => Glob.fitsAny globs (relativePath root path)
  | none => (Language.ofPath? path).isSome

/-- The files below the directory `top` of the workspace `root` that a search covers. -/
def discover (t : Tree) (root top : String) (patterns : List String) (filter : SymbolFilter) :
    Except RefusedGlob (List String) := do
  let globs ← if patterns.isEmpty then pure none
    else (Glob.parseAll (patterns.flatMap includeGlobs)).map some
  let files := (t.filesBelow top).filter fun path =>
    isIncluded root globs path && !filter.excludes (relativePath root path)
  pure (files.mergeSort fun a b => !FilePath.lt b a)

/-- The digests of the files that can be read, by their paths in the workspace, where the file at
position `i` is read in the tree `trees i`. -/
def digests (trees : Nat → Tree) (root : String) (files : List String) : SortedMap String :=
  files.zipIdx.foldl (fun m (path, i) =>
    match (trees i).digest? path with
    | some digest => m.insert (relativePath root path) digest
    | none => m) {}

end CodeClones
