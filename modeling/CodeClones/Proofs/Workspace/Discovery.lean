import CodeClones.Proofs.FilePath
import CodeClones.Workspace.Discovery

/-!
# What a search for files finds

The files below a directory are told by the names that lead to them from the directory. Their paths
join these names to the path of the directory, one after the other.
-/

namespace CodeClones

namespace Entry

mutual

/-- The names that lead from an entry to the files at and below it. -/
def namesBelow : Entry → List (List String)
  | file _ => [[]]
  | link _ => []
  | directory entries => namesIn entries

/-- The names that lead to the files below the entries of a directory. -/
def namesIn : List (String × Entry) → List (List String)
  | [] => []
  | (name, e) :: rest =>
    (if e.isDirectory && passedOver.contains name then []
      else (namesBelow e).map (name :: ·)) ++ namesIn rest

end

mutual

theorem filesBelow_eq (path : String) :
    ∀ e : Entry, e.filesBelow path = e.namesBelow.map (·.foldl FilePath.join path)
  | file _ => rfl
  | link _ => rfl
  | directory entries => filesIn_eq path entries

/-- The paths of files join the names that lead to them. -/
theorem filesIn_eq (path : String) :
    ∀ entries, filesIn path entries = (namesIn entries).map (·.foldl FilePath.join path)
  | [] => rfl
  | (name, e) :: rest => by
    rw [filesIn, namesIn, List.map_append, ← filesIn_eq path rest]
    split
    · rfl
    · rw [filesBelow_eq (FilePath.join path name) e, List.map_map]
      rfl

end

end Entry

/-- A path joined from an absolute one is absolute. -/
theorem FilePath.isAbsolute_foldl_join {path : String} (h : isAbsolute path)
    (names : List String) : isAbsolute (names.foldl join path) := by
  induction names generalizing path with
  | nil => exact h
  | cons name names ih => exact ih (isAbsolute_join h name)

namespace Tree

/-- The files below an absolute path have absolute paths. -/
theorem isAbsolute_of_mem_filesBelow {t : Tree} {top path : String}
    (h : FilePath.isAbsolute top) (hp : path ∈ t.filesBelow top) : FilePath.isAbsolute path := by
  have hin : ∀ {entries}, path ∈ Entry.filesIn top entries → FilePath.isAbsolute path := by
    intro entries hp
    rw [Entry.filesIn_eq] at hp
    obtain ⟨names, _, rfl⟩ := List.mem_map.mp hp
    exact FilePath.isAbsolute_foldl_join h names
  unfold filesBelow at hp
  split at hp
  · split at hp
    · cases hp
    · exact hin hp
  · exact List.mem_singleton.mp hp ▸ h
  · split at hp
    · exact hin hp
    · cases hp
  · cases hp

end Tree

/-- A search covers the files below its top that are included and not excluded. -/
theorem discover_ok {t : Tree} {root top : String} {patterns : List String}
    {filter : SymbolFilter} {files : List String}
    (h : discover t root top patterns filter = .ok files) :
    ∃ globs, files = ((t.filesBelow top).filter fun path =>
      isIncluded root globs path && !filter.excludes (relativePath root path)).mergeSort
        fun a b => !FilePath.lt b a := by
  unfold discover at h
  cases he : patterns.isEmpty with
  | true =>
    rw [he] at h
    cases h
    exact ⟨none, rfl⟩
  | false =>
    cases hg : Glob.parseAll (patterns.flatMap includeGlobs) with
    | error refused =>
      rw [he, hg] at h
      cases h
    | ok globs =>
      rw [he, hg] at h
      cases h
      exact ⟨some globs, rfl⟩

theorem mem_of_mem_discover {t : Tree} {root top : String} {patterns : List String}
    {filter : SymbolFilter} {files : List String}
    (h : discover t root top patterns filter = .ok files) {path : String} (hp : path ∈ files) :
    path ∈ t.filesBelow top := by
  obtain ⟨globs, rfl⟩ := discover_ok h
  exact List.mem_of_mem_filter (List.mem_mergeSort.mp hp)

theorem isAbsolute_of_mem_discover {t : Tree} {root top : String} {patterns : List String}
    {filter : SymbolFilter} {files : List String}
    (h : discover t root top patterns filter = .ok files) (htop : FilePath.isAbsolute top)
    {path : String} (hp : path ∈ files) : FilePath.isAbsolute path :=
  Tree.isAbsolute_of_mem_filesBelow htop (mem_of_mem_discover h hp)

/-- A tree with the file `a.py` in the workspace `/ws`. -/
def Tree.oneFile (bytes : ByteArray) : Tree :=
  .directory [("ws", .directory [("a.py", .file bytes)])]

theorem Tree.read_oneFile (bytes : ByteArray) : (oneFile bytes).read "/ws/a.py" = .ok bytes := by
  rfl

end CodeClones
