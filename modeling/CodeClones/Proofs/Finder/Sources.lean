import CodeClones.Proofs.Finder.History
import CodeClones.Proofs.Store.Reading
import CodeClones.Proofs.Symbol
import CodeClones.Proofs.Workspace.Discovery
import Mathlib.Data.Set.Basic

/-!
# What a run finds

While no file changes, a run finds in every file what its path in the workspace and its bytes tell,
and records the digest of the same bytes.
-/

namespace CodeClones

/-- Surroundings in which no file changes during the run. -/
def RunConditions.Still (c : RunConditions) : Prop := c.views = .still c.views.scan

namespace Finder

/-- A finder of a workspace whose path starts at the root, from where its extractor reads, too. -/
structure Rooted (f : Finder) : Prop where
  absolute : FilePath.isAbsolute f.root
  sources : f.extractor.root = f.root

theorem Rooted.of_setup {f g : Finder} (hf : f.Rooted) (h : g.setup = f.setup) : g.Rooted := by
  have hroot : g.root = f.root := congrArg Setup.root h
  have hsources : g.extractor.root = f.extractor.root := congrArg Setup.sources h
  refine ⟨?_, ?_⟩
  · rw [hroot]
    exact hf.absolute
  · rw [hsources, hroot]
    exact hf.sources

/-- A finder that is opened for such a workspace reads from there. -/
theorem rooted_of_assemble {root : String} {d d' : Disk} {config : Config}
    {readers : Readers} {engine : Engine} {store : VectorStore} {f : Finder}
    (hroot : FilePath.isAbsolute root)
    (h : assemble root d config readers engine store = .ok (d', f)) : f.Rooted := by
  simp only [assemble, bind, Except.bind] at h
  split at h
  · cases h
  split at h
  · split at h
    · cases h
    · cases h
      exact ⟨hroot, rfl⟩
  · cases h

/-- A call indexes files under absolute paths. -/
theorem isAbsolute_of_mem_targets {f : Finder} {call : Call} {plan : Plan}
    (hf : FilePath.isAbsolute f.root) (h : call.plan? f = some plan) {path : String}
    (hp : path ∈ plan.targets) : FilePath.isAbsolute path := by
  have hfull : ∀ c top patterns, Call.fullPlan? f c top patterns = some plan →
      FilePath.isAbsolute path := by
    intro c top patterns h
    obtain ⟨files, hfiles, rfl⟩ := Option.map_eq_some_iff.mp h
    exact isAbsolute_of_mem_discover (eq_ok_of_toOption hfiles)
      (FilePath.isAbsolute_tidy (FilePath.isAbsolute_join hf top)) hp
  have hjoined : ∀ paths : List String, path ∈ paths.map (FilePath.join f.root) →
      FilePath.isAbsolute path := by
    intro paths hp
    obtain ⟨below, _, rfl⟩ := List.mem_map.mp hp
    exact FilePath.isAbsolute_join hf below
  cases call with
  | full c o top patterns => exact hfull c top patterns h
  | changes c o files =>
    cases files with
    | some files =>
      cases h
      exact hjoined files (List.mem_of_mem_filter hp)
    | none =>
      rw [Call.plan?] at h
      split at h
      · obtain ⟨files, _, rfl⟩ := Option.map_eq_some_iff.mp h
        exact hjoined _ hp
      · exact hfull c f.root [] h
  | clear c => cases h

/-- The bytes of a file and the symbols that are found in them. -/
def foundAt? (f : Finder) (t : Tree) (path : String) : Option (ByteArray × List Symbol) :=
  (t.read path).toOption.bind fun bytes =>
    (f.extractor.found? (relativePath f.root path) bytes).map (bytes, ·)

theorem foundAt?_of_setup {f g : Finder} (h : g.setup = f.setup) : g.foundAt? = f.foundAt? := by
  have hroot : g.root = f.root := congrArg Setup.root h
  have hreaders : g.extractor.toReaders = f.extractor.toReaders := congrArg Setup.readers h
  funext t path
  rw [foundAt?, foundAt?, hroot, Extractor.found?_congr hreaders]

theorem foundAt?_eq_some_iff {f : Finder} {t : Tree} {path : String} {bytes : ByteArray}
    {symbols : List Symbol} :
    f.foundAt? t path = some (bytes, symbols) ↔ t.read path = .ok bytes ∧
      f.extractor.found? (relativePath f.root path) bytes = some symbols := by
  rw [foundAt?]
  cases t.read path with
  | ok b =>
    simp only [Except.toOption, Option.bind_some, Option.map_eq_some_iff, Prod.mk.injEq,
      Except.ok.injEq]
    constructor
    · rintro ⟨_, h, rfl, rfl⟩
      exact ⟨rfl, h⟩
    · rintro ⟨rfl, h⟩
      exact ⟨symbols, h, rfl, rfl⟩
  | error cause => simp [Except.toOption]

/-- A file under an absolute path that can be read gives what is found in it. -/
theorem readFile_eq_foundAt? {f : Finder} (hf : f.Rooted) (t : Tree) {path : String}
    (hp : FilePath.isAbsolute path) :
    (f.extractor.readFile t path).toOption.map (·.1) = (f.foundAt? t path).map (·.2) := by
  have habsolute : f.extractor.absolute path = path := FilePath.join_of_isAbsolute _ hp
  rw [foundAt?, ← hf.sources]
  cases hr : t.read path with
  | ok bytes =>
    rw [Extractor.readFile_of_read habsolute hr, Except.toOption, Option.bind_some,
      Option.map_map]
    exact Option.map_id.symm ▸ rfl
  | error cause =>
    rw [Extractor.readFile_of_read_error habsolute hr]
    rfl

/-- A run reads the files in which something is found. -/
theorem readings_eq {f : Finder} {c : RunConditions} (hf : f.Rooted) (hc : c.Still)
    {files : List String} (hfiles : ∀ path ∈ files, FilePath.isAbsolute path) :
    f.extractor.readings c.views.reads files 0 = files.filterMap fun path =>
      (f.foundAt? c.views.scan path).map fun found => (path, found.2) := by
  have hreads : c.views.reads = fun _ => c.views.scan := congrArg Views.reads hc
  rw [hreads, Extractor.readings_still]
  refine List.filterMap_congr fun path hp => ?_
  have h := congrArg (Option.map (path, ·))
    (readFile_eq_foundAt? hf c.views.scan (hfiles path hp))
  rw [Option.map_map, Option.map_map] at h
  exact h

/-- A run finds the symbols of its files, one file after the other. -/
theorem symbolsIn_eq {f : Finder} {c : RunConditions} (hf : f.Rooted) (hc : c.Still)
    {files : List String} (hfiles : ∀ path ∈ files, FilePath.isAbsolute path) :
    f.symbolsIn c files = (files.filterMap (f.foundAt? c.views.scan)).flatMap (·.2) := by
  rw [symbolsIn, readings_eq hf hc hfiles]
  simp only [List.flatMap_def, List.map_filterMap, Option.map_map]
  rfl

/-- The record of a file in which some symbols are found. -/
def recordOf (root path : String) (found : ByteArray × List Symbol) : String × FileRecord :=
  (relativePath root path, ⟨Digest.Blake3.hexOf found.1, found.2.map (·.id)⟩)

@[simp]
theorem recordOf_fst (root path : String) (found : ByteArray × List Symbol) :
    (recordOf root path found).1 = relativePath root path := by
  rw [recordOf]

private theorem recordsOf_still {c : RunConditions} {t : Tree} (h : c.views.records = fun _ => t)
    (root : String) (files : List (String × List Symbol)) :
    recordsOf c root files = files.filterMap fun (path, symbols) =>
      (t.digest? path).map fun digest =>
        (relativePath root path, ⟨digest, symbols.map (·.id)⟩) := by
  conv_rhs => rw [← List.zipIdx_map_fst 0 files, List.filterMap_map]
  rw [recordsOf, h]
  rfl

/-- A run records every file that it reads. -/
theorem recordsIn_eq {f : Finder} {c : RunConditions} (hf : f.Rooted) (hc : c.Still)
    {files : List String} (hfiles : ∀ path ∈ files, FilePath.isAbsolute path) :
    f.recordsIn c files = files.filterMap fun path =>
      (f.foundAt? c.views.scan path).map (recordOf f.root path) := by
  have hrecords : c.views.records = fun _ => c.views.scan := congrArg Views.records hc
  rw [recordsIn, readings_eq hf hc hfiles, recordsOf_still hrecords, List.filterMap_filterMap]
  refine List.filterMap_congr fun path _ => ?_
  cases hp : f.foundAt? c.views.scan path with
  | none => rfl
  | some found =>
    have hread := (foundAt?_eq_some_iff.mp hp).1
    simp only [Option.map_some, Option.bind_some, Tree.digest?, hread]
    rfl

/-- A record that a run writes is that of a file in which it found symbols. -/
theorem mem_recordsIn_iff {f : Finder} {call : Call} {plan : Plan} (hf : f.Rooted)
    (hstill : call.conditions.Still) (hplan : call.plan? f = some plan)
    {e : String × FileRecord} :
    e ∈ f.recordsIn call.conditions plan.targets ↔ ∃ p ∈ plan.targets, ∃ found,
      f.foundAt? call.conditions.views.scan p = some found ∧ recordOf f.root p found = e := by
  rw [recordsIn_eq hf hstill fun path hp => isAbsolute_of_mem_targets hf.absolute hplan hp]
  simp only [List.mem_filterMap, Option.map_eq_some_iff]

/-- A plan passes over a path whose record is neither removed nor written anew, if all recorded
targets are read. -/
theorem not_mem_paths_of_kept {f : Finder} {call : Call} {plan : Plan} {path : String}
    {record : FileRecord} (hf : f.Rooted) (hstill : call.conditions.Still)
    (hplan : call.plan? f = some plan)
    (hread : ∀ p ∈ plan.targets, (f.fileState.get? (relativePath f.root p)).isSome →
      (f.foundAt? call.conditions.views.scan p).isSome)
    (hold : f.fileState.get? path = some record) (hdeleted : path ∉ plan.deleted)
    (hnone : ∀ e ∈ f.recordsIn call.conditions plan.targets, e.1 ≠ path) :
    path ∉ plan.paths f.root := by
  rw [Plan.paths, List.mem_append, not_or]
  refine ⟨fun hmem => ?_, hdeleted⟩
  obtain ⟨p, hp, rfl⟩ := List.mem_map.mp hmem
  obtain ⟨found, hfound⟩ := Option.isSome_iff_exists.mp (hread p hp (by rw [hold]; rfl))
  exact hnone _ ((mem_recordsIn_iff hf hstill hplan).mpr ⟨p, hp, found, hfound, rfl⟩) rfl

theorem mem_symbolsIn_iff {f : Finder} {call : Call} {plan : Plan} (hf : f.Rooted)
    (hstill : call.conditions.Still) (hplan : call.plan? f = some plan) {s : Symbol} :
    s ∈ f.symbolsIn call.conditions plan.targets ↔ ∃ p ∈ plan.targets, ∃ found,
      f.foundAt? call.conditions.views.scan p = some found ∧ s ∈ found.2 := by
  rw [symbolsIn_eq hf hstill fun path hp => isAbsolute_of_mem_targets hf.absolute hplan hp]
  simp only [List.mem_flatMap, List.mem_filterMap]
  constructor
  · rintro ⟨found, ⟨p, hp, hfound⟩, hs⟩
    exact ⟨p, hp, found, hfound, hs⟩
  · rintro ⟨p, hp, found, hfound, hs⟩
    exact ⟨found, ⟨p, hp, hfound⟩, hs⟩

end Finder

section Distinguished

variable {e : Extractor} {world : Set (String × ByteArray)}

/-- Files, by their paths in the workspace and their bytes, that digests tell apart: different
contents have different digests, and symbols of different files have different identifiers. -/
structure Distinguished (e : Extractor) (world : Set (String × ByteArray)) : Prop where
  contents : ∀ a ∈ world, ∀ b ∈ world,
    Digest.Blake3.hexOf a.2 = Digest.Blake3.hexOf b.2 → a.2 = b.2
  path_eq : ∀ {path path' : String} {bytes bytes' : ByteArray} {symbols symbols' : List Symbol}
    {s s' : Symbol}, (path, bytes) ∈ world → (path', bytes') ∈ world →
      e.found? path bytes = some symbols → e.found? path' bytes' = some symbols' →
        s ∈ symbols → s' ∈ symbols' → s.id = s'.id → path = path'

theorem Distinguished.congr {e' : Extractor} (h : Distinguished e world)
    (hreaders : e'.toReaders = e.toReaders) : Distinguished e' world := by
  refine ⟨h.contents, ?_⟩
  rw [Extractor.found?_congr hreaders]
  exact h.path_eq

/-- If the digests of different contents, and those of different texts that identifiers are made of,
differ, then files with plain paths are told apart: an identifier is made of the path, too. -/
theorem distinguished_of_plainPaths (hplain : ∀ a ∈ world, PlainPath a.1)
    (hcontents : ∀ a ∈ world, ∀ b ∈ world,
      Digest.Blake3.hexOf a.2 = Digest.Blake3.hexOf b.2 → a.2 = b.2)
    (hidentities : ∀ a ∈ world, ∀ b ∈ world, ∀ s ∈ (e.found? a.1 a.2).getD [],
      ∀ s' ∈ (e.found? b.1 b.2).getD [],
        Digest.Blake3.hexOfText s.ownText = Digest.Blake3.hexOfText s'.ownText →
          s.ownText = s'.ownText) : Distinguished e world := by
  have hlies : ∀ {path bytes symbols} {s : Symbol}, (path, bytes) ∈ world →
      e.found? path bytes = some symbols → s ∈ symbols → s.LiesIn path := by
    intro path bytes symbols s hp hf hs
    obtain ⟨source, _, hfound⟩ := Option.bind_eq_some_iff.mp hf
    obtain ⟨⟨_, strategy⟩, hok, rfl⟩ := Option.map_eq_some_iff.mp hfound
    exact Extractor.symbolsOf_liesIn (hplain _ hp).normal (eq_ok_of_toOption hok) hs
  refine ⟨hcontents, fun hp hp' hf hf' hs hs' hid => ?_⟩
  have hl := hlies hp hf hs
  have hl' := hlies hp' hf' hs'
  refine hl.path_eq hl' (hplain _ hp) (hplain _ hp') ?_
  refine hidentities _ hp _ hp' _ ?_ _ ?_ ?_
  · rw [hf]
    exact hs
  · rw [hf']
    exact hs'
  · rw [← hl.id, ← hl'.id, hid]

end Distinguished

namespace Call

open Finder

/-- A call during which files stay as they are, all of them among the given ones, with no more
accepted symbols than a run may have. -/
structure Within (world : Set (String × ByteArray)) (f : Finder) (call : Call) : Prop where
  still : call.conditions.Still
  inside : ∀ plan, call.plan? f = some plan → ∀ p ∈ plan.targets, ∀ bytes,
    call.conditions.views.scan.read p = .ok bytes → (relativePath f.root p, bytes) ∈ world
  room : ∀ plan, call.plan? f = some plan →
    (f.filter.apply (f.symbolsIn call.conditions plan.targets)).length ≤ f.config.finder.maxSymbols

/-- Such a call selects all accepted symbols of its targets. -/
theorem Within.mem_selected {world : Set (String × ByteArray)} {f : Finder} {call : Call}
    {plan : Plan} (hf : f.Rooted) (h : call.Within world f) (hplan : call.plan? f = some plan)
    {p : String} (hp : p ∈ plan.targets) {found : ByteArray × List Symbol}
    (hfound : f.foundAt? call.conditions.views.scan p = some found) {s : Symbol} (hs : s ∈ found.2)
    (haccept : f.filter.accepts s) :
    s ∈ f.selected (f.symbolsIn call.conditions plan.targets) := by
  rw [selected, List.take_of_length_le (h.room plan hplan)]
  exact List.mem_filter.mpr
    ⟨(mem_symbolsIn_iff hf h.still hplan).mpr ⟨p, hp, found, hfound, hs⟩, haccept⟩

end Call

namespace Finder

/-- A finder of the workspace `/ws` with an empty index. -/
def unindexed : Finder where
  root := "/ws"
  config := {}
  extractor := { root := "/ws", parsers := .standard }
  filter := ⟨[.function], 1, []⟩
  engine := ⟨.hashed 4, 1, true, []⟩
  store := .make (.memory "memory" {}) {}
  fileState := {}

/-- A text of the file `a.py`. -/
def oneLine : String := "def f(x): return x"

/-- Another text of this file. -/
def otherLine : String := "def f(y): return y"

/-- Surroundings in which the workspace holds this file only. -/
def oneFileConditions (text : String) : RunConditions where
  views := .still (.oneFile text.toUTF8)
  search := { usage := fun _ => 0, query := fun _ => {} }

/-- A full run over the file with a text. -/
def fullRun (text : String) : Call := .full (oneFileConditions text) {} "." []

/-- A run by digests over a text of the file `a.py`, in which the store refuses every query. -/
def refusedRefresh (text : String) : Call :=
  .changes { oneFileConditions text with
    search :=
      { usage := fun _ => 0
        query := fun _ =>
          { refusal := fun o => if o = .query then some (.runtime "down") else none } } }
    {} none

/-- The finder after a full run over one text and a failing run over another one. -/
def afterRefusal : Finder := (refusedRefresh otherLine).after ((fullRun oneLine).after unindexed)

/-- A finder of the workspace `/ws` whose index has one row, recorded for one file. -/
def oneRow : Finder := { unindexed with
  store := .make (.memory "memory" (SortedMap.insert {} "f" ([1, 0, 0, 0], []))) {}
  fileState := SortedMap.insert {} "a.py" ⟨"digest", ["f"]⟩ }

/-- A run over that file after it was removed. -/
def removal : Call :=
  .changes
    { views := .still (.directory [("ws", .directory [])])
      search := { usage := fun _ => 0, query := fun _ => {} } }
    {} (some ["a.py"])

/-- The file with each of the two texts. -/
def twoVersions : Set (String × ByteArray) :=
  {("a.py", oneLine.toUTF8), ("a.py", otherLine.toUTF8)}

theorem distinguished_twoVersions : Distinguished unindexed.extractor twoVersions := by
  have hplain : PlainPath "a.py" := ⟨by decide +kernel, by decide +kernel⟩
  have hdiffer : Digest.Blake3.hexOf oneLine.toUTF8 ≠ Digest.Blake3.hexOf otherLine.toUTF8 := by
    decide +kernel
  have hone : ∀ s ∈ (unindexed.extractor.found? "a.py" oneLine.toUTF8).getD [],
      s.ownText = "a.py\nf\n1\nfunction" := by
    decide +kernel
  have hother : ∀ s ∈ (unindexed.extractor.found? "a.py" otherLine.toUTF8).getD [],
      s.ownText = "a.py\nf\n1\nfunction" := by
    decide +kernel
  have hall : ∀ a ∈ twoVersions, ∀ s ∈ (unindexed.extractor.found? a.1 a.2).getD [],
      s.ownText = "a.py\nf\n1\nfunction" := by
    rintro _ (rfl | rfl)
    · exact hone
    · exact hother
  refine distinguished_of_plainPaths ?_ ?_ fun a ha b hb s hs s' hs' _ =>
    (hall a ha s hs).trans (hall b hb s' hs').symm
  · rintro _ (rfl | rfl)
    · exact hplain
    · exact hplain
  · rintro _ (rfl | rfl) _ (rfl | rfl) h
    · rfl
    · exact absurd h hdiffer
    · exact absurd h.symm hdiffer
    · rfl

/-- A call that indexes this file only stays within a world that knows the file. -/
theorem within_oneFile {world : Set (String × ByteArray)} {f : Finder} {call : Call} {text : String}
    (hroot : f.root = "/ws") (hviews : call.conditions.views = .still (.oneFile text.toUTF8))
    (hplan : call.plan? f = some ⟨["/ws/a.py"], []⟩) (hin : ("a.py", text.toUTF8) ∈ world)
    (hroom : (f.filter.apply (f.symbolsIn call.conditions ["/ws/a.py"])).length ≤
      f.config.finder.maxSymbols) : call.Within world f := by
  have hpath : relativePath "/ws" "/ws/a.py" = "a.py" := by decide +kernel
  refine ⟨by rw [RunConditions.Still, hviews]; rfl, ?_, ?_⟩
  · rintro plan h p hp bytes hbytes
    cases hplan.symm.trans h
    cases List.mem_singleton.mp hp
    rw [hviews] at hbytes
    cases (Tree.read_oneFile _).symm.trans hbytes
    rw [hroot, hpath]
    exact hin
  · rintro plan h
    cases hplan.symm.trans h
    exact hroom

end Finder

end CodeClones
