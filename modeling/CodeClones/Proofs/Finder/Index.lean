import CodeClones.Proofs.Finder.Sources

/-!
# The index of a workspace

Known files determine an index: what is found in one of them is recorded under its path and stored
under the identifiers of its symbols, and nothing else is. A full run leaves the index of the files
of its workspace, whatever was indexed before. A run that reads some files again leaves it if the
other ones are as they were.
-/

namespace CodeClones

namespace Finder

variable {vectorOf : String → Embedding} {world : Set (String × ByteArray)}

/-- Two finders with the same file states and the same rows. -/
structure Agrees (f g : Finder) : Prop where
  fileState : f.fileState = g.fileState
  rows : ∀ id, f.row? id = g.row? id

/-- The row of a symbol, where every text has a vector of its own. -/
def rowFor (f : Finder) (vectorOf : String → Embedding) (s : Symbol) : Row :=
  f.store.backend.rowOf ⟨s.id, f.engine.finish (vectorOf s.canonicalText), s.toMetadata⟩

/-- The row under an identifier that some symbols give: that of the last accepted one. -/
def rowAmong? (f : Finder) (vectorOf : String → Embedding) (symbols : List Symbol) (id : String) :
    Option Row :=
  ((f.filter.apply symbols).reverse.find? fun s => s.id == id).map (f.rowFor vectorOf)

theorem mem_of_rowAmong? {f : Finder} {symbols : List Symbol} {id : String} {row : Row}
    (h : f.rowAmong? vectorOf symbols id = some row) : ∃ s ∈ symbols, s.id = id := by
  obtain ⟨s, hs, _⟩ := Option.map_eq_some_iff.mp h
  have hmem := List.mem_reverse.mp (List.mem_of_find?_eq_some hs)
  exact ⟨s, List.mem_of_mem_filter hmem, by simpa using List.find?_some hs⟩

theorem rowAmong?_of_setup {f g : Finder} (h : g.setup = f.setup) :
    g.rowAmong? vectorOf = f.rowAmong? vectorOf := by
  have hfilter : g.filter = f.filter := congrArg Setup.filter h
  have hrow : g.rowFor vectorOf = f.rowFor vectorOf := by
    have hnormalize : g.engine.normalize = f.engine.normalize := congrArg Setup.normalize h
    have hrowOf : g.store.backend.rowOf = f.store.backend.rowOf := congrArg Setup.rowOf h
    funext s
    rw [rowFor, rowFor, Engine.finish, Engine.finish, hnormalize, hrowOf]
  funext symbols id
  rw [rowAmong?, rowAmong?, hfilter, hrow]

/-- The index is that of some known files: exactly what is found in one of them is recorded and
stored. -/
structure Indexes (f : Finder) (world : Set (String × ByteArray)) (vectorOf : String → Embedding)
    (t : Tree) (files : List String) : Prop where
  known : ∀ p ∈ files, ∀ found, f.foundAt? t p = some found →
    (relativePath f.root p, found.1) ∈ world
  records : ∀ path record, f.fileState.get? path = some record ↔
    ∃ p ∈ files, ∃ found, f.foundAt? t p = some found ∧ recordOf f.root p found = (path, record)
  rows : ∀ id row, f.row? id = some row ↔
    ∃ p ∈ files, ∃ found, f.foundAt? t p = some found ∧ f.rowAmong? vectorOf found.2 id = some row

/-- A finder of a rooted workspace whose model gives every text a vector of its own, and whose digests
tell the files of a world apart. -/
structure Regular (f : Finder) (world : Set (String × ByteArray)) (vectorOf : String → Embedding) :
    Prop where
  rooted : f.Rooted
  pointwise : Engine.Pointwise f.engine.model vectorOf
  distinguished : Distinguished f.extractor world

theorem Regular.of_setup {f g : Finder} (hf : f.Regular world vectorOf) (h : g.setup = f.setup) :
    g.Regular world vectorOf where
  rooted := hf.rooted.of_setup h
  pointwise := by
    have hmodel : g.engine.model = f.engine.model := congrArg Setup.model h
    rw [hmodel]
    exact hf.pointwise
  distinguished := hf.distinguished.congr (congrArg Setup.readers h)

/-- Files determine their index. -/
theorem Indexes.agrees {f g : Finder} {t : Tree} {files : List String}
    (hf : f.Indexes world vectorOf t files) (hg : g.Indexes world vectorOf t files)
    (h : g.setup = f.setup) : f.Agrees g := by
  have hroot : g.root = f.root := congrArg Setup.root h
  refine ⟨SortedMap.ext_get? fun path => Option.ext fun record => ?_,
    fun id => Option.ext fun row => ?_⟩
  · rw [hf.records, hg.records, foundAt?_of_setup h, hroot]
  · rw [hf.rows, hg.rows, foundAt?_of_setup h, rowAmong?_of_setup h]

/-- The index of a finder may as well be told from one with the same setup. -/
theorem indexes_of_setup {f g : Finder} {t : Tree} {files : List String} (h : g.setup = f.setup)
    (hknown : ∀ p ∈ files, ∀ found, f.foundAt? t p = some found →
      (relativePath f.root p, found.1) ∈ world)
    (hrecords : ∀ path record, g.fileState.get? path = some record ↔
      ∃ p ∈ files, ∃ found, f.foundAt? t p = some found ∧ recordOf f.root p found = (path, record))
    (hrows : ∀ id row, g.row? id = some row ↔ ∃ p ∈ files, ∃ found, f.foundAt? t p = some found ∧
      f.rowAmong? vectorOf found.2 id = some row) : g.Indexes world vectorOf t files := by
  have hroot : g.root = f.root := congrArg Setup.root h
  refine ⟨?_, fun path record => ?_, fun id row => ?_⟩
  · rw [foundAt?_of_setup h, hroot]
    exact hknown
  · rw [hrecords, foundAt?_of_setup h, hroot]
  · rw [hrows, foundAt?_of_setup h, rowAmong?_of_setup h]

theorem Indexes.of_agrees {f g : Finder} {t : Tree} {files : List String}
    (hg : g.Indexes world vectorOf t files) (h : g.setup = f.setup) (hagree : f.Agrees g) :
    f.Indexes world vectorOf t files := by
  refine indexes_of_setup h.symm hg.known (fun path record => ?_) fun id row => ?_
  · rw [hagree.fileState]
    exact hg.records path record
  · rw [hagree.rows]
    exact hg.rows id row

/-! ## Rows of several files -/

/-- Where at most one of some lists has elements with a property, the last one of them lies there.
-/
private theorem find?_reverse_flatten_iff {α : Type} {P : α → Bool} {lists : List (List α)}
    (h : ∀ a ∈ lists, ∀ b ∈ lists, ∀ x ∈ a, ∀ y ∈ b, P x → P y → a = b) (x : α) :
    lists.flatten.reverse.find? P = some x ↔ ∃ a ∈ lists, a.reverse.find? P = some x := by
  have hin : ∀ {a : List α} {x : α}, a.reverse.find? P = some x → x ∈ a ∧ P x := fun hx =>
    ⟨List.mem_reverse.mp (List.mem_of_find?_eq_some hx), List.find?_some hx⟩
  induction lists generalizing x with
  | nil => simp
  | cons first rest ih =>
    have hrest : ∀ x, rest.flatten.reverse.find? P = some x ↔
        ∃ a ∈ rest, a.reverse.find? P = some x :=
      ih fun a ha b hb => h a (List.mem_cons_of_mem _ ha) b (List.mem_cons_of_mem _ hb)
    rw [List.flatten_cons, List.reverse_append, List.find?_append, Option.or_eq_some_iff, hrest]
    constructor
    · rintro (⟨a, ha, hx⟩ | ⟨_, hx⟩)
      · exact ⟨a, List.mem_cons_of_mem _ ha, hx⟩
      · exact ⟨first, List.mem_cons_self .., hx⟩
    · rintro ⟨a, ha, hx⟩
      rcases List.mem_cons.mp ha with rfl | ha
      · cases hlast : rest.flatten.reverse.find? P with
        | none => exact Or.inr ⟨rfl, hx⟩
        | some y =>
          obtain ⟨b, hb, hy⟩ := (hrest y).mp hlast
          have hsame : a = b := h a (List.mem_cons_self ..) b (List.mem_cons_of_mem _ hb)
            x (hin hx).1 y (hin hy).1 (hin hx).2 (hin hy).2
          exact Or.inl ⟨b, hb, hsame ▸ hx⟩
      · exact Or.inl ⟨a, ha, hx⟩

/-- With a vector for each symbol the records are those of the symbols. -/
theorem lastWith_symbolRecords (symbols : List Symbol) (v : Symbol → Embedding)
    (id : String) :
    Backend.lastWith (symbolRecords symbols (symbols.map v)) id =
      (symbols.reverse.find? fun s => s.id == id).map fun s => ⟨s.id, v s, s.toMetadata⟩ := by
  have hrecords : symbolRecords symbols (symbols.map v) =
      symbols.map fun s => ⟨s.id, v s, s.toMetadata⟩ := by
    rw [symbolRecords, VectorStore.zipRecords]
    induction symbols with
    | nil => rfl
    | cons s symbols ih => exact congrArg _ ih
  rw [hrecords, Backend.lastWith, ← List.map_reverse, List.find?_map]
  rfl

/-- Two paths under which the same is found, in the same file of the workspace. -/
structure Alike (f : Finder) (t : Tree) (q p : String) : Prop where
  path : relativePath f.root q = relativePath f.root p
  found : f.foundAt? t q = f.foundAt? t p

/-- Some paths lead to the meant files, each of them known and with a path of its own in the
workspace. -/
structure Aims (world : Set (String × ByteArray)) (f : Finder) (t : Tree) (targets : List String)
    (meant : String → Prop) : Prop where
  only : ∀ q ∈ targets, ∃ p, meant p ∧ f.Alike t q p
  all : ∀ p, meant p → ∃ q ∈ targets, f.Alike t q p
  apart : ∀ p, meant p → ∀ p', meant p' →
    relativePath f.root p = relativePath f.root p' → p = p'
  inside : ∀ p, meant p → ∀ found, f.foundAt? t p = some found →
    (relativePath f.root p, found.1) ∈ world

/-- Symbols with the same identifier lie in the same file. -/
theorem found_eq_of_id {f : Finder} {t t' : Tree} (hworld : Distinguished f.extractor world)
    {p p' : String} {found found' : ByteArray × List Symbol} (hp : f.foundAt? t p = some found)
    (hp' : f.foundAt? t' p' = some found') (hin : (relativePath f.root p, found.1) ∈ world)
    (hin' : (relativePath f.root p', found'.1) ∈ world) {s s' : Symbol} (hs : s ∈ found.2)
    (hs' : s' ∈ found'.2) (hid : s.id = s'.id) : relativePath f.root p = relativePath f.root p' :=
  hworld.path_eq hin hin' (foundAt?_eq_some_iff.mp hp).2 (foundAt?_eq_some_iff.mp hp').2 hs hs' hid

/-- The same is found in files with the same path in the workspace and the same digest. -/
theorem found_eq_of_digest {f : Finder} {t t' : Tree} (hworld : Distinguished f.extractor world)
    {p p' : String} {found found' : ByteArray × List Symbol} (hp : f.foundAt? t p = some found)
    (hp' : f.foundAt? t' p' = some found') (hin : (relativePath f.root p, found.1) ∈ world)
    (hin' : (relativePath f.root p', found'.1) ∈ world)
    (hpath : relativePath f.root p = relativePath f.root p')
    (hdigest : Digest.Blake3.hexOf found.1 = Digest.Blake3.hexOf found'.1) : found = found' := by
  have hbytes : found.1 = found'.1 := hworld.contents _ hin _ hin' hdigest
  have hsymbols := (foundAt?_eq_some_iff.mp hp).2
  rw [hpath, hbytes, (foundAt?_eq_some_iff.mp hp').2] at hsymbols
  exact Prod.ext hbytes (Option.some.inj hsymbols).symm

/-- The rows that a run stores are those of the symbols in the meant files. -/
theorem Reindexed.row_iff {f g : Finder} {c : RunConditions} {t : Tree}
    {targets deleted : List String} {rows : String → Option Row} {states : FileState}
    {vectors : List Embedding} {n : Nat} {meant : String → Prop} (hf : f.Regular world vectorOf)
    (hc : c.Still) (ht : c.views.scan = t) (habsolute : ∀ q ∈ targets, FilePath.isAbsolute q)
    (hroom : (f.filter.apply (f.symbolsIn c targets)).length ≤ f.config.finder.maxSymbols)
    (haims : f.Aims world t targets meant)
    (h : Reindexed c targets deleted rows states f vectors n g) (id : String) (row : Row) :
    (Backend.lastWith (symbolRecords (f.selected (f.symbolsIn c targets)) vectors) id).map
        f.store.backend.rowOf = some row ↔
      ∃ p, meant p ∧ ∃ found, f.foundAt? t p = some found ∧
        f.rowAmong? vectorOf found.2 id = some row := by
  have hvectors := Engine.embed_eq_map hf.pointwise h.embed
  rw [List.map_map] at hvectors
  have hselected : f.selected (f.symbolsIn c targets) =
      ((targets.filterMap (f.foundAt? t)).map fun found => f.filter.apply found.2).flatten := by
    rw [selected, List.take_of_length_le hroom, symbolsIn_eq hf.rooted hc habsolute, ht,
      SymbolFilter.apply, List.filter_flatMap]
    rfl
  have hone : ∀ a ∈ (targets.filterMap (f.foundAt? t)).map fun found => f.filter.apply found.2,
      ∀ b ∈ (targets.filterMap (f.foundAt? t)).map fun found => f.filter.apply found.2,
      ∀ s ∈ a, ∀ s' ∈ b, (s.id == id) = true → (s'.id == id) = true → a = b := by
    intro a ha b hb s hs s' hs' hid hid'
    obtain ⟨found, hfound, rfl⟩ := List.mem_map.mp ha
    obtain ⟨found', hfound', rfl⟩ := List.mem_map.mp hb
    obtain ⟨q, hq, hfound⟩ := List.mem_filterMap.mp hfound
    obtain ⟨q', hq', hfound'⟩ := List.mem_filterMap.mp hfound'
    obtain ⟨p, hp, halike⟩ := haims.only q hq
    obtain ⟨p', hp', halike'⟩ := haims.only q' hq'
    rw [halike.found] at hfound
    rw [halike'.found] at hfound'
    have hpath := found_eq_of_id hf.distinguished hfound hfound' (haims.inside p hp _ hfound)
      (haims.inside p' hp' _ hfound') (List.mem_of_mem_filter hs) (List.mem_of_mem_filter hs')
      ((beq_iff_eq.mp hid).trans (beq_iff_eq.mp hid').symm)
    obtain rfl := haims.apart p hp p' hp' hpath
    rw [Option.some.inj (hfound.symm.trans hfound')]
  rw [hvectors, lastWith_symbolRecords, Option.map_map, hselected, Option.map_eq_some_iff]
  simp only [find?_reverse_flatten_iff hone]
  constructor
  · rintro ⟨s, ⟨_, hlist, hs⟩, hrow⟩
    obtain ⟨found, hfound, rfl⟩ := List.mem_map.mp hlist
    obtain ⟨q, hq, hfound⟩ := List.mem_filterMap.mp hfound
    obtain ⟨p, hp, halike⟩ := haims.only q hq
    refine ⟨p, hp, found, halike.found ▸ hfound, ?_⟩
    rw [rowAmong?, hs, ← hrow]
    rfl
  · rintro ⟨p, hp, found, hfound, hrow⟩
    obtain ⟨q, hq, halike⟩ := haims.all p hp
    obtain ⟨s, hs, hrow⟩ := Option.map_eq_some_iff.mp hrow
    exact ⟨s, ⟨_, List.mem_map.mpr ⟨found, List.mem_filterMap.mpr
      ⟨q, hq, halike.found.trans hfound⟩, rfl⟩, hs⟩, hrow⟩

/-- The records that a run writes are those of the meant files. -/
theorem record_iff {f : Finder} {c : RunConditions} {t : Tree} {targets : List String}
    {meant : String → Prop} (hf : f.Rooted) (hc : c.Still) (ht : c.views.scan = t)
    (habsolute : ∀ q ∈ targets, FilePath.isAbsolute q) (haims : f.Aims world t targets meant)
    (path : String) (record : FileRecord) :
    (((f.recordsIn c targets).reverse.find? fun e => e.1 == path).map (·.2)) = some record ↔
      ∃ p, meant p ∧ ∃ found, f.foundAt? t p = some found ∧
        recordOf f.root p found = (path, record) := by
  have hmem : ∀ e, e ∈ f.recordsIn c targets ↔
      ∃ p, meant p ∧ ∃ found, f.foundAt? t p = some found ∧ recordOf f.root p found = e := by
    intro e
    rw [recordsIn_eq hf hc habsolute, ht]
    simp only [List.mem_filterMap, Option.map_eq_some_iff]
    constructor
    · rintro ⟨q, hq, found, hfound, rfl⟩
      obtain ⟨p, hp, halike⟩ := haims.only q hq
      exact ⟨p, hp, found, halike.found ▸ hfound, by rw [recordOf, recordOf, halike.path]⟩
    · rintro ⟨p, hp, found, hfound, rfl⟩
      obtain ⟨q, hq, halike⟩ := haims.all p hp
      exact ⟨q, hq, found, halike.found.trans hfound, by rw [recordOf, recordOf, halike.path]⟩
  rw [SortedMap.find?_reverse_eq_some_iff]
  · constructor
    · rintro ⟨e, he, rfl, rfl⟩
      exact (hmem e).mp he
    · intro h
      exact ⟨(path, record), (hmem _).mpr h, rfl, rfl⟩
  · intro e he e' he' hpath
    obtain ⟨p, hp, found, hfound, rfl⟩ := (hmem e).mp he
    obtain ⟨p', hp', found', hfound', rfl⟩ := (hmem e').mp he'
    obtain rfl := haims.apart p hp p' hp' hpath
    rw [Option.some.inj (hfound.symm.trans hfound')]

end Finder

namespace Call

open Finder

variable {vectorOf : String → Embedding} {world : Set (String × ByteArray)}

/-- A call that does not fail makes all changes of its plan. -/
theorem reindexed_of_done {f : Finder} {call : Call} {plan : Plan}
    (hplan : call.plan? f = some plan) (hdone : call.failure? f = none) :
    ∃ vectors, Reindexed call.conditions plan.targets plan.deleted (call.rowsUnder f plan)
      (call.statesUnder f) f vectors
      ((f.recordsIn call.conditions plan.targets).length + plan.deleted.length)
      (call.after f) := by
  cases call.ends f with
  | stopped e hfailure => cases hdone.symm.trans hfailure
  | emptied _ _ _ _ hearly =>
    rcases hearly with ⟨e, hfailure, _⟩ | ⟨c, rfl⟩
    · cases hdone.symm.trans hfailure
    · cases hplan
  | stored plan' r hplan' hfailure h =>
    cases hplan.symm.trans hplan'
    cases h with
    | cutOff vectors n e hr =>
      rw [hr] at hfailure
      cases hdone.symm.trans hfailure
    | complete vectors _ h => exact ⟨vectors, h⟩

/-- A run over a workspace that succeeds and to which nothing happens on the way: its files stay as
they are, each of them can be read and has a path of its own in the workspace, and there are no more
accepted symbols than a run may have. -/
structure Surveys (world : Set (String × ByteArray)) (f : Finder) (call : Call) (t : Tree)
    (files : List String) : Prop extends call.Within world f where
  scan : call.conditions.views.scan = t
  directory : t.holdsDirectory f.root
  covers : discover t f.root f.root [] f.filter = .ok files
  readable : ∀ p ∈ files, ∃ found, f.foundAt? t p = some found ∧
    (relativePath f.root p, found.1) ∈ world
  apart : ∀ p ∈ files, ∀ q ∈ files, relativePath f.root p = relativePath f.root q → p = q
  done : call.failure? f = none

/-- A full run of the workspace without patterns. -/
def IsFull (f : Finder) : Call → Prop
  | full _ _ top patterns => FilePath.tidy (FilePath.join f.root top) = f.root ∧ patterns = []
  | _ => False

/-- A run by digests. -/
def IsIncremental : Call → Prop
  | changes _ _ none => True
  | _ => False

theorem Surveys.known {f : Finder} {call : Call} {t : Tree} {files : List String}
    (h : call.Surveys world f t files) : ∀ p ∈ files, ∀ found, f.foundAt? t p = some found →
      (relativePath f.root p, found.1) ∈ world := by
  intro p hp found hfound
  obtain ⟨found', hfound', hin⟩ := h.readable p hp
  cases hfound.symm.trans hfound'
  exact hin

theorem Surveys.covers_of_setup {f first : Finder} {call : Call} {t : Tree} {files : List String}
    (h : call.Surveys world f t files) (hsetup : f.setup = first.setup) :
    discover t first.root first.root [] first.filter = .ok files := by
  have hroot : f.root = first.root := congrArg Setup.root hsetup
  have hfilter : f.filter = first.filter := congrArg Setup.filter hsetup
  rw [← hroot, ← hfilter]
  exact h.covers

/-- A full run leaves the index of the workspace. -/
theorem indexes_after_full {f : Finder} {call : Call} {t : Tree} {files : List String}
    (hf : f.Regular world vectorOf) (hfull : call.IsFull f) (h : call.Surveys world f t files) :
    (call.after f).Indexes world vectorOf t files := by
  cases call with
  | changes => cases hfull
  | clear => cases hfull
  | full c o top patterns =>
    obtain ⟨htop, rfl⟩ := hfull
    have hplan : (full c o top []).plan? f = some ⟨files, []⟩ := by
      rw [plan?, fullPlan?, htop, show c.views.scan = t from h.scan, h.covers]
      rfl
    have habsolute : ∀ q ∈ files, FilePath.isAbsolute q := fun q hq =>
      isAbsolute_of_mem_targets hf.rooted.absolute hplan hq
    have haims : f.Aims world t files (· ∈ files) :=
      { only := fun q hq => ⟨q, hq, rfl, rfl⟩
        all := fun p hp => ⟨p, hp, rfl, rfl⟩
        apart := h.apart
        inside := h.known }
    obtain ⟨vectors, hr⟩ := reindexed_of_done hplan h.done
    refine indexes_of_setup hr.setup h.known (fun path record => ?_) fun id row => ?_
    · rw [hr.fileState_all, get?_committed, if_neg List.not_mem_nil]
      rw [show (full c o top []).statesUnder f = {} from rfl, SortedMap.get?_empty, Option.or_none]
      exact record_iff hf.rooted h.still h.scan habsolute haims path record
    · rw [hr.rows, show (full c o top []).rowsUnder f ⟨files, []⟩ id = none from rfl,
        Option.or_none]
      exact hr.row_iff hf h.still h.scan habsolute (h.room _ hplan) haims id row

/-! ## Renewal of an index -/

/-- A run over a workspace that does not start anew. It reads the meant files again, the other ones
are as they were when the index was made, and it forgets the paths that no file has any more. -/
structure Renews (world : Set (String × ByteArray)) (f : Finder) (call : Call) (plan : Plan)
    (t t₀ : Tree) (files files₀ : List String) (meant : String → Prop) : Prop
    extends call.Surveys world f t files where
  planned : call.plan? f = some plan
  keeps : ¬call.startsAnew f
  aims : f.Aims world t plan.targets fun p => p ∈ files ∧ meant p
  other : ∀ p ∈ files, ¬meant p → ∃ p₀ ∈ files₀, f.foundAt? t₀ p₀ = f.foundAt? t p ∧
    relativePath f.root p₀ = relativePath f.root p
  mem_deleted : ∀ {path}, path ∈ plan.deleted ↔
    (f.fileState.get? path).isSome ∧ ∀ p ∈ files, relativePath f.root p ≠ path

section

variable {f : Finder} {call : Call} {plan : Plan} {t t₀ : Tree} {files files₀ : List String}
  {meant : String → Prop}

/-- The paths of the plan that files still have are those of the meant ones. -/
theorem Renews.mem_paths_iff (h : call.Renews world f plan t t₀ files files₀ meant) {p : String}
    (hp : p ∈ files) : relativePath f.root p ∈ plan.paths f.root ↔ meant p := by
  constructor
  · intro hpath
    rcases List.mem_append.mp hpath with hpath | hpath
    · obtain ⟨q, hq, hseen⟩ := List.mem_map.mp hpath
      obtain ⟨p', ⟨hp', hmeant⟩, halike⟩ := h.aims.only q hq
      rwa [h.apart p hp p' hp' (hseen.symm.trans halike.path)]
    · exact absurd rfl ((h.mem_deleted.mp hpath).2 p hp)
  · intro hmeant
    obtain ⟨q, hq, halike⟩ := h.aims.all p ⟨hp, hmeant⟩
    exact List.mem_append_left _ (List.mem_map.mpr ⟨q, hq, halike.path⟩)

/-- A file that is not meant is recorded as it is. -/
theorem Renews.recorded (h₀ : f.Indexes world vectorOf t₀ files₀)
    (h : call.Renews world f plan t t₀ files files₀ meant) {p : String} (hp : p ∈ files)
    (hother : ¬meant p) {found : ByteArray × List Symbol} (hfound : f.foundAt? t p = some found) :
    f.fileState.get? (relativePath f.root p) = some (recordOf f.root p found).2 := by
  obtain ⟨p₀, hp₀, hfound₀, hpath⟩ := h.other p hp hother
  exact (h₀.records _ _).mpr ⟨p₀, hp₀, found, hfound₀.trans hfound, Prod.ext hpath rfl⟩

/-- After the run the files of the workspace are recorded as they are. -/
theorem Renews.get?_committed_iff (hf : f.Rooted) (h₀ : f.Indexes world vectorOf t₀ files₀)
    (h : call.Renews world f plan t t₀ files files₀ meant) {path : String}
    {record : FileRecord} :
    (committed (f.recordsIn call.conditions plan.targets) plan.deleted f.fileState).get? path =
        some record ↔
      ∃ p ∈ files, ∃ found, f.foundAt? t p = some found ∧
        recordOf f.root p found = (path, record) := by
  have hwritten := record_iff hf h.still h.scan
    (fun q hq => isAbsolute_of_mem_targets hf.absolute h.planned hq) h.aims
  rw [get?_committed]
  constructor
  · intro hget
    split at hget
    · cases hget
    rename_i hdeleted
    rcases Option.or_eq_some_iff.mp hget with hnew | ⟨hnone, hold⟩
    · obtain ⟨p, ⟨hp, _⟩, found, hfound, hrecord⟩ := (hwritten _ _).mp hnew
      exact ⟨p, hp, found, hfound, hrecord⟩
    · have hthere : ∃ p ∈ files, relativePath f.root p = path := by
        by_contra hgone
        exact hdeleted (h.mem_deleted.mpr
          ⟨by rw [hold]; rfl, fun p hp hpath => hgone ⟨p, hp, hpath⟩⟩)
      obtain ⟨p, hp, rfl⟩ := hthere
      obtain ⟨found, hfound, _⟩ := h.readable p hp
      have hother : ¬meant p := fun hmeant =>
        absurd ((hwritten _ _).mpr ⟨p, ⟨hp, hmeant⟩, found, hfound, rfl⟩) (by simp [hnone])
      rw [h.recorded h₀ hp hother hfound] at hold
      exact ⟨p, hp, found, hfound, Prod.ext rfl (Option.some.inj hold)⟩
  · rintro ⟨p, hp, found, hfound, hrecord⟩
    obtain ⟨rfl, rfl⟩ := Prod.mk.inj hrecord
    rw [if_neg fun hdeleted => (h.mem_deleted.mp hdeleted).2 p hp rfl]
    by_cases hmeant : meant p
    · exact Option.or_eq_some_iff.mpr (Or.inl ((hwritten _ _).mpr
        ⟨p, ⟨hp, hmeant⟩, found, hfound, rfl⟩))
    · refine Option.or_eq_some_iff.mpr (Or.inr ⟨?_, h.recorded h₀ hp hmeant hfound⟩)
      refine Option.eq_none_iff_forall_ne_some.mpr fun record hnew => ?_
      obtain ⟨p', ⟨hp', hmeant'⟩, _, _, hrecord⟩ := (hwritten _ _).mp hnew
      obtain rfl := h.apart p' hp' p hp (Prod.mk.inj hrecord).1
      exact hmeant hmeant'

/-- The rows that the run leaves in place are those of the other files. -/
theorem Renews.rowsUnder_iff (hworld : Distinguished f.extractor world)
    (h₀ : f.Indexes world vectorOf t₀ files₀)
    (h : call.Renews world f plan t t₀ files files₀ meant) (id : String) (row : Row) :
    call.rowsUnder f plan id = some row ↔
      ∃ p ∈ files, ¬meant p ∧ ∃ found, f.foundAt? t p = some found ∧
        f.rowAmong? vectorOf found.2 id = some row := by
  rw [rowsUnder]
  constructor
  · intro hrow
    split at hrow
    · cases hrow
    rename_i hkept
    rw [not_or, mem_recordedIds] at hkept
    obtain ⟨p₀, hp₀, found₀, hfound₀, hamong⟩ := (h₀.rows id row).mp hrow
    obtain ⟨s, hs, rfl⟩ := mem_of_rowAmong? hamong
    have hrecord := (h₀.records _ _).mpr ⟨p₀, hp₀, found₀, hfound₀, rfl⟩
    have hpath : relativePath f.root p₀ ∉ plan.paths f.root := fun hpath =>
      hkept.2 ⟨_, hpath, _, hrecord, List.mem_map_of_mem hs⟩
    have hthere : ∃ p ∈ files, relativePath f.root p = relativePath f.root p₀ := by
      by_contra hgone
      exact hpath (List.mem_append_right _ (h.mem_deleted.mpr
        ⟨by rw [hrecord]; rfl, fun p hp hseen => hgone ⟨p, hp, hseen⟩⟩))
    obtain ⟨p, hp, hseen⟩ := hthere
    have hother : ¬meant p := fun hmeant => hpath (hseen ▸ (h.mem_paths_iff hp).mpr hmeant)
    obtain ⟨found, hfound, _⟩ := h.readable p hp
    have hold := h.recorded h₀ hp hother hfound
    rw [hseen, hrecord] at hold
    obtain rfl := found_eq_of_digest hworld hfound₀ hfound (h₀.known p₀ hp₀ _ hfound₀)
      (h.known p hp _ hfound) hseen.symm (congrArg FileRecord.digest (Option.some.inj hold))
    exact ⟨p, hp, hother, found₀, hfound, hamong⟩
  · rintro ⟨p, hp, hother, found, hfound, hamong⟩
    obtain ⟨p₀, hp₀, hfound₀, _⟩ := h.other p hp hother
    obtain ⟨s, hs, rfl⟩ := mem_of_rowAmong? hamong
    rw [if_neg, (h₀.rows _ row).mpr ⟨p₀, hp₀, found, hfound₀.trans hfound, hamong⟩]
    rw [not_or, mem_recordedIds]
    refine ⟨h.keeps, ?_⟩
    rintro ⟨path, hpath, record, hget, hid⟩
    obtain ⟨p₁, hp₁, found₁, hfound₁, hrecord⟩ := (h₀.records _ _).mp hget
    obtain ⟨rfl, rfl⟩ := Prod.mk.inj hrecord
    obtain ⟨s', hs', hsame⟩ := List.mem_map.mp hid
    have hseen := found_eq_of_id hworld hfound hfound₁ (h.known p hp _ hfound)
      (h₀.known p₁ hp₁ _ hfound₁) hs hs' hsame.symm
    exact hother ((h.mem_paths_iff hp).mp (hseen ▸ hpath))

/-- The run leaves the index of the workspace. -/
theorem Renews.indexes_after (hf : f.Regular world vectorOf)
    (h₀ : f.Indexes world vectorOf t₀ files₀)
    (h : call.Renews world f plan t t₀ files files₀ meant) :
    (call.after f).Indexes world vectorOf t files := by
  obtain ⟨vectors, hr⟩ := reindexed_of_done h.planned h.done
  have hstates : call.statesUnder f = f.fileState := if_neg h.keeps
  have hstored := hr.row_iff hf h.still h.scan
    (fun q hq => isAbsolute_of_mem_targets hf.rooted.absolute h.planned hq) (h.room _ h.planned)
    h.aims
  have hkept := h.rowsUnder_iff hf.distinguished h₀
  refine indexes_of_setup hr.setup h.known (fun path record => ?_) fun id row => ?_
  · rw [hr.fileState_all, hstates]
    exact h.get?_committed_iff hf.rooted h₀
  · rw [hr.rows, Option.or_eq_some_iff, hstored, hkept]
    constructor
    · rintro (⟨p, ⟨hp, _⟩, found, hfound, hrow⟩ | ⟨_, p, hp, _, found, hfound, hrow⟩)
      · exact ⟨p, hp, found, hfound, hrow⟩
      · exact ⟨p, hp, found, hfound, hrow⟩
    · rintro ⟨p, hp, found, hfound, hrow⟩
      by_cases hmeant : meant p
      · exact Or.inl ⟨p, ⟨hp, hmeant⟩, found, hfound, hrow⟩
      · refine Or.inr ⟨?_, p, hp, hmeant, found, hfound, hrow⟩
        refine Option.eq_none_iff_forall_ne_some.mpr fun row' hnew => ?_
        obtain ⟨p', ⟨hp', hmeant'⟩, found', hfound', hrow'⟩ := (hstored _ _).mp hnew
        obtain ⟨s, hs, hid⟩ := mem_of_rowAmong? hrow
        obtain ⟨s', hs', hid'⟩ := mem_of_rowAmong? hrow'
        have hpath := found_eq_of_id hf.distinguished hfound hfound' (h.known p hp _ hfound)
          (h.known p' hp' _ hfound') hs hs' (hid.trans hid'.symm)
        obtain rfl := h.apart p hp p' hp' hpath
        exact hmeant hmeant'

end

end Call

end CodeClones
