import CodeClones.Proofs.Embedding
import CodeClones.Proofs.Finder.Steps

/-!
# Indexing files

Indexing has three ends. It stops before it stores anything; it is cut off between the vectors and
the last record of a file, so that the store is ahead of the file states; or all records are written
and at most the report fails. The stage of the failure tells the three apart.
-/

namespace CodeClones

namespace FinderError

/-- A failure before vectors are stored. -/
def Early (e : FinderError) : Prop :=
  e.stage = .extractingSymbols ∨ e.stage = .generatingEmbeddings ∨ e.stage = .buildingIndex

/-- A failure between the storing of vectors and the last record of a file. -/
def CutsOff (e : FinderError) : Prop :=
  e.stage = .findingDuplicates ∨ e.stage = .formattingResults ∧ e.fault = .dependency

/-- A failure of the report, after the last record of a file. -/
def Late (e : FinderError) : Prop := e.stage = .formattingResults ∧ e.fault ≠ .dependency

theorem Early.not_cutsOff {e : FinderError} (h : e.Early) : ¬e.CutsOff := by
  rcases h with h | h | h <;> simp [CutsOff, h]

theorem Late.not_cutsOff {e : FinderError} (h : e.Late) : ¬e.CutsOff := by
  simp [CutsOff, h.1, h.2]

theorem Late.not_early {e : FinderError} (h : e.Late) : ¬e.Early := by
  simp [Early, h.1]

end FinderError

namespace Finder

/-- The records under which symbols are stored with their vectors. -/
def symbolRecords (symbols : List Symbol) (vectors : List Embedding) : List Record :=
  VectorStore.zipRecords (symbols.map (·.id)) vectors (symbols.map Symbol.toMetadata)

/-- The store after symbols and vectors have been added to it. -/
structure Stored (f : Finder) (symbols : List Symbol) (vectors : List Embedding) (g : Finder) :
    Prop where
  setup : g.setup = f.setup
  length : vectors.length = symbols.length
  rows : ∀ id, g.row? id =
    ((Backend.lastWith (symbolRecords symbols vectors) id).map f.store.backend.rowOf).or (f.row? id)

/-- A record has the vector under the position of its symbol. -/
theorem mem_symbolRecords {symbols : List Symbol} {vectors : List Embedding} {r : Record}
    (h : r ∈ symbolRecords symbols vectors) : ∃ (i : Nat) (s : Symbol) (v : Embedding),
      symbols[i]? = some s ∧ vectors[i]? = some v ∧ r = ⟨s.id, v, s.toMetadata⟩ := by
  obtain ⟨i, hi⟩ := List.mem_iff_getElem?.mp h
  rw [symbolRecords, VectorStore.zipRecords, List.getElem?_map, Option.map_eq_some_iff] at hi
  obtain ⟨⟨⟨id, v⟩, m⟩, hzip, rfl⟩ := hi
  obtain ⟨hpair, hm⟩ := List.getElem?_zip_eq_some.mp hzip
  obtain ⟨hid, hv⟩ := List.getElem?_zip_eq_some.mp hpair
  rw [List.getElem?_map, Option.map_eq_some_iff] at hid hm
  obtain ⟨s, hs, rfl⟩ := hid
  obtain ⟨s', hs', rfl⟩ := hm
  cases hs.symm.trans hs'
  exact ⟨i, s, v, hs, hv, rfl⟩

/-- Only symbols are stored. -/
theorem mem_of_lastWith_symbolRecords {symbols : List Symbol} {vectors : List Embedding}
    {id : String} {r : Record}
    (h : Backend.lastWith (symbolRecords symbols vectors) id = some r) :
    ∃ s ∈ symbols, s.id = id := by
  obtain ⟨hr, rfl⟩ := Backend.lastWith_some h
  obtain ⟨i, s, v, hs, _, rfl⟩ := mem_symbolRecords hr
  exact ⟨s, List.mem_of_getElem? hs, rfl⟩

/-- With a vector for each symbol all of them are stored. -/
theorem lastWith_symbolRecords_isSome {symbols : List Symbol} {vectors : List Embedding}
    (h : vectors.length = symbols.length) {s : Symbol} (hs : s ∈ symbols) :
    (Backend.lastWith (symbolRecords symbols vectors) s.id).isSome := by
  by_contra hnone
  rw [Option.not_isSome_iff_eq_none, Backend.lastWith_eq_none_iff] at hnone
  have hids : (symbolRecords symbols vectors).map Record.id = symbols.map (·.id) := by
    rw [symbolRecords, VectorStore.zipRecords, List.map_map]
    change ((symbols.map (·.id)).zip vectors |>.zip (symbols.map Symbol.toMetadata)).map
      (Prod.fst ∘ Prod.fst) = _
    rw [← List.map_map, List.map_fst_zip, List.map_fst_zip]
    · simp [h]
    · simp [h]
  have hmem : s.id ∈ (symbolRecords symbols vectors).map Record.id :=
    hids ▸ List.mem_map_of_mem hs
  obtain ⟨r, hr, hid⟩ := List.mem_map.mp hmem
  exact hnone r hr hid

theorem embedSymbols_cases {symbols : List Symbol} {f g : Finder}
    {r : Except FinderError (List Embedding)} (h : embedSymbols symbols f = (r, g)) :
    SameIndex f g ∧ g.store = f.store ∧ g.progress = f.progress.advance .generatingEmbeddings ∧
      ((∃ e, r = .error e ∧ e.stage = .generatingEmbeddings) ∨
        ∃ vectors, (f.engine.embed (symbols.map Symbol.canonicalText)).2 = .ok vectors ∧
          r = .ok vectors) := by
  rw [embedSymbols, RunStep.bind_of_ok (advance_apply ..)] at h
  dsimp only at h
  rw [get_bind] at h
  obtain ⟨hm, hb, hn⟩ := f.engine.embed_keeps (symbols.map Symbol.canonicalText)
  rcases he : f.engine.embed (symbols.map Symbol.canonicalText) with ⟨engine, answer⟩
  rw [he] at h hm hb hn
  dsimp only at hm hb hn
  have hsetup : ({ f with engine := engine } : Finder).setup = f.setup := by
    simp only [setup, hm, hb, hn]
  cases answer with
  | ok vectors =>
    cases h
    exact ⟨⟨hsetup, rfl, rfl⟩, rfl, rfl, Or.inr ⟨vectors, rfl, rfl⟩⟩
  | error cause =>
    cases h
    exact ⟨⟨hsetup, rfl, rfl⟩, rfl, rfl, Or.inl ⟨_, rfl, rfl⟩⟩

/-- The store took the vectors of some symbols and was asked for their neighbours. -/
structure Searched (c : RunConditions) (symbols : List Symbol) (vectors : List Embedding)
    (threshold : Float32) (f g : Finder) (answer : Except StoreError BatchAnswer) : Prop where
  asked : ∃ s, f.store.upsert c.upsert (symbols.map (·.id)) vectors
      (symbols.map Symbol.toMetadata) = (s, .ok ()) ∧
    s.batch c.search false vectors threshold = (g.store, answer)
  fileState : g.fileState = f.fileState
  stored : Stored f symbols vectors g

/-- A store that took vectors and answered a batch holds them all. -/
theorem stored_of_asked {c : RunConditions} {symbols : List Symbol}
    {vectors : List Embedding} {threshold : Float32} {f g : Finder} {s : VectorStore}
    {answer : Except StoreError BatchAnswer}
    (hu : f.store.upsert c.upsert (symbols.map (·.id)) vectors (symbols.map Symbol.toMetadata) =
      (s, .ok ()))
    (hb : s.batch c.search false vectors threshold = (g.store, answer))
    (hg : g = { f with store := g.store, progress := g.progress }) :
    Stored f symbols vectors g := by
  have hback : g.store.backend = s.backend := by
    rw [← VectorStore.batch_backend s c.search false vectors threshold, hb]
  rcases VectorStore.upsert_cases hu with ⟨_, he, _⟩ | ⟨_, hv, _, hcase⟩
  · cases he
  have hlength : vectors.length = symbols.length := by
    rw [← hv, List.length_map]
  have hrow : g.store.backend.rowOf = f.store.backend.rowOf ∧ ∀ id, g.row? id =
      ((Backend.lastWith (symbolRecords symbols vectors) id).map f.store.backend.rowOf).or
        (f.row? id) := by
    simp only [row?, hback]
    rcases hcase with ⟨hempty, rfl⟩ | ⟨_, hs, _, _⟩
    · have hnone : symbolRecords symbols vectors = [] := by
        rw [symbolRecords, hempty]
        rfl
      refine ⟨rfl, fun id => ?_⟩
      rw [hnone]
      rfl
    · rw [hs]
      exact ⟨Backend.rowOf_upsert _ _, fun id => Backend.row?_upsert _ _ id⟩
  refine ⟨?_, hlength, hrow.2⟩
  rw [hg]
  simp only [setup, hrow.1]

/-- A search may as well be told from a finder with the same index and the same store. -/
theorem Searched.of_sameIndex {c : RunConditions} {symbols : List Symbol}
    {vectors : List Embedding} {threshold : Float32} {f f₁ g : Finder}
    {answer : Except StoreError BatchAnswer} (h : Searched c symbols vectors threshold f₁ g answer)
    (hsame : SameIndex f f₁) (hstore : f₁.store = f.store) :
    Searched c symbols vectors threshold f g answer where
  asked := hstore ▸ h.asked
  fileState := h.fileState.trans hsame.fileState
  stored :=
    { setup := h.stored.setup.trans hsame.setup
      length := h.stored.length
      rows := fun id => by rw [h.stored.rows id, hsame.row? id, hsame.backend] }

/-- The search for neighbours fails before anything is stored, or asks the store that holds all the
given vectors. -/
theorem searchNeighbours_cases {c : RunConditions} {symbols : List Symbol}
    {vectors : List Embedding} {threshold : Float32} {f g : Finder}
    {r : Except FinderError BatchAnswer} (hp : f.progress.current = .generatingEmbeddings)
    (h : searchNeighbours c symbols vectors threshold f = (r, g)) :
    (∃ e, r = .error e ∧ e.stage = .buildingIndex ∧ SameIndex f g) ∨
      ∃ answer, Searched c symbols vectors threshold f g answer ∧
        g.progress.current = .findingDuplicates ∧
        ((∃ e, r = .error e ∧ e.stage = .findingDuplicates) ∨
          ∃ answers, answer = .ok answers ∧ r = .ok answers) := by
  rw [searchNeighbours, RunStep.bind_of_ok (advance_apply ..)] at h
  obtain ⟨s, _, hs, ⟨cause, rfl, rfl, rfl⟩ | ⟨_, rfl, hk⟩⟩ := callStore_bind_cases h
  · rcases VectorStore.upsert_cases hs with ⟨_, _, halike⟩ | ⟨hok, _⟩
    · refine Or.inl ⟨_, rfl, rfl, ?_, halike.backend, rfl⟩
      simp only [setup, halike.backend]
    · cases hok
  · rw [RunStep.bind_of_ok (advance_apply ..)] at hk
    obtain ⟨s', answer, hs', rfl, hend⟩ := callStore_cases hk
    have hcurrent : ((f.progress.advance .buildingIndex).advance .findingDuplicates).current =
        .findingDuplicates := by
      rw [Progress.advance, if_pos]
      rw [Progress.advance, if_pos (by rw [hp]; rfl)]
      rfl
    refine Or.inr ⟨answer, ⟨⟨s, hs, hs'⟩, rfl, stored_of_asked hs hs' rfl⟩, hcurrent, ?_⟩
    rcases hend with ⟨b, rfl, rfl⟩ | ⟨cause, rfl, rfl⟩
    · exact Or.inr ⟨b, rfl, rfl⟩
    · exact Or.inl ⟨_, rfl, rfl⟩

/-- A search for duplicates fails before anything is stored, or stores the vectors of all selected
symbols and asks the store for their neighbours. -/
theorem detect_cases {c : RunConditions} {symbols : List Symbol} {threshold : Option Float32}
    {f g : Finder} {r : Except FinderError Detection}
    (hp : f.progress.current = .extractingSymbols)
    (h : detect c symbols threshold f = (r, g)) :
    (∃ e, r = .error e ∧ e.Early ∧ SameIndex f g) ∨
      ∃ vectors answer,
        (f.engine.embed ((f.selected symbols).map Symbol.canonicalText)).2 = .ok vectors ∧
        Searched c (f.selected symbols) vectors
          (threshold.getD f.config.finder.thresholds.medium) f g answer ∧
        ((∃ e, r = .error e ∧ e.stage = .findingDuplicates) ∨
          ∃ answers, answer = .ok answers ∧ g.progress.current = .formattingResults ∧
            r = .ok ⟨duplicatesIn (f.selected symbols) answers f.config.finder.thresholds,
              (f.selected symbols).length, vectors.length⟩) := by
  rw [detect, get_bind] at h
  dsimp only at h
  split at h
  · rw [RunStep.bind_of_error (failAt_apply ..)] at h
    cases h
    exact Or.inl ⟨_, rfl, Or.inl hp, .refl f⟩
  rcases RunStep.bind_cases h with ⟨e, he, rfl⟩ | ⟨vectors, f₁, hv, h⟩
  · obtain ⟨hsame, -, -, ⟨_, hr, hs⟩ | ⟨_, _, hr⟩⟩ := embedSymbols_cases he
    · cases hr
      exact Or.inl ⟨e, rfl, Or.inr (Or.inl hs), hsame⟩
    · cases hr
  obtain ⟨hsame, hstore, hprog, ⟨_, hr, _⟩ | ⟨vectors', hembed, hr⟩⟩ := embedSymbols_cases hv
  · cases hr
  cases hr
  have hcurrent : f₁.progress.current = .generatingEmbeddings := by
    rw [hprog, Progress.advance, if_pos (by rw [hp]; rfl)]
  rcases RunStep.bind_cases h with ⟨e, he, rfl⟩ | ⟨answers, f₂, ha, h⟩
  · rcases searchNeighbours_cases hcurrent he with ⟨_, hr, hstage, hsame'⟩ |
      ⟨answer, hsearch, _, ⟨_, hr, hstage⟩ | ⟨_, _, hr⟩⟩
    · cases hr
      exact Or.inl ⟨e, rfl, Or.inr (Or.inr hstage), hsame.trans hsame'⟩
    · cases hr
      exact Or.inr ⟨vectors, answer, hembed, hsearch.of_sameIndex hsame hstore,
        Or.inl ⟨e, rfl, hstage⟩⟩
    · cases hr
  · rcases searchNeighbours_cases hcurrent ha with ⟨_, hr, _, _⟩ |
      ⟨answer, hsearch, hcur, ⟨_, hr, _⟩ | ⟨_, rfl, hr⟩⟩
    · cases hr
    · cases hr
    · cases hr
      rw [RunStep.bind_of_ok (advance_apply ..)] at h
      cases h
      have hsearch' := hsearch.of_sameIndex hsame hstore
      refine Or.inr ⟨vectors, .ok answers, hembed, ⟨hsearch'.asked, hsearch'.fileState,
        hsearch'.stored.setup, hsearch'.stored.length, hsearch'.stored.rows⟩,
        Or.inr ⟨answers, rfl, ?_, rfl⟩⟩
      change (f₂.progress.advance .formattingResults).current = _
      rw [Progress.advance, if_pos (by rw [hcur]; rfl)]

/-- The file states after some records are written and some paths are forgotten. -/
def committed (records : List (String × FileRecord)) (deleted : List String) (s : FileState) :
    FileState :=
  deleted.foldl SortedMap.erase (records.foldl (fun s e => s.insert e.1 e.2) s)

/-- A forgotten path has no record, and of the records that are written the last one counts. -/
theorem get?_committed (records : List (String × FileRecord)) (deleted : List String)
    (s : FileState) (path : String) :
    (committed records deleted s).get? path = if path ∈ deleted then none
      else ((records.reverse.find? fun e => e.1 == path).map (·.2)).or (s.get? path) := by
  rw [committed, SortedMap.get?_foldl_erase, SortedMap.get?_foldl_insert]

/-- A commit changes nothing under other paths. -/
theorem get?_committed_of_not_mem {records : List (String × FileRecord)} {deleted : List String}
    {path : String} (hr : ∀ e ∈ records, e.1 ≠ path) (hd : path ∉ deleted) (s : FileState) :
    (committed records deleted s).get? path = s.get? path := by
  have hnone : (records.reverse.find? fun e => e.1 == path) = none := by
    rw [List.find?_eq_none]
    intro e he
    simpa using hr e (List.mem_reverse.mp he)
  rw [get?_committed, if_neg hd, hnone]
  rfl

/-- After a commit every record was written by it or stood there before. -/
theorem committed_cases {records : List (String × FileRecord)} {deleted : List String}
    {s : FileState} {path : String} {record : FileRecord}
    (h : (committed records deleted s).get? path = some record) :
    (path, record) ∈ records ∨
      path ∉ deleted ∧ (∀ e ∈ records, e.1 ≠ path) ∧ s.get? path = some record := by
  rw [get?_committed] at h
  split at h
  · cases h
  rename_i hdeleted
  cases hlast : records.reverse.find? fun e => e.1 == path with
  | some e =>
    rw [hlast] at h
    cases h
    have he := List.mem_reverse.mp (List.mem_of_find?_eq_some hlast)
    have hpath : e.1 = path := by simpa using List.find?_some hlast
    exact Or.inl (hpath ▸ he)
  | none =>
    rw [hlast] at h
    refine Or.inr ⟨hdeleted, fun e he hpath => ?_, h⟩
    exact List.find?_eq_none.mp hlast e (List.mem_reverse.mpr he) (beq_iff_eq.mpr hpath)

end Finder

/-- The number of accesses, of some that change the file states from a position on, that are made
before one is refused. -/
def RunConditions.granted (c : RunConditions) (position : Nat) : Nat → Nat
  | 0 => 0
  | count + 1 =>
    match c.stateRefusal (.change position) with
    | none => c.granted (position + 1) count + 1
    | some _ => 0

namespace Finder

/-- The changes of a commit one after the other. -/
private def commitChanges (records : List (String × FileRecord)) (deleted : List String) :
    List (FileState → FileState) :=
  (records.map fun e s => s.insert e.1 e.2) ++ deleted.map fun path s => s.erase path

/-- The first changes of a commit are the commit of the first records and paths. -/
private theorem foldl_take_commitChanges (records : List (String × FileRecord))
    (deleted : List String) (n : Nat) (s : FileState) :
    ((commitChanges records deleted).take n).foldl (fun s change => change s) s =
      committed (records.take n) (deleted.take (n - records.length)) s := by
  rw [commitChanges, List.take_append, List.length_map, List.foldl_append, ← List.map_take,
    ← List.map_take, List.foldl_map, List.foldl_map]
  rfl

/-- The changes before the one that is refused are made. -/
private theorem commitFrom_cases {c : RunConditions} {stage : Stage} {position : Nat}
    {changes : List (FileState → FileState)} {f g : Finder} {r : Except FinderError Unit}
    (h : commitFrom c stage position changes f = (r, g)) :
    g = { f with
        fileState := ((changes.take (c.granted position changes.length)).foldl
          (fun s change => change s) f.fileState) } ∧
      (r = .ok () ∧ c.granted position changes.length = changes.length ∨
        ∃ reason, r = .error ⟨.dependency, stage, reason⟩) := by
  induction changes generalizing position f with
  | nil =>
    cases h
    exact ⟨rfl, Or.inl ⟨rfl, rfl⟩⟩
  | cons change rest ih =>
    rw [commitFrom] at h
    rw [List.length_cons, RunConditions.granted]
    rcases accessState_bind_cases h with ⟨reason, hrefused, rfl, rfl⟩ | ⟨hgranted, hk⟩
    · rw [hrefused]
      exact ⟨rfl, Or.inr ⟨reason, rfl⟩⟩
    · obtain ⟨hg, hend⟩ := ih (f := { f with fileState := change f.fileState }) hk
      rw [hgranted]
      refine ⟨hg, hend.imp_left fun ⟨hr, hn⟩ => ⟨hr, ?_⟩⟩
      rw [hn]

/-- The file states after the commit of some records and paths that is refused from some change
on. -/
def committedIn (c : RunConditions) (records : List (String × FileRecord)) (deleted : List String)
    (s : FileState) : FileState :=
  let n := c.granted 0 (records.length + deleted.length)
  committed (records.take n) (deleted.take (n - records.length)) s

/-- A commit writes all records and forgets all paths, or it is refused on the way. -/
theorem commit_cases {c : RunConditions} {records : List (String × FileRecord)}
    {deleted : List String} {f g : Finder} {r : Except FinderError Unit}
    (h : commit c records deleted f = (r, g)) :
    g = { f with fileState := committedIn c records deleted f.fileState } ∧
      (r = .ok () ∧ c.granted 0 (records.length + deleted.length) =
          records.length + deleted.length ∨
        ∃ reason, r = .error ⟨.dependency, f.progress.current, reason⟩) := by
  rw [commit, get_bind] at h
  obtain ⟨hg, hend⟩ := commitFrom_cases h
  simp only [List.length_append, List.length_map] at hg hend
  refine ⟨?_, hend⟩
  rw [hg]
  exact congrArg (fun s => ({ f with fileState := s } : Finder))
    (foldl_take_commitChanges records deleted _ f.fileState)

/-- What fails in the store is neither a dependency nor the configuration. -/
theorem faultOf_ne (cause : StoreError) :
    faultOf cause ≠ .dependency ∧ faultOf cause ≠ .configuration := by
  cases cause <;> exact ⟨nofun, nofun⟩

/-- A report leaves the index as it is, and fails only where the store cannot be counted. -/
theorem finishReport_cases {c : RunConditions} {o : RunOptions} {d : Detection}
    {mode : AnalysisMode} {changedFiles : Option (List String)} {f g : Finder}
    {r : Except FinderError Report} (h : finishReport c o d mode changedFiles f = (r, g)) :
    SameIndex f g ∧ ∀ e, r = .error e →
      (∃ cause, e.fault = faultOf cause) ∧ e.stage = f.progress.current := by
  have hcount : ∀ {r' : Except FinderError ComponentInfo} {f₁ : Finder}, describe c f = (r', f₁) →
      SameIndex f f₁ ∧ ∀ e, r' = .error e →
        (∃ cause, e.fault = faultOf cause) ∧ e.stage = f.progress.current := by
    intro r' f₁ hd
    rw [describe, get_bind, components] at hd
    have hback := f.store.stats_backend c.stats c.usage
    rcases hs : f.store.stats c.stats c.usage with ⟨s, answer⟩
    rw [hs] at hd hback
    dsimp only at hback
    have hsame : SameIndex f { f with store := s } := by
      refine ⟨?_, hback, rfl⟩
      simp only [setup, hback]
    cases answer with
    | ok stats =>
      cases hd
      refine ⟨hsame, fun e he => ?_⟩
      cases he
    | error cause =>
      cases hd
      refine ⟨hsame, fun e he => ?_⟩
      cases he
      exact ⟨⟨cause, rfl⟩, rfl⟩
  rw [finishReport] at h
  rcases RunStep.bind_cases h with ⟨e, he, rfl⟩ | ⟨info, f₁, hd, h⟩
  · obtain ⟨hsame, herr⟩ := hcount he
    refine ⟨hsame, fun e' he' => ?_⟩
    cases he'
    exact herr e rfl
  · obtain ⟨hsame, _⟩ := hcount hd
    cases h
    refine ⟨hsame.trans ⟨rfl, rfl, rfl⟩, fun e he => ?_⟩
    cases he

/-- The report of a run shows its duplicates, the number of its symbols and the changed files. -/
theorem finishReport_ok {c : RunConditions} {o : RunOptions} {d : Detection} {mode : AnalysisMode}
    {changedFiles : Option (List String)} {f g : Finder} {report : Report}
    (h : finishReport c o d mode changedFiles f = (.ok report, g)) :
    ∃ context : RunContext, report = Report.make d.duplicates context o.verbose ∧
      context.stats.symbolsExtracted = d.symbolsAnalyzed ∧ context.changedFiles = changedFiles := by
  obtain ⟨components, f₁, _, hk⟩ := RunStep.bind_ok h
  cases hk
  exact ⟨_, rfl, rfl, rfl⟩

/-- The symbols that a run finds in some files. -/
def symbolsIn (f : Finder) (c : RunConditions) (files : List String) : List Symbol :=
  (f.extractor.readings c.views.reads files 0).flatMap (·.2)

/-- The records that a run writes for some files. -/
def recordsIn (f : Finder) (c : RunConditions) (files : List String) : List (String × FileRecord) :=
  recordsOf c f.root (f.extractor.readings c.views.reads files 0)

/-- A finder after the files of a run were read: at most its counts of files differ. -/
structure Extracted (f f₁ : Finder) : Prop where
  same : SameIndex f f₁
  store : f₁.store = f.store
  engine : f₁.engine = f.engine
  progress : f₁.progress = f.progress

/-- The steps of indexing up to its end. -/
inductive IndexSteps (c : RunConditions) (o : RunOptions) (files deleted : List String)
    (mode : AnalysisMode) (changedFiles : Option (List String)) (f : Finder) :
    Except FinderError Report → Finder → Prop
  /-- None of the files could be read, or the program stopped. -/
  | unread {g : Finder} {e : FinderError} (hstage : e.stage = .extractingSymbols)
    (hsame : SameIndex f g) : IndexSteps c o files deleted mode changedFiles f (.error e) g
  /-- The search for duplicates failed. -/
  | undetected {f₁ g : Finder} {e : FinderError} (hf₁ : Extracted f f₁)
    (hdetect : detect c (f.symbolsIn c files) o.threshold f₁ = (.error e, g)) :
    IndexSteps c o files deleted mode changedFiles f (.error e) g
  /-- A change of the file states was refused. -/
  | refused {f₁ f₂ : Finder} {d : Detection} {reason : String} (hf₁ : Extracted f f₁)
    (hdetect : detect c (f.symbolsIn c files) o.threshold f₁ = (.ok d, f₂)) :
    IndexSteps c o files deleted mode changedFiles f
      (.error ⟨.dependency, f₂.progress.current, reason⟩)
      { f₂ with fileState := committedIn c (f.recordsIn c files) deleted f₂.fileState }
  /-- All changes were made, and the report followed. -/
  | reported {f₁ f₂ g : Finder} {d : Detection} {r : Except FinderError Report}
    (hf₁ : Extracted f f₁)
    (hdetect : detect c (f.symbolsIn c files) o.threshold f₁ = (.ok d, f₂))
    (hgranted : c.granted 0 ((f.recordsIn c files).length + deleted.length) =
      (f.recordsIn c files).length + deleted.length)
    (hreport : finishReport c o d mode changedFiles { f₂ with
      fileState := committedIn c (f.recordsIn c files) deleted f₂.fileState } = (r, g)) :
    IndexSteps c o files deleted mode changedFiles f r g

theorem indexFiles_steps {c : RunConditions} {o : RunOptions} {files deleted : List String}
    {mode : AnalysisMode} {changedFiles : Option (List String)} {f g : Finder}
    {r : Except FinderError Report}
    (h : indexFiles c o files deleted mode changedFiles f = (r, g)) :
    IndexSteps c o files deleted mode changedFiles f r g := by
  rw [indexFiles] at h
  rcases RunStep.bind_cases h with ⟨e, he, rfl⟩ | ⟨_, f₁, hx, hk⟩
  · obtain ⟨hsame, -, -, -, ⟨_, hr, hstage⟩ | hr⟩ := extractTargets_cases he
    · cases hr
      exact .unread hstage hsame
    · cases hr
  obtain ⟨hsame, hstore, hengine, hprogress, ⟨_, hr, _⟩ | hr⟩ := extractTargets_cases hx
  · cases hr
  cases hr
  have hf₁ : Extracted f f₁ := ⟨hsame, hstore, hengine, hprogress⟩
  rcases RunStep.bind_cases hk with ⟨e, hd, rfl⟩ | ⟨d, f₂, hd, hk⟩
  · exact .undetected hf₁ hd
  rcases RunStep.bind_cases hk with ⟨e, hc, rfl⟩ | ⟨_, f₃, hc, hk⟩
  · obtain ⟨rfl, ⟨hr, _⟩ | ⟨reason, hr⟩⟩ := commit_cases hc
    · cases hr
    · cases hr
      exact .refused hf₁ hd
  · obtain ⟨rfl, ⟨_, hgranted⟩ | ⟨_, hr⟩⟩ := commit_cases hc
    · exact .reported hf₁ hd hgranted hk
    · cases hr

/-- A search for duplicates may as well be told from the finder before its files were read. -/
theorem Extracted.detect_cases {c : RunConditions} {symbols : List Symbol}
    {threshold : Option Float32} {f f₁ g : Finder} {r : Except FinderError Detection}
    (hf₁ : Extracted f f₁) (hp : f.progress.current = .extractingSymbols)
    (h : detect c symbols threshold f₁ = (r, g)) :
    (∃ e, r = .error e ∧ e.Early ∧ SameIndex f g) ∨
      ∃ vectors answer,
        (f.engine.embed ((f.selected symbols).map Symbol.canonicalText)).2 = .ok vectors ∧
        Searched c (f.selected symbols) vectors
          (threshold.getD f.config.finder.thresholds.medium) f g answer ∧
        ((∃ e, r = .error e ∧ e.stage = .findingDuplicates) ∨
          ∃ answers, answer = .ok answers ∧ g.progress.current = .formattingResults ∧
            r = .ok ⟨duplicatesIn (f.selected symbols) answers f.config.finder.thresholds,
              (f.selected symbols).length, vectors.length⟩) := by
  have hconfig : f₁.config = f.config := congrArg Setup.config hf₁.same.setup
  rw [← selected_of_setup hf₁.same.setup, ← hf₁.engine, ← hconfig]
  refine (Finder.detect_cases (by rw [hf₁.progress, hp]) h).imp ?_ ?_
  · rintro ⟨e, hr, hearly, hsame⟩
    exact ⟨e, hr, hearly, hf₁.same.trans hsame⟩
  · rintro ⟨vectors, answer, hembed, hsearch, hend⟩
    exact ⟨vectors, answer, hembed, hsearch.of_sameIndex hf₁.same hf₁.store, hend⟩

/-- A search for duplicates that succeeds was answered by the store. -/
theorem Extracted.detect_ok {c : RunConditions} {symbols : List Symbol}
    {threshold : Option Float32} {f f₁ g : Finder} {d : Detection}
    (hf₁ : Extracted f f₁) (hp : f.progress.current = .extractingSymbols)
    (h : detect c symbols threshold f₁ = (.ok d, g)) :
    ∃ vectors answers,
      (f.engine.embed ((f.selected symbols).map Symbol.canonicalText)).2 = .ok vectors ∧
      Searched c (f.selected symbols) vectors
        (threshold.getD f.config.finder.thresholds.medium) f g (.ok answers) ∧
      g.progress.current = .formattingResults ∧
      d = ⟨duplicatesIn (f.selected symbols) answers f.config.finder.thresholds,
        (f.selected symbols).length, vectors.length⟩ := by
  rcases hf₁.detect_cases hp h with ⟨_, hr, _⟩ |
    ⟨vectors, _, hembed, hsearch, ⟨_, hr, _⟩ | ⟨answers, rfl, hcurrent, hr⟩⟩
  · cases hr
  · cases hr
  · cases hr
    exact ⟨vectors, answers, hembed, hsearch, hcurrent, rfl⟩

/-- The symbols that a run of `f` selects in some files are stored over the rows `rows`, and the
first `n` changes are made to the file states `states`. -/
structure Reindexed (c : RunConditions) (files deleted : List String) (rows : String → Option Row)
    (states : FileState) (f : Finder) (vectors : List Embedding) (n : Nat) (g : Finder) : Prop where
  setup : g.setup = f.setup
  embed : (f.engine.embed ((f.selected (f.symbolsIn c files)).map Symbol.canonicalText)).2 =
    .ok vectors
  rows : ∀ id, g.row? id = ((Backend.lastWith (symbolRecords (f.selected (f.symbolsIn c files))
    vectors) id).map f.store.backend.rowOf).or (rows id)
  fileState : g.fileState = committed ((f.recordsIn c files).take n)
    (deleted.take (n - (f.recordsIn c files).length)) states

/-- A run that makes all its changes makes the whole commit. -/
theorem Reindexed.fileState_all {c : RunConditions} {files deleted : List String}
    {rows : String → Option Row} {states : FileState} {f g : Finder} {vectors : List Embedding}
    (h : Reindexed c files deleted rows states f vectors
      ((f.recordsIn c files).length + deleted.length) g) :
    g.fileState = committed (f.recordsIn c files) deleted states := by
  rw [h.fileState, List.take_of_length_le (Nat.le_add_right _ _), Nat.add_sub_cancel_left,
    List.take_length]

/-- The vectors of a run are stored, and either the run is cut off before the last change of a file
state, or all changes are made and at most the report fails. -/
inductive Stores (c : RunConditions) (files deleted : List String) (rows : String → Option Row)
    (states : FileState) (f : Finder) (r : Except FinderError Report) (g : Finder) : Prop
  | cutOff (vectors : List Embedding) (n : Nat) (e : FinderError) (hr : r = .error e)
    (he : e.CutsOff) (h : Reindexed c files deleted rows states f vectors n g)
  | complete (vectors : List Embedding) (hr : ∀ e, r = .error e → e.Late)
    (h : Reindexed c files deleted rows states f vectors
      ((f.recordsIn c files).length + deleted.length) g)

section Stored

variable {c : RunConditions} {files deleted : List String} {rows : String → Option Row}
  {states : FileState} {f g : Finder} {r : Except FinderError Report}

/-- However the run goes on, its vectors are stored. -/
theorem Stores.reindexed (h : Stores c files deleted rows states f r g) :
    ∃ vectors n, Reindexed c files deleted rows states f vectors n g := by
  cases h with
  | cutOff vectors n e hr he h => exact ⟨vectors, n, h⟩
  | complete vectors hr h => exact ⟨vectors, _, h⟩

theorem Stores.not_early (h : Stores c files deleted rows states f r g) {e : FinderError}
    (he : r = .error e) : ¬e.Early := by
  cases h with
  | cutOff vectors n e' hr hcut h =>
    cases hr.symm.trans he
    exact fun hearly => hearly.not_cutsOff hcut
  | complete vectors hr h => exact (hr e he).not_early

/-- After the run every record is one of those that it writes or stood there before. -/
theorem Reindexed.record_cases {vectors : List Embedding} {n : Nat}
    (h : Reindexed c files deleted rows states f vectors n g) {path : String} {record : FileRecord}
    (hget : g.fileState.get? path = some record) :
    (path, record) ∈ f.recordsIn c files ∨ states.get? path = some record := by
  rw [h.fileState] at hget
  rcases committed_cases hget with he | ⟨_, _, hold⟩
  · exact Or.inl (List.mem_of_mem_take he)
  · exact Or.inr hold

end Stored

/-- Indexing stops with the index as it was, or stores all vectors. -/
theorem indexFiles_cases {c : RunConditions} {o : RunOptions} {files deleted : List String}
    {mode : AnalysisMode} {changedFiles : Option (List String)} {f g : Finder}
    {r : Except FinderError Report} (hp : f.progress.current = .extractingSymbols)
    (h : indexFiles c o files deleted mode changedFiles f = (r, g)) :
    (∃ e, r = .error e ∧ e.Early ∧ SameIndex f g) ∨
      Stores c files deleted f.row? f.fileState f r g := by
  cases indexFiles_steps h with
  | unread hstage hsame => exact Or.inl ⟨_, rfl, Or.inl hstage, hsame⟩
  | undetected hf₁ hdetect =>
    rcases hf₁.detect_cases hp hdetect with ⟨_, hr, hearly, hsame⟩ |
      ⟨vectors, _, hembed, hsearch, ⟨_, hr, hstage⟩ | ⟨_, _, _, hr⟩⟩
    · cases hr
      exact Or.inl ⟨_, rfl, hearly, hsame⟩
    · cases hr
      refine Or.inr (.cutOff vectors 0 _ rfl (Or.inl hstage)
        ⟨hsearch.stored.setup, hembed, hsearch.stored.rows, ?_⟩)
      rw [hsearch.fileState, List.take_zero, Nat.zero_sub, List.take_zero]
      rfl
    · cases hr
  | refused hf₁ hdetect =>
    obtain ⟨vectors, _, hembed, hsearch, hcurrent, -⟩ := hf₁.detect_ok hp hdetect
    rw [hsearch.fileState]
    exact Or.inr (.cutOff vectors _ _ rfl (Or.inr ⟨hcurrent, rfl⟩)
      ⟨hsearch.stored.setup, hembed, hsearch.stored.rows, rfl⟩)
  | reported hf₁ hdetect hgranted hreport =>
    obtain ⟨vectors, _, hembed, hsearch, hcurrent, -⟩ := hf₁.detect_ok hp hdetect
    obtain ⟨hsame, hfault⟩ := finishReport_cases hreport
    refine Or.inr (.complete vectors (fun e he => ?_)
      ⟨hsame.setup.trans hsearch.stored.setup, hembed, fun id => ?_, ?_⟩)
    · obtain ⟨⟨cause, hf⟩, hs⟩ := hfault e he
      exact ⟨hs.trans hcurrent, hf ▸ (faultOf_ne cause).1⟩
    · rw [hsame.row? id]
      exact hsearch.stored.rows id
    · rw [hsame.fileState, hsearch.fileState]
      change committedIn c (f.recordsIn c files) deleted f.fileState = _
      rw [committedIn, hgranted]

end Finder

end CodeClones
