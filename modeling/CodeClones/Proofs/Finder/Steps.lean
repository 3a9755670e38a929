import CodeClones.Finder.Run
import CodeClones.Proofs.Extraction
import CodeClones.Proofs.Store.Calls

/-!
# Steps of a run

What each step of a run does to the index, that is to the rows of the vector store and to the file
states. All else that a step changes are counters, connections, remembered answers and the progress.
A step that fails says at which stage, so that the end of a run tells how far it has come.
-/

namespace CodeClones

namespace RunStep

variable {α β : Type}

theorem bind_of_ok {x : RunStep α} {k : α → RunStep β} {f g : Finder} {a : α}
    (hx : x f = (.ok a, g)) : (x >>= k) f = k a g := by
  change ExceptT.bindCont k (x f).1 (x f).2 = _
  rw [hx]
  rfl

theorem bind_of_error {x : RunStep α} {k : α → RunStep β} {f g : Finder} {e : FinderError}
    (hx : x f = (.error e, g)) : (x >>= k) f = (.error e, g) := by
  change ExceptT.bindCont k (x f).1 (x f).2 = _
  rw [hx]
  rfl

/-- Two steps end in the failure of the first one or go on from where it ends. -/
theorem bind_cases {x : RunStep α} {k : α → RunStep β} {f h : Finder} {r : Except FinderError β}
    (he : (x >>= k) f = (r, h)) :
    (∃ e, x f = (.error e, h) ∧ r = .error e) ∨ ∃ a g, x f = (.ok a, g) ∧ k a g = (r, h) := by
  rcases hx : x f with ⟨e | a, g⟩
  · rw [bind_of_error hx] at he
    cases he
    exact Or.inl ⟨e, rfl, rfl⟩
  · rw [bind_of_ok hx] at he
    exact Or.inr ⟨a, g, rfl, he⟩

/-- Two steps succeed only if both do. -/
theorem bind_ok {x : RunStep α} {k : α → RunStep β} {f h : Finder} {b : β}
    (he : (x >>= k) f = (.ok b, h)) : ∃ a g, x f = (.ok a, g) ∧ k a g = (.ok b, h) := by
  rcases bind_cases he with ⟨_, _, hr⟩ | hk
  · cases hr
  · exact hk

end RunStep

namespace Finder

/-- What no call changes: the workspace, the configuration, and all that symbols, vectors and rows
are made by. -/
structure Setup where
  root : String
  config : Config
  filter : SymbolFilter
  sources : String
  readers : Readers
  model : Model
  batchSize : Nat
  normalize : Bool
  rowOf : Record → Row

/-- The setup of a finder. -/
def setup (f : Finder) : Setup where
  root := f.root
  config := f.config
  filter := f.filter
  sources := f.extractor.root
  readers := f.extractor.toReaders
  model := f.engine.model
  batchSize := f.engine.batchSize
  normalize := f.engine.normalize
  rowOf := f.store.backend.rowOf

/-- The stored row under an identifier. -/
def row? (f : Finder) (id : String) : Option Row := f.store.backend.row? id

/-- Two finders with the same index: they differ at most in what no later index depends on. -/
structure SameIndex (f g : Finder) : Prop where
  setup : g.setup = f.setup
  backend : g.store.backend = f.store.backend
  fileState : g.fileState = f.fileState

theorem SameIndex.refl (f : Finder) : SameIndex f f := ⟨rfl, rfl, rfl⟩

theorem SameIndex.trans {f g h : Finder} (hfg : SameIndex f g) (hgh : SameIndex g h) :
    SameIndex f h :=
  ⟨hgh.setup.trans hfg.setup, hgh.backend.trans hfg.backend, hgh.fileState.trans hfg.fileState⟩

theorem SameIndex.row? {f g : Finder} (h : SameIndex f g) (id : String) :
    g.row? id = f.row? id := by
  rw [Finder.row?, h.backend]
  rfl

theorem get_bind {β : Type} (k : Finder → RunStep β) (f : Finder) :
    ((get : RunStep Finder) >>= k) f = k f f := rfl

theorem advance_apply (next : Stage) (f : Finder) :
    advance next f = (.ok (), { f with progress := f.progress.advance next }) := rfl

theorem failAt_apply {α : Type} (fault : Fault) (stage : Stage) (reason : String) (f : Finder) :
    (failAt fault stage reason : RunStep α) f = (.error ⟨fault, stage, reason⟩, f) := rfl

/-- A call on the store fails with the failure of the call, at the given stage. -/
theorem callStore_cases {α : Type} {stage : Stage}
    {call : VectorStore → VectorStore × Except StoreError α} {f g : Finder}
    {r : Except FinderError α} (h : callStore stage call f = (r, g)) :
    ∃ s answer, call f.store = (s, answer) ∧ g = { f with store := s } ∧
      ((∃ a, answer = .ok a ∧ r = .ok a) ∨
        ∃ cause, answer = .error cause ∧ r = .error ⟨faultOf cause, stage, cause.message⟩) := by
  rcases hc : call f.store with ⟨s, answer⟩
  refine ⟨s, answer, rfl, ?_⟩
  rw [callStore, get_bind, hc] at h
  cases answer with
  | ok a =>
    cases h
    exact ⟨rfl, Or.inl ⟨a, rfl, rfl⟩⟩
  | error cause =>
    cases h
    exact ⟨rfl, Or.inr ⟨cause, rfl, rfl⟩⟩

/-- An access to the file states is made, or the run stops where it is. -/
theorem accessState_cases {c : RunConditions} {stage : Stage} {access : StateAccess} {f g : Finder}
    {r : Except FinderError Unit} (h : accessState c stage access f = (r, g)) :
    g = f ∧ (r = .ok () ∧ c.stateRefusal access = none ∨
      ∃ reason, c.stateRefusal access = some reason ∧ r = .error ⟨.dependency, stage, reason⟩) := by
  rw [accessState] at h
  cases hs : c.stateRefusal access with
  | none =>
    rw [hs] at h
    cases h
    exact ⟨rfl, Or.inl ⟨rfl, rfl⟩⟩
  | some reason =>
    rw [hs] at h
    cases h
    exact ⟨rfl, Or.inr ⟨reason, rfl, rfl⟩⟩

/-- What follows a call on the store goes on with its answer, unless the call fails. -/
theorem callStore_bind_cases {α β : Type} {stage : Stage}
    {call : VectorStore → VectorStore × Except StoreError α} {k : α → RunStep β} {f g : Finder}
    {r : Except FinderError β} (h : (callStore stage call >>= k) f = (r, g)) :
    ∃ s answer, call f.store = (s, answer) ∧
      ((∃ cause, answer = .error cause ∧ r = .error ⟨faultOf cause, stage, cause.message⟩ ∧
          g = { f with store := s }) ∨
        ∃ a, answer = .ok a ∧ k a { f with store := s } = (r, g)) := by
  rcases RunStep.bind_cases h with ⟨e, he, rfl⟩ | ⟨a, f₁, ha, hk⟩
  · obtain ⟨s, answer, hs, rfl, ⟨_, _, hr⟩ | ⟨cause, rfl, hr⟩⟩ := callStore_cases he
    · cases hr
    · cases hr
      exact ⟨s, _, hs, Or.inl ⟨cause, rfl, rfl, rfl⟩⟩
  · obtain ⟨s, answer, hs, rfl, ⟨_, rfl, hr⟩ | ⟨_, _, hr⟩⟩ := callStore_cases ha
    · cases hr
      exact ⟨s, _, hs, Or.inr ⟨a, rfl, hk⟩⟩
    · cases hr

/-- What follows an access to the file states goes on where the run was, unless it is refused. -/
theorem accessState_bind_cases {β : Type} {c : RunConditions} {stage : Stage}
    {access : StateAccess} {k : Unit → RunStep β} {f g : Finder} {r : Except FinderError β}
    (h : (accessState c stage access >>= k) f = (r, g)) :
    (∃ reason, c.stateRefusal access = some reason ∧ r = .error ⟨.dependency, stage, reason⟩ ∧
        g = f) ∨ c.stateRefusal access = none ∧ k () f = (r, g) := by
  rcases RunStep.bind_cases h with ⟨e, he, rfl⟩ | ⟨_, f₁, ha, hk⟩
  · obtain ⟨rfl, ⟨hr, _⟩ | ⟨reason, hrefused, hr⟩⟩ := accessState_cases he
    · cases hr
    · cases hr
      exact Or.inl ⟨reason, hrefused, rfl, rfl⟩
  · obtain ⟨rfl, ⟨_, hgranted⟩ | ⟨_, _, hr⟩⟩ := accessState_cases ha
    · exact Or.inr ⟨hgranted, hk⟩
    · cases hr

/-- The symbols that are selected depend on the setup only. -/
theorem selected_of_setup {f g : Finder} (h : g.setup = f.setup) : g.selected = f.selected := by
  have hfilter : g.filter = f.filter := congrArg Setup.filter h
  have hconfig : g.config = f.config := congrArg Setup.config h
  funext symbols
  rw [selected, selected, hfilter, hconfig]

/-- Extraction gives the symbols and the records of the files that were read, or fails: because none
could be, or because the program stops. It changes nothing else than the counts of files. -/
theorem extractTargets_cases {c : RunConditions} {files : List String} {f g : Finder}
    {r : Except FinderError (List Symbol × List (String × FileRecord))}
    (h : extractTargets c files f = (r, g)) :
    SameIndex f g ∧ g.store = f.store ∧ g.engine = f.engine ∧ g.progress = f.progress ∧
      ((∃ e, r = .error e ∧ e.stage = .extractingSymbols) ∨
        r = .ok ((f.extractor.readings c.views.reads files 0).flatMap (·.2),
          recordsOf c f.root (f.extractor.readings c.views.reads files 0))) := by
  rw [extractTargets, get_bind] at h
  obtain ⟨hroot, hreaders⟩ := f.extractor.extract_keeps c.views.reads files
  have hfiles : ∀ batch, (f.extractor.extract c.views.reads files).2 = .ok batch →
      batch.files = f.extractor.readings c.views.reads files 0 :=
    fun batch => Extractor.files_extract
  generalize f.extractor.extract c.views.reads files = extraction at h hroot hreaders hfiles
  obtain ⟨extractor, answer⟩ := extraction
  dsimp only at hroot hreaders
  have hsetup : ({ f with extractor } : Finder).setup = f.setup := by
    simp only [setup, hroot, hreaders]
  have hsame : SameIndex f { f with extractor } := ⟨hsetup, rfl, rfl⟩
  cases answer with
  | error cause =>
    cases h
    exact ⟨hsame, rfl, rfl, rfl, Or.inl ⟨_, rfl, rfl⟩⟩
  | ok batch =>
    rw [← hfiles batch rfl]
    cases hf : batch.files with
    | nil =>
      cases hs : batch.skipped.getLast? with
      | some last =>
        simp only [hf, hs] at h
        cases h
        exact ⟨hsame, rfl, rfl, rfl, Or.inl ⟨_, rfl, rfl⟩⟩
      | none =>
        simp only [ExtractionBatch.symbols, hf, hs] at h
        cases h
        exact ⟨hsame, rfl, rfl, rfl, Or.inr rfl⟩
    | cons file rest =>
      simp only [ExtractionBatch.symbols, hf] at h
      cases h
      exact ⟨hsame, rfl, rfl, rfl, Or.inr rfl⟩

/-- A run that has read its files was not stopped at one of them. -/
theorem isOk_extract_of_extractTargets {c : RunConditions} {files : List String} {f g : Finder}
    {found : List Symbol × List (String × FileRecord)}
    (h : extractTargets c files f = (.ok found, g)) :
    (f.extractor.extract c.views.reads files).2.isOk := by
  rw [extractTargets, get_bind] at h
  cases hbatch : (f.extractor.extract c.views.reads files).2 with
  | ok batch => rfl
  | error cause =>
    simp only [hbatch] at h
    cases h

end Finder

end CodeClones
