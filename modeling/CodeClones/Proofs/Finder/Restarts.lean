import CodeClones.Proofs.Finder.Completeness
import CodeClones.Proofs.Finder.Kin

/-!
# Finders of one workspace

File states are kept for a workspace, vectors in a collection of a database or in memory only. A
finder that is opened later takes over the file states of the last one even where it does not have
its vectors. An index stays complete over all finders of a workspace if each of them starts without
file states or goes on with the vectors of the last one.
-/

namespace CodeClones

/-- The collection of a database in which vectors are kept, unless they are kept in memory. -/
def StoreConfig.collection? (config : StoreConfig) : Option String :=
  match config.backend with
  | .memory => none
  | .sqlite => some config.collection

namespace Disk

variable {d d' : Disk} {root : String}

/-- The file states of a workspace are those that were kept, or empty. -/
theorem openFileState_cases {s : FileState} (h : d.openFileState root = .ok (d', s)) :
    s = {} ∨ d.fileStates.get? (fileStateFile root) = some s := by
  simp only [openFileState] at h
  split at h
  · cases h
  split at h
  · cases h
  cases h
  split
  · cases d.fileStates.get? (fileStateFile root) with
    | none => exact Or.inl rfl
    | some s => exact Or.inr rfl
  · exact Or.inl rfl

/-- The backend of a configuration keeps vectors where it says. One in memory is empty, one in a
database has what was kept there. -/
theorem openBackend_cases {config : StoreConfig} {b : Backend}
    (h : d.openBackend root config = .ok (d', b)) : d'.fileStates = d.fileStates ∧
      b.collection? = config.collection? ∧ (config.backend = .memory → b = .memory "memory" {}) ∧
      ∀ db, config.backend = .sqlite → d.tree.holds (vectorFile root config) →
        d.vectors.get? (vectorFile root config) = some db → b = .database db config.collection := by
  rw [openBackend] at h
  rw [StoreConfig.collection?]
  cases hb : config.backend with
  | memory =>
    rw [hb] at h
    cases h
    exact ⟨rfl, rfl, fun _ => rfl, fun db hsqlite => nomatch hsqlite⟩
  | sqlite =>
    rw [hb] at h
    simp only [openVectors] at h
    split at h
    · cases h
    split at h
    · cases h
    cases h
    refine ⟨rfl, rfl, (fun hmemory => nomatch hmemory), fun db _ hthere hkept => ?_⟩
    rw [if_pos hthere, hkept]
    rfl

end Disk

/-- An engine has the model that it is started with. -/
theorem Engine.model_start {model : Model} {config : EmbeddingsConfig} {e : Engine}
    (h : start model config = .ok e) : e.model = model ∧ e.normalize = config.normalize := by
  simp only [start] at h
  split at h
  · cases h
  split at h
  · cases h
  · split at h
    · cases h
      exact ⟨rfl, rfl⟩
    · cases h
  · cases h

/-- A store has the backend that it is started with. -/
theorem VectorStore.backend_start {backend : Backend} {config : StoreConfig} {c : Conditions}
    {s : VectorStore} (h : start backend config c = .ok s) : s.backend = backend := by
  simp only [start] at h
  split at h
  · cases h
  · cases h
    rfl

namespace Finder

variable {root : String} {readers : Readers} {world : Set (String × ByteArray)}

/-- A finder as it is opened on a disk. -/
structure Opened (root : String) (d : Disk) (config : Config) (readers : Readers)
    (f : Finder) : Prop where
  workspace : f.root = root
  settings : f.config = config
  reader : f.extractor = { readers with root }
  filter : SymbolFilter.make config.finder.includeSymbolTypes config.finder.minSymbolLength
    config.finder.excludeFilePatterns = .ok f.filter
  engine : openEngine root d.tree config = .ok f.engine
  states : f.fileState = {} ∨ d.fileStates.get? (Disk.fileStateFile root) = some f.fileState
  collection : f.store.backend.collection? = config.store.collection?
  memory : config.store.backend = .memory → f.store.backend = .memory "memory" {}
  database : ∀ db, config.store.backend = .sqlite →
    d.tree.holds (Disk.vectorFile root config.store) →
    d.vectors.get? (Disk.vectorFile root config.store) = some db →
      f.store.backend = .database db config.store.collection

private theorem openStore_ok {d d' : Disk} {config : Config} {c : Conditions} {s : VectorStore}
    (h : openStore root d config c = .ok (d', s)) :
    d.openBackend root (storeConfig config) = .ok (d', s.backend) := by
  simp only [openStore, bind, Except.bind] at h
  cases hb : d.openBackend root (storeConfig config) with
  | error cause =>
    rw [hb] at h
    cases h
  | ok opened =>
    rw [hb] at h
    dsimp only at h
    cases hs : VectorStore.start opened.2 (storeConfig config) c with
    | error cause =>
      rw [hs] at h
      cases h
    | ok store =>
      rw [hs] at h
      cases h
      exact congrArg Except.ok (Prod.ext rfl (VectorStore.backend_start hs).symm)

private theorem assemble_ok {d d' : Disk} {config : Config} {engine : Engine} {store : VectorStore}
    {f : Finder} (h : assemble root d config readers engine store = .ok (d', f)) :
    ∃ filter fileState, SymbolFilter.make config.finder.includeSymbolTypes
        config.finder.minSymbolLength config.finder.excludeFilePatterns = .ok filter ∧
      d.openFileState root = .ok (d', fileState) ∧
      f = { root, config, extractor := { readers with root }, filter, engine, store, fileState } := by
  simp only [assemble, bind, Except.bind] at h
  split at h
  · cases h
  cases hfilter : SymbolFilter.make config.finder.includeSymbolTypes
    config.finder.minSymbolLength config.finder.excludeFilePatterns with
  | error refused =>
    rw [hfilter] at h
    cases h
  | ok filter =>
    rw [hfilter] at h
    dsimp only at h
    split at h
    · cases h
    · rename_i hfile
      cases h
      exact ⟨filter, _, rfl, hfile, rfl⟩

/-- What the parts of a new finder are made of. -/
theorem opened_of_start {d d' : Disk} {config : Config} {c : Conditions} {f : Finder}
    (h : start root d config readers c = .ok (d', f)) : f.Opened root d config readers := by
  simp only [start, bind, Except.bind] at h
  split at h
  · cases h
  split at h
  · cases h
  rename_i hengine
  split at h
  · cases h
  rename_i hopened
  obtain ⟨hstates, hcollection, hmemory, hdatabase⟩ := Disk.openBackend_cases (openStore_ok hopened)
  obtain ⟨_, _, hfilter, hfile, rfl⟩ := assemble_ok h
  exact ⟨rfl, rfl, rfl, hfilter, hengine, hstates ▸ Disk.openFileState_cases hfile, hcollection,
    hmemory, hdatabase⟩

/-- The engine that hashes words is given by its configuration. -/
theorem openEngine_mock {t : Tree} {config : Config} {e : Engine}
    (h : openEngine root t config = .ok e) (hmock : config.embeddings.provider = .mock) :
    e.model = Model.hashed config.embeddings.dimension ∧
      e.normalize = config.embeddings.normalize := by
  rw [openEngine, loadModel, hmock] at h
  simp only [Except.bind] at h
  split at h
  · rename_i hstart
    cases h
    exact Engine.model_start hstart
  · cases h

/-- The finders of a workspace one after the other, and the disk on which the present one was
opened. The first one finds no file states. Files may change at any time; what a finder keeps is on
the disk when the next one is opened, with whatever configuration. -/
inductive Session (root : String) (readers : Readers) (runs : Finder → Call → Prop)
    (opens : Tree → Finder → Finder → Prop) : Disk → Finder → Prop
  | first {d d' : Disk} {config : Config} {c : Conditions} {f : Finder}
    (hstart : start root d config readers c = .ok (d', f))
    (hnew : d.fileStates.get? (Disk.fileStateFile root) = none) :
    Session root readers runs opens d' f
  | run {d : Disk} {f : Finder} {call : Call} (h : Session root readers runs opens d f)
    (hrun : runs f call) : Session root readers runs opens d (call.after f)
  | reopen {d d' : Disk} {t : Tree} {config : Config} {c : Conditions} {f g : Finder}
    (h : Session root readers runs opens d f)
    (hstart : start root { f.save d with tree := t } config readers c = .ok (d', g))
    (hopen : opens t f g) : Session root readers runs opens d' g

/-- What holds of all finders of a workspace: they read there, with the same readers, and keep their
vectors where their configuration says. -/
structure Belongs (root : String) (readers : Readers) (f : Finder) : Prop where
  workspace : f.root = root
  sources : f.extractor.root = root
  readers : f.extractor.toReaders = readers
  collection : f.store.backend.collection? = f.config.store.collection?

theorem Opened.belongs {d : Disk} {config : Config} {f : Finder}
    (h : f.Opened root d config readers) : f.Belongs root readers :=
  ⟨h.workspace, by rw [h.reader], by rw [h.reader], h.settings.symm ▸ h.collection⟩

theorem Belongs.rooted {f : Finder} (hroot : FilePath.isAbsolute root) (h : f.Belongs root readers) :
    f.Rooted :=
  ⟨h.workspace.symm ▸ hroot, h.sources.trans h.workspace.symm⟩

theorem Belongs.distinguished {f : Finder} (hworld : Distinguished { readers with root } world)
    (h : f.Belongs root readers) : Distinguished f.extractor world :=
  hworld.congr h.readers

theorem Belongs.after {f : Finder} (h : f.Belongs root readers) (call : Call) :
    (call.after f).Belongs root readers := by
  have hkin := Call.kin_after f call
  have hconfig : (call.after f).config = f.config := congrArg Setup.config hkin.setup
  refine ⟨?_, ?_, ?_, ?_⟩
  · exact (congrArg Setup.root hkin.setup).trans h.workspace
  · exact (congrArg Setup.sources hkin.setup).trans h.sources
  · exact (congrArg Setup.readers hkin.setup).trans h.readers
  · rw [hkin.store.collection, h.collection, hconfig]

/-- A finder goes on with the vectors of the one before it: they are in the same collection of a
database that is still there, made by the same model, for all symbols that it accepts. -/
structure Resumes (t : Tree) (f g : Finder) : Prop where
  database : g.config.store.backend = .sqlite
  collection : g.config.store.collection? = f.config.store.collection?
  file : Disk.vectorFile g.root g.config.store = Disk.vectorFile f.root f.config.store
  there : t.holds (Disk.vectorFile g.root g.config.store)
  model : g.engine.model = f.engine.model
  normalize : g.engine.normalize = f.engine.normalize
  accepts : ∀ s, g.filter.accepts s → f.filter.accepts s

/-- A finder starts without file states or goes on with the vectors of the one before it. -/
def OpensSafely (t : Tree) (f g : Finder) : Prop := g.fileState = {} ∨ Resumes t f g

/-- The file states that a finder finds are those of the one before it, or empty. -/
theorem Opened.fileState_reopened {d : Disk} {t : Tree} {config : Config} {f g : Finder}
    (hf : f.Belongs root readers) (h : g.Opened root { f.save d with tree := t } config readers) :
    g.fileState = {} ∨ g.fileState = f.fileState := by
  refine h.states.imp_right fun hkept => ?_
  rw [save, Disk.saveFileState, SortedMap.get?_insert, hf.workspace, if_pos rfl] at hkept
  exact (Option.some.inj hkept).symm

/-- A finder that goes on with the vectors of the one before it has the same rows. -/
theorem Opened.backend_reopened {d : Disk} {t : Tree} {config : Config} {f g : Finder}
    (hf : f.Belongs root readers) (h : g.Opened root { f.save d with tree := t } config readers)
    (hresumes : Resumes t f g) : g.store.backend = f.store.backend := by
  have hg := h.settings
  subst hg
  have hname := hf.collection.trans hresumes.collection.symm
  rw [StoreConfig.collection?, hresumes.database] at hname
  cases hb : f.store.backend with
  | memory name stored =>
    rw [hb] at hname
    cases hname
  | database db collection =>
    rw [hb] at hname
    cases hname
    have hfile := hresumes.file
    rw [h.workspace] at hfile
    refine h.database db hresumes.database (h.workspace ▸ hresumes.there) ?_
    rw [save, hb, Disk.saveVectors, Disk.saveFileState, hfile]
    exact (SortedMap.get?_insert ..).trans (if_pos rfl)

/-- A finder that is opened with its vectors in memory passes over files safely only where nothing in
them is accepted. -/
theorem Opened.passesSafely_iff {d : Disk} {config : Config} {g : Finder} {t : Tree}
    {files : List String} (h : g.Opened root d config readers)
    (hmemory : config.store.backend = .memory) : g.PassesSafely t files ↔
      ∀ p ∈ files, ¬g.Changed t p → ∀ found, g.foundAt? t p = some found →
        ∀ s ∈ found.2, ¬g.filter.accepts s := by
  have hnone : ∀ symbols s, ¬g.Shows symbols s := by
    rintro symbols s ⟨_, _, _, v, _, hrow⟩
    rw [row?, h.memory hmemory] at hrow
    cases hrow
  simp only [PassesSafely, ShowsAll, hnone, imp_false]

/-- A finder that is opened with the configuration of the one before it goes on with its vectors, if
words are hashed and the database is still there. -/
theorem Opened.resumes {d₀ d : Disk} {t : Tree} {config : Config} {first f g : Finder}
    (h₀ : first.Opened root d₀ config readers) (hkin : first.Kin f)
    (h : g.Opened root { f.save d with tree := t } config readers)
    (hsqlite : config.store.backend = .sqlite) (hmock : config.embeddings.provider = .mock)
    (hthere : t.holds (Disk.vectorFile root config.store)) : Resumes t f g := by
  have hconfig : f.config = g.config :=
    (congrArg Setup.config hkin.setup).trans (h₀.settings.trans h.settings.symm)
  have hroot : f.root = g.root :=
    (congrArg Setup.root hkin.setup).trans (h₀.workspace.trans h.workspace.symm)
  have hfilter : f.filter = g.filter :=
    (congrArg Setup.filter hkin.setup).trans (Except.ok.inj (h₀.filter.symm.trans h.filter))
  obtain ⟨hmodel₀, hnormalize₀⟩ := openEngine_mock h₀.engine hmock
  obtain ⟨hmodel, hnormalize⟩ := openEngine_mock h.engine hmock
  exact
    { database := h.settings ▸ hsqlite
      collection := by rw [hconfig]
      file := by rw [hroot, hconfig]
      there := by rw [h.workspace, h.settings]; exact hthere
      model := hmodel.trans (hmodel₀.symm.trans (congrArg Setup.model hkin.setup).symm)
      normalize :=
        hnormalize.trans (hnormalize₀.symm.trans (congrArg Setup.normalize hkin.setup).symm)
      accepts := fun s hs => hfilter ▸ hs }

namespace Session

variable {runs : Finder → Call → Prop} {opens : Tree → Finder → Finder → Prop} {d : Disk}
  {f : Finder}

/-- Runs and openings that are allowed may as well be told more generally. -/
theorem mono {runs' : Finder → Call → Prop} {opens' : Tree → Finder → Finder → Prop}
    (h : Session root readers runs opens d f) (hruns : ∀ f call, runs f call → runs' f call)
    (hopens : ∀ t f g, opens t f g → opens' t f g) : Session root readers runs' opens' d f := by
  induction h with
  | first hstart hnew => exact .first hstart hnew
  | run h hrun ih => exact .run ih (hruns _ _ hrun)
  | reopen h hstart hopen ih => exact .reopen ih hstart (hopens _ _ _ hopen)

theorem belongs (h : Session root readers runs opens d f) : f.Belongs root readers := by
  induction h with
  | first hstart hnew => exact (opened_of_start hstart).belongs
  | run h hrun ih => exact ih.after _
  | reopen h hstart hopen ih => exact (opened_of_start hstart).belongs

private theorem fileState_first {d d' : Disk} {config : Config} {c : Conditions} {f : Finder}
    (hstart : start root d config readers c = .ok (d', f))
    (hnew : d.fileStates.get? (Disk.fileStateFile root) = none) : f.fileState = {} := by
  rcases (opened_of_start hstart).states with hempty | hkept
  · exact hempty
  · rw [hnew] at hkept
    cases hkept

/-- All records are true, whatever finders were opened in between. -/
theorem truthful (hroot : FilePath.isAbsolute root)
    (h : Session root readers (Call.Sees world) opens d f) : f.Truthful world := by
  induction h with
  | first hstart hnew => exact (vouched_of_empty (fileState_first hstart hnew)).truthful
  | run h hrun ih => exact hrun.truthful_after (h.belongs.rooted hroot) ih
  | reopen h hstart hopen ih =>
    have hopened := opened_of_start hstart
    rcases hopened.fileState_reopened h.belongs with hempty | hsame
    · exact (vouched_of_empty hempty).truthful
    · intro path record hget
      rw [hsame] at hget
      obtain ⟨symbols, hdescribes⟩ := ih path record hget
      exact ⟨symbols, hdescribes.congr (hopened.belongs.readers.trans h.belongs.readers.symm)⟩

/-- All recorded files are indexed completely, if all finders are opened safely. -/
theorem vouched (hroot : FilePath.isAbsolute root) (hworld : Distinguished { readers with root } world)
    (h : Session root readers (Call.Thorough world) OpensSafely d f) : f.Vouched world := by
  induction h with
  | first hstart hnew => exact vouched_of_empty (fileState_first hstart hnew)
  | run h hrun ih =>
    exact hrun.vouched_after (h.belongs.rooted hroot) (h.belongs.distinguished hworld) ih
  | reopen h hstart hopen ih =>
    have hopened := opened_of_start hstart
    rcases hopen with hempty | hresumes
    · exact vouched_of_empty hempty
    rcases hopened.fileState_reopened h.belongs with hempty | hsame
    · exact vouched_of_empty hempty
    have hbackend := hopened.backend_reopened h.belongs hresumes
    intro path record hget
    rw [hsame] at hget
    obtain ⟨symbols, hdescribes, hall⟩ := ih path record hget
    refine ⟨symbols, hdescribes.congr (hopened.belongs.readers.trans h.belongs.readers.symm),
      fun s hs haccept => ?_⟩
    have hshows := hall s hs (hresumes.accepts s haccept)
    exact (shows_congr hresumes.model hresumes.normalize (by rw [hbackend])
      (by rw [row?, row?, hbackend])).mpr hshows

end Session

/-- After a successful run without a list of files the index of a finder is complete exactly if the
run started anew or the files that it passed over were indexed completely before, whatever finders of
the workspace there were. It always is complete if all of them were opened safely and their runs were
thorough. -/
theorem complete_after_update {d : Disk} {f : Finder} {call : Call} {t : Tree}
    {files : List String} (hroot : FilePath.isAbsolute root)
    (hworld : Distinguished { readers with root } world)
    (h : Session root readers (Call.Sees world) (fun _ _ _ => True) d f)
    (hcall : call.Updates world f t files) :
    ((call.after f).Complete t files ↔ call.startsAnew f ∨ f.PassesSafely t files) ∧
    (Session root readers (Call.Thorough world) OpensSafely d f →
      (call.after f).Complete t files) := by
  have hdistinguished := h.belongs.distinguished hworld
  have hiff := hcall.complete_after_iff (h.belongs.rooted hroot) hdistinguished (h.truthful hroot)
  refine ⟨hiff, fun hsafe => hiff.mpr (Or.inr ?_)⟩
  exact (hsafe.vouched hroot hworld).passesSafely hdistinguished hcall.known

/-- Opens a finder of the workspace `/ws` that asks no language server, with short vectors and
without exclusion patterns. -/
def opening (d : Disk) : Except FinderError (Disk × Finder) :=
  start "/ws" d { finder := { excludeFilePatterns := [] }, embeddings := { dimension := 4 } }
    { parsers := .standard } {}

/-- The first finder of the workspace. -/
def firstOpened : Disk × Finder :=
  (opening { tree := .oneFile oneLine.toUTF8 }).toOption.getD ({ tree := .directory [] }, unindexed)

/-- The disk after a full run of the first finder. -/
def indexedDisk : Disk :=
  { ((fullRun oneLine).after firstOpened.2).save firstOpened.1 with tree := firstOpened.1.tree }

/-- The finder of the workspace that is opened on this disk. -/
def nextOpened : Disk × Finder :=
  (opening indexedDisk).toOption.getD ({ tree := .directory [] }, unindexed)

private theorem opening_eq {d : Disk} {opened other : Disk × Finder}
    (hopened : opened = (opening d).toOption.getD other) (h : (opening d).isOk) :
    opening d = .ok (opened.1, opened.2) := by
  subst hopened
  cases hd : opening d with
  | error e =>
    rw [hd] at h
    cases h
  | ok opened => rfl

/-- The first finder is opened with a file for its vectors, and its run finds the only file and
succeeds. -/
private theorem firstOpened_runs : (opening { tree := .oneFile oneLine.toUTF8 }).isOk ∧
    firstOpened.1.tree.holds (Disk.vectorFile "/ws" {}) ∧
    (fullRun oneLine).plan? firstOpened.2 = some ⟨["/ws/a.py"], []⟩ ∧
    (fullRun oneLine).failure? firstOpened.2 = none ∧
    (firstOpened.2.filter.apply (firstOpened.2.symbolsIn (fullRun oneLine).conditions
      ["/ws/a.py"])).length ≤ firstOpened.2.config.finder.maxSymbols := by
  decide +kernel

private theorem opening_first :
    opening { tree := .oneFile oneLine.toUTF8 } = .ok (firstOpened.1, firstOpened.2) :=
  opening_eq rfl firstOpened_runs.1

private theorem thorough_firstOpened : (fullRun oneLine).Thorough twoVersions firstOpened.2 := by
  have hopened : firstOpened.2.Opened "/ws" _ _ _ := opened_of_start opening_first
  obtain ⟨-, -, hplan, hdone, hroom⟩ := firstOpened_runs
  exact
    { toWithin := within_oneFile hopened.workspace rfl hplan (Or.inl rfl) hroom
      done := hdone
      alike := fun plan h q hq q' hq' _ => by
        cases hplan.symm.trans h
        rw [List.mem_singleton.mp hq, List.mem_singleton.mp hq']
      reads := fun h => absurd rfl h }

/-- The next finder is opened, and its run passes over the file and succeeds. -/
private theorem nextOpened_runs : (opening indexedDisk).isOk ∧
    (refresh oneLine).plan? nextOpened.2 = some ⟨[], []⟩ ∧
    (refresh oneLine).failure? nextOpened.2 = none := by
  decide +kernel

private theorem opening_next : opening indexedDisk = .ok (nextOpened.1, nextOpened.2) :=
  opening_eq rfl nextOpened_runs.1

private theorem updates_nextOpened : (refresh oneLine).Updates twoVersions nextOpened.2
    (.oneFile oneLine.toUTF8) ["/ws/a.py"] := by
  have hopened : nextOpened.2.Opened "/ws" _ _ _ := opened_of_start opening_next
  obtain ⟨-, hnothing, hdone⟩ := nextOpened_runs
  have hpath : relativePath "/ws" "/ws/a.py" = "a.py" := by decide +kernel
  have hfilter : nextOpened.2.filter = ⟨({} : Config).finder.includeSymbolTypes, 10, []⟩ :=
    (Except.ok.inj hopened.filter).symm
  have htop : (refresh oneLine).top? nextOpened.2 = none := by
    rw [refresh, Call.top?, hopened.settings]
    rfl
  exact
    { still := rfl
      inside := fun plan h p hp => by
        cases hnothing.symm.trans h
        cases hp
      room := fun plan h => by
        cases hnothing.symm.trans h
        exact Nat.zero_le _
      incremental := trivial
      scan := rfl
      covers := by
        rw [htop, Option.getD_none, hopened.workspace, hfilter]
        exact eq_ok_of_toOption (by decide +kernel)
      known := fun p hp found hfound => by
        cases List.mem_singleton.mp hp
        obtain ⟨bytes, symbols⟩ := found
        cases (Tree.read_oneFile _).symm.trans (foundAt?_eq_some_iff.mp hfound).1
        rw [hopened.workspace, hpath]
        exact Or.inl rfl
      apart := fun p hp q hq _ => (List.mem_singleton.mp hp).trans (List.mem_singleton.mp hq).symm
      back := fun _ p hp _ => by
        cases List.mem_singleton.mp hp
        exact leadsBack_oneFile (hopened.belongs.rooted rfl) hopened.workspace _
      done := hdone }

/-- After a full run and a restart a run by digests leaves a complete index. -/
theorem complete_after_restart :
    ((refresh oneLine).after nextOpened.2).Complete (.oneFile oneLine.toUTF8) ["/ws/a.py"] := by
  have hopened₀ : firstOpened.2.Opened "/ws" _ _ _ := opened_of_start opening_first
  have hopened : nextOpened.2.Opened "/ws" _ _ _ := opened_of_start opening_next
  have hkin := Call.kin_after firstOpened.2 (fullRun oneLine)
  -- the next finder goes on with the vectors of the first one
  have hsafe : Session "/ws" { parsers := .standard } (Call.Thorough twoVersions) OpensSafely
      nextOpened.1 nextOpened.2 :=
    .reopen (.run (.first opening_first rfl) thorough_firstOpened) opening_next
      (Or.inr (hopened₀.resumes hkin hopened rfl rfl firstOpened_runs.2.1))
  exact (complete_after_update rfl distinguished_twoVersions
    (hsafe.mono (fun _ _ h => h.sees) fun _ _ _ _ => trivial) updates_nextOpened).2 hsafe

end Finder

end CodeClones
