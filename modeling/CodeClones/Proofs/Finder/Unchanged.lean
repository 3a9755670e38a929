import CodeClones.Proofs.Finder.Incremental
import CodeClones.Proofs.Finder.Kin
import CodeClones.Proofs.Finder.Search

/-!
# Runs over an unchanged workspace

A run by digests compares the digests of all files that can be read with the recorded ones, but a
run records only the files in which it finds symbols. So a run over the files of the last full run
finds nothing to do exactly if these are the same. A file that can be read but is no text is never
recorded: it counts as changed in every run, and fails it if no other file has changed.
-/

namespace CodeClones

namespace Finder

variable {f g : Finder} {c c₀ : RunConditions} {o o₀ : RunOptions} {top : String} {t : Tree}
  {files : List String}

/-! ## Runs without files -/

/-- A run whose store is described is reported. -/
theorem exists_report (hc : c.stats.Calm) (hroom : f.store.pool.HasRoom) (o : RunOptions)
    (d : Detection) (mode : AnalysisMode) (changedFiles : Option (List String)) :
    ∃ report g, finishReport c o d mode changedFiles f = (.ok report, g) := by
  obtain ⟨stats, hstats⟩ := VectorStore.exists_stats hc hroom c.usage
  have hdescribe : ∃ info g, describe c f = (.ok info, g) := by
    rw [describe, get_bind, components]
    rcases hs : f.store.stats c.stats c.usage with ⟨s, answer⟩
    rw [hs] at hstats
    cases hstats
    exact ⟨_, _, rfl⟩
  obtain ⟨info, g, hdescribe⟩ := hdescribe
  rw [finishReport, RunStep.bind_of_ok hdescribe]
  exact ⟨_, _, rfl⟩

/-- Without symbols no text is embedded. -/
theorem embedSymbols_nil (f : Finder) : embedSymbols [] f =
    (.ok [], { f with progress := f.progress.advance .generatingEmbeddings }) := by
  rw [embedSymbols, RunStep.bind_of_ok (advance_apply ..), get_bind, List.map_nil,
    Engine.embed_nil]
  rfl

/-- Without symbols nothing is stored and nothing is asked. -/
theorem searchNeighbours_nil (c : RunConditions) (threshold : Float32) (f : Finder) :
    searchNeighbours c [] [] threshold f = (.ok [],
      { f with progress := (f.progress.advance .buildingIndex).advance .findingDuplicates }) := by
  have hupsert : callStore .buildingIndex (fun s : VectorStore => s.upsert c.upsert
      (List.map Symbol.id []) [] (List.map Symbol.toMetadata []))
      { f with progress := f.progress.advance .buildingIndex } =
      (.ok (), { f with progress := f.progress.advance .buildingIndex }) := rfl
  rw [searchNeighbours, RunStep.bind_of_ok (advance_apply ..), RunStep.bind_of_ok hupsert,
    RunStep.bind_of_ok (advance_apply ..), callStore, get_bind, VectorStore.batch_nil]
  rfl

/-- Without symbols nothing is found. -/
theorem detect_nil {threshold : Option Float32} (h : inUnitRange (f.cutoff threshold)) :
    ∃ p, detect c [] threshold f = (.ok ⟨[], 0, 0⟩, { f with progress := p }) := by
  have hselected : f.selected [] = [] := by simp [selected, SymbolFilter.apply]
  have hnone : duplicatesIn [] [] f.config.finder.thresholds = [] := by
    simp [duplicatesIn, pairsIn]
  rw [detect, get_bind]
  dsimp only
  rw [if_neg (by simpa [cutoff] using h), hselected, RunStep.bind_of_ok (embedSymbols_nil f),
    RunStep.bind_of_ok (searchNeighbours_nil ..), RunStep.bind_of_ok (advance_apply ..), hnone]
  exact ⟨_, rfl⟩

theorem runPlan_eq (c : RunConditions) (o : RunOptions) (plan : Plan) (f : Finder) :
    runPlan c o plan f = (purgeFrom c 0 (plan.paths f.root) >>= fun _ =>
      indexFiles c o plan.targets plan.deleted .incremental (some (plan.paths f.root))) f := by
  rw [runPlan, get_bind]
  simp only [Plan.paths]

/-- A run by a plan without files succeeds, finds nothing and leaves the index. -/
theorem runPlan_empty (h : inUnitRange (f.cutoff o.threshold)) (hc : c.stats.Calm)
    (hroom : f.store.pool.HasRoom) :
    ∃ report g, runPlan c o {} f = (.ok report, g) ∧ report.context.changedFiles = some [] ∧
      report.findings = [] ∧ SameIndex f g := by
  obtain ⟨p, hdetect⟩ := detect_nil (c := c) h
  have hpurge : purgeFrom c 0 [] f = (.ok (), f) := rfl
  have hextract : extractTargets c [] f = (.ok ([], []), f) := rfl
  have hcommit : commit c [] [] { f with progress := p } = (.ok (), { f with progress := p }) := rfl
  obtain ⟨report, g, hreport⟩ := exists_report (f := { f with progress := p }) hc hroom o
    ⟨[], 0, 0⟩ .incremental (some [])
  obtain ⟨context, rfl, _, hchanged⟩ := finishReport_ok hreport
  have hsame := (finishReport_cases hreport).1
  refine ⟨Report.make [] context o.verbose, g, ?_, hchanged, by simp [Report.make],
    hsame.setup, hsame.backend, hsame.fileState⟩
  rw [runPlan_eq, show Plan.paths f.root {} = [] from rfl, RunStep.bind_of_ok hpurge, indexFiles,
    RunStep.bind_of_ok hextract]
  dsimp only
  rw [RunStep.bind_of_ok hdetect, RunStep.bind_of_ok hcommit]
  exact hreport

/-! ## Runs that succeed -/

/-- A full run that succeeds was given a threshold within range. -/
theorem inUnitRange_of_analyze {patterns : List String} {report : Report}
    (h : analyze c o top patterns f = (.ok report, g)) : inUnitRange (f.cutoff o.threshold) := by
  obtain ⟨files, f₁, g₁, -, hclear, hindex, -⟩ := steps_of_analyze h
  cases indexFiles_steps hindex with
  | reported hf₁ hdetect =>
    have hcleared : f₁.setup = f.setup := (clearAll_cases hclear).1.setup
    rw [← cutoff_of_setup hcleared, ← cutoff_of_setup hf₁.same.setup]
    exact inUnitRange_of_detect hdetect

/-- An incremental run that succeeds reports the paths of its plan as changed. -/
theorem changedFiles_of_runPlan {plan : Plan} {report : Report}
    (h : runPlan c o plan f = (.ok report, g)) :
    report.context.changedFiles = some (plan.paths f.root) := by
  rw [runPlan_eq] at h
  obtain ⟨_, f₁, _, hindex⟩ := RunStep.bind_ok h
  cases indexFiles_steps hindex with
  | reported _ _ _ hreport =>
    obtain ⟨context, rfl, _, hchanged⟩ := finishReport_ok hreport
    exact hchanged

/-- A run by digests goes by the plan of the discovered files. -/
theorem analyzeChanges_cases (hincremental : f.config.finder.enableIncremental)
    (hfiles : discover c.views.scan f.root f.root [] f.filter = .ok files)
    (hgranted : c.stateRefusal .detect = none) {r : Except FinderError Report}
    (h : analyzeChanges c o none f = (r, g)) :
    ∃ g₁, runPlan c o (changedPlan f c files) (Call.begun f) = (r, g₁) ∧ SameIndex g₁ g := by
  have hplan : planChanged c (Call.begun f) = (.ok (changedPlan f c files), Call.begun f) := by
    rw [planChanged, get_bind,
      show discover c.views.scan (Call.begun f).root (Call.begun f).root [] (Call.begun f).filter =
        .ok files from hfiles]
    simp only [accessState, hgranted]
    rfl
  rw [analyzeChanges, get_bind] at h
  simp only [hincremental, if_true] at h
  obtain ⟨g₁, hwork, hend⟩ := running_cases h
  refine ⟨g₁, ?_, hend⟩
  rwa [show ({ f with progress := Progress.advance {} .extractingSymbols } : Finder) =
    Call.begun f from rfl, RunStep.bind_of_ok hplan] at hwork

/-- A run by digests succeeds, reports no changed files and no findings, and leaves the index as it
is. -/
def DoesNothing (c : RunConditions) (o : RunOptions) (f : Finder) : Prop :=
  ∃ report g, analyzeChanges c o none f = (.ok report, g) ∧
    report.context.changedFiles = some [] ∧ report.findings = [] ∧ f.Agrees g

/-- Nothing is refused to a run that changes nothing. -/
structure Unhindered (c : RunConditions) (f : Finder) : Prop where
  states : ∀ access, c.stateRefusal access = none
  stats : c.stats.Calm
  room : f.store.pool.HasRoom

/-- A run by digests does nothing exactly if its plan is empty. -/
theorem doesNothing_iff_plan (hincremental : f.config.finder.enableIncremental)
    (hfiles : discover c.views.scan f.root f.root [] f.filter = .ok files)
    (hthreshold : inUnitRange (f.cutoff o.threshold)) (hc : f.Unhindered c) :
    f.DoesNothing c o ↔ changedPlan f c files = {} := by
  rcases hrun : analyzeChanges c o none f with ⟨r, g⟩
  obtain ⟨g₁, hplan, hend⟩ :=
    analyzeChanges_cases hincremental hfiles (hc.states .detect) hrun
  constructor
  · rintro ⟨report, g', hrun', hchanged, -, -⟩
    cases hrun.symm.trans hrun'
    have hpaths := changedFiles_of_runPlan hplan
    rw [hchanged, Plan.paths] at hpaths
    obtain ⟨htargets, hdeleted⟩ := List.append_eq_nil_iff.mp (Option.some.inj hpaths).symm
    rw [List.map_eq_nil_iff] at htargets
    cases hp : changedPlan f c files
    rw [hp] at htargets hdeleted
    cases htargets
    cases hdeleted
    rfl
  · intro hempty
    obtain ⟨report, g', hplan', hchanged, hfindings, hsame⟩ :=
      runPlan_empty (c := c) (o := o) (f := Call.begun f) hthreshold hc.stats hc.room
    rw [hempty, hplan'] at hplan
    cases hplan
    have hall := hsame.trans hend
    exact ⟨report, g, hrun, hchanged, hfindings, hall.fileState.symm,
      fun id => (hall.row? id).symm⟩

/-! ## What is compared and what is recorded -/

/-- The digest of a file in which symbols are found. -/
def foundDigest? (f : Finder) (t : Tree) (path : String) : Option String :=
  (f.foundAt? t path).map fun found => Digest.Blake3.hexOf found.1

theorem foundDigest?_eq_of_isSome {path : String} (h : (f.foundAt? t path).isSome) :
    f.foundDigest? t path = t.digest? path := by
  obtain ⟨found, hfound⟩ := Option.isSome_iff_exists.mp h
  rw [foundDigest?, hfound, digest?_of_foundAt? hfound]
  rfl

/-- Under a path the last file that can be read has the digest of the last file in which symbols are
found. -/
def Settled (f : Finder) (t : Tree) (files : List String) (key : String) : Prop :=
  lastUnder? f.root t.digest? files key = lastUnder? f.root (f.foundDigest? t) files key

/-- A path that is not settled is that of a file. -/
theorem exists_of_not_settled {key : String} (h : ¬f.Settled t files key) :
    ∃ p ∈ files, relativePath f.root p = key := by
  by_contra hnone
  have htell : ∀ tell : String → Option String, lastUnder? f.root tell files key = none :=
    fun tell => lastUnder?_eq_none_iff.mpr fun p hp hpath => absurd ⟨p, hp, hpath⟩ hnone
  exact h ((htell _).trans (htell _).symm)

/-- A full run of the workspace without patterns that succeeds, with no edits on the way, and the
finder after it. -/
structure WholeRun (f : Finder) (c : RunConditions) (o : RunOptions) (top : String) (t : Tree)
    (files : List String) (g : Finder) : Prop where
  whole : FilePath.tidy (FilePath.join f.root top) = f.root
  views : c.views = .still t
  covers : discover t f.root f.root [] f.filter = .ok files
  done : ∃ report, analyze c o top [] f = (.ok report, g)

theorem WholeRun.kin (h : f.WholeRun c o top t files g) : f.Kin g := by
  obtain ⟨report, hrun⟩ := h.done
  have hkin := keeps_analyze c o top [] f
  rwa [hrun] at hkin

theorem WholeRun.discover_eq (h : f.WholeRun c₀ o₀ top t files g) (hviews : c.views = .still t) :
    discover c.views.scan g.root g.root [] g.filter = .ok files := by
  rw [hviews, show g.root = f.root from congrArg Setup.root h.kin.setup,
    show g.filter = f.filter from congrArg Setup.filter h.kin.setup]
  exact h.covers

theorem WholeRun.scan_eq (h : f.WholeRun c o top t files g) : c.views.scan = t := by
  rw [h.views]
  rfl

/-- The targets of a full run are the discovered files. -/
theorem WholeRun.plan?_eq (h : f.WholeRun c o top t files g) :
    (Call.full c o top []).plan? f = some ⟨files, []⟩ := by
  rw [Call.plan?, Call.fullPlan?, h.whole, h.scan_eq, h.covers]
  rfl

theorem WholeRun.isAbsolute (hf : f.Rooted) (h : f.WholeRun c o top t files g) {p : String}
    (hp : p ∈ files) : FilePath.isAbsolute p :=
  isAbsolute_of_mem_targets hf.absolute h.plan?_eq hp

/-- A full run that succeeds was not stopped at one of its files. -/
theorem WholeRun.staysInWord (h : f.WholeRun c o top t files g) {p : String} (hp : p ∈ files) :
    ¬f.extractor.LeavesWord t p := by
  obtain ⟨report, hrun⟩ := h.done
  obtain ⟨targets, f₁, g₁, hfiles, hclear, hindex, -⟩ := steps_of_analyze hrun
  rw [h.scan_eq, h.whole, h.covers] at hfiles
  cases hfiles
  have hsetup : f₁.setup = f.setup := (clearAll_cases hclear).1.setup
  rw [indexFiles] at hindex
  obtain ⟨_, _, hextract, -⟩ := RunStep.bind_ok hindex
  have hok := isOk_extract_of_extractTargets hextract
  have hreads : c.views.reads = fun _ => t := by
    rw [h.views]
    rfl
  rw [hreads, Extractor.isOk_extract_iff] at hok
  have hwords : f₁.extractor.LeavesWord = f.extractor.LeavesWord :=
    Extractor.leavesWord_congr (congrArg Setup.sources hsetup) (congrArg Setup.readers hsetup)
  rw [← hwords]
  exact hok p hp

/-- After a full run the record of a path is that of the last file there in which symbols are
found. -/
theorem WholeRun.get?_fileState (hf : f.Rooted) (h : f.WholeRun c o top t files g)
    (key : String) : g.fileState.get? key =
      lastUnder? f.root (fun p => (f.foundAt? t p).map fun found => (recordOf f.root p found).2)
        files key := by
  obtain ⟨report, hrun⟩ := h.done
  have hstill : c.Still := by rw [RunConditions.Still, h.views]; rfl
  have hcall : (Call.full c o top []).run f = (none, g) := by
    rw [Call.run, hrun]
    rfl
  obtain ⟨vectors, hr⟩ := Call.reindexed_of_done h.plan?_eq (by rw [Call.failure?, hcall])
  have hstate : g.fileState = committed (f.recordsIn c files) [] {} := by
    rw [show g = (Call.full c o top []).after f by rw [Call.after, hcall]]
    exact hr.fileState_all
  have hrecords := recordsIn_eq hf hstill fun p hp => h.isAbsolute hf hp
  rw [hstate, get?_committed, if_neg List.not_mem_nil, SortedMap.get?_empty, Option.or_none,
    hrecords, h.scan_eq, ← find?_filterMap_eq_lastUnder?]
  simp only [Option.map_map]
  rfl

/-- The digests that are recorded are those of files in which symbols are found. -/
theorem WholeRun.recorded (hf : f.Rooted) (h : f.WholeRun c o top t files g) (key : String) :
    (g.fileState.get? key).map (·.digest) = lastUnder? f.root (f.foundDigest? t) files key := by
  rw [h.get?_fileState hf, ← lastUnder?_map]
  simp only [Option.map_map]
  rfl

/-- Under a path where no file can be read no digest is recorded. -/
private theorem not_recorded_of_unread {key : String}
    (h : lastUnder? f.root t.digest? files key = none) :
    lastUnder? f.root (f.foundDigest? t) files key = none := by
  rw [lastUnder?_eq_none_iff] at h ⊢
  intro p hp hkey
  by_contra hfound
  rw [foundDigest?, Option.map_eq_none_iff] at hfound
  have hsame := foundDigest?_eq_of_isSome (Option.isSome_iff_ne_none.mpr hfound)
  rw [h p hp hkey, foundDigest?, Option.map_eq_none_iff] at hsame
  exact hfound hsame

/-- After a full run the plan for the same files has the paths that are not settled. -/
theorem WholeRun.changedPlan_cases (hf : f.Rooted) (h : f.WholeRun c₀ o₀ top t files g)
    (hviews : c.views = .still t) :
    (∀ q, q ∈ (changedPlan g c files).targets ↔ ∃ p ∈ files,
      ¬f.Settled t files (relativePath f.root p) ∧
        FilePath.join f.root (relativePath f.root p) = q) ∧
      (changedPlan g c files).deleted = [] := by
  have hroot : g.root = f.root := congrArg Setup.root h.kin.setup
  have hdigests : c.views.digests = fun _ => t := by rw [hviews]; rfl
  rw [changedPlan, hroot, hdigests]
  constructor
  · intro q
    simp only [List.mem_map, FileState.mem_detect_changed, get?_digests_eq_lastUnder?,
      FileState.differs_iff, h.recorded hf]
    constructor
    · rintro ⟨key, ⟨digest, hdigest, hdiffers⟩, rfl⟩
      have hunsettled : ¬f.Settled t files key := fun hsame =>
        hdiffers (hsame.symm.trans hdigest)
      obtain ⟨p, hp, rfl⟩ := exists_of_not_settled hunsettled
      exact ⟨p, hp, hunsettled, rfl⟩
    · rintro ⟨p, hp, hunsettled, rfl⟩
      refine ⟨_, ?_, rfl⟩
      cases hdigest : lastUnder? f.root t.digest? files (relativePath f.root p) with
      | none => exact absurd (hdigest.trans (not_recorded_of_unread hdigest).symm) hunsettled
      | some digest => exact ⟨digest, rfl, fun hsame => hunsettled (hdigest.trans hsame.symm)⟩
  · refine List.eq_nil_iff_forall_not_mem.mpr fun key hkey => ?_
    rw [FileState.mem_detect_deleted, get?_digests_eq_lastUnder?] at hkey
    have hnone := (h.recorded hf key).trans (not_recorded_of_unread hkey.2)
    rw [Option.map_eq_none_iff] at hnone
    rw [hnone] at hkey
    cases hkey.1

/-- So the plan is empty exactly if all paths are settled. -/
theorem WholeRun.changedPlan_eq (hf : f.Rooted) (h : f.WholeRun c₀ o₀ top t files g)
    (hviews : c.views = .still t) :
    changedPlan g c files = {} ↔ ∀ p ∈ files, f.Settled t files (relativePath f.root p) := by
  obtain ⟨htargets, hdeleted⟩ := h.changedPlan_cases hf hviews
  constructor
  · intro hempty p hp
    by_contra hunsettled
    have hmem := (htargets _).mpr ⟨p, hp, hunsettled, rfl⟩
    rw [hempty] at hmem
    cases hmem
  · intro hall
    have hnone : (changedPlan g c files).targets = [] := by
      refine List.eq_nil_iff_forall_not_mem.mpr fun q hq => ?_
      obtain ⟨p, hp, hunsettled, _⟩ := (htargets q).mp hq
      exact hunsettled (hall p hp)
    cases hplan : changedPlan g c files
    rw [hplan] at hnone hdeleted
    cases hnone
    cases hdeleted
    rfl

/-! ## Files that are no texts -/

/-- Files with paths of their own in the workspace, which lead back to them and name a language. -/
structure Ordinary (f : Finder) (t : Tree) (files : List String) : Prop where
  apart : ∀ p ∈ files, ∀ q ∈ files, relativePath f.root p = relativePath f.root q → p = q
  back : ∀ p ∈ files, f.LeadsBack t p
  language : ∀ p ∈ files, (Language.ofPath? (normalizePath (relativePath f.root p))).isSome

/-- Symbols are found in the texts among the files of a full run. -/
theorem WholeRun.foundAt?_isSome_iff (hf : f.Rooted) (h : f.WholeRun c o top t files g)
    (hordinary : f.Ordinary t files) {p : String} (hp : p ∈ files) :
    (f.foundAt? t p).isSome ↔ (t.readText p).isOk := by
  have habsolute := h.isAbsolute hf hp
  have hpath : f.extractor.absolute p = p := FilePath.join_of_isAbsolute _ habsolute
  have hseen : f.extractor.relative p = relativePath f.root p := by
    rw [Extractor.relative, hpath, hf.sources]
  have hread := congrArg Option.isSome (readFile_eq_foundAt? hf t habsolute)
  rw [Option.isSome_map, Option.isSome_map] at hread
  have hok : (f.extractor.readFile t p).toOption.isSome = (f.extractor.readFile t p).isOk := by
    cases f.extractor.readFile t p <;> rfl
  rw [← hread, hok, Extractor.isOk_readFile_iff_of_language (hseen ▸ hordinary.language p hp),
    hpath, and_iff_left (h.staysInWord hp)]

/-- A path is settled if its file is a text or cannot be read. -/
theorem WholeRun.settled_iff (hf : f.Rooted) (h : f.WholeRun c o top t files g)
    (hordinary : f.Ordinary t files) {p : String} (hp : p ∈ files) :
    f.Settled t files (relativePath f.root p) ↔ ((t.read p).isOk → (t.readText p).isOk) := by
  rw [Settled, lastUnder?_relativePath hordinary.apart hp,
    lastUnder?_relativePath hordinary.apart hp, ← h.foundAt?_isSome_iff hf hordinary hp]
  cases hread : t.read p with
  | error cause =>
    rw [Tree.digest?, foundDigest?, foundAt?, hread]
    exact iff_of_true rfl fun hok => by cases hok
  | ok bytes =>
    constructor
    · intro hsame _
      rw [Tree.digest?, hread, foundDigest?] at hsame
      rw [← Option.isSome_map, ← hsame]
      rfl
    · intro hfound
      exact (foundDigest?_eq_of_isSome (hfound rfl)).symm

/-- A purge of paths without records does nothing. -/
theorem purgeFrom_of_no_records {position : Nat} {paths : List String}
    (hc : ∀ access, c.stateRefusal access = none)
    (hnone : ∀ path ∈ paths, f.fileState.get? path = none) :
    purgeFrom c position paths f = (.ok (), f) := by
  induction paths generalizing position with
  | nil => rfl
  | cons path rest ih =>
    have haccess : accessState c .extractingSymbols (.lookup position) f = (.ok (), f) := by
      rw [accessState, hc]
      rfl
    rw [purgeFrom, RunStep.bind_of_ok haccess, get_bind, hnone path (List.mem_cons_self ..)]
    exact ih fun path hpath => hnone path (List.mem_cons_of_mem _ hpath)

/-- The program stops at a file exactly if it stops at the path that leads back to it. -/
theorem LeadsBack.leavesWord_iff (hf : f.Rooted) {p : String} (habsolute : FilePath.isAbsolute p)
    (h : f.LeadsBack t p) :
    f.extractor.LeavesWord t (FilePath.join f.root (relativePath f.root p)) ↔
      f.extractor.LeavesWord t p := by
  have hpath : f.extractor.absolute p = p := FilePath.join_of_isAbsolute _ habsolute
  have hback : f.extractor.absolute (FilePath.join f.root (relativePath f.root p)) =
      FilePath.join f.root (relativePath f.root p) :=
    FilePath.join_of_isAbsolute _ (FilePath.isAbsolute_join hf.absolute _)
  rw [Extractor.LeavesWord, Extractor.LeavesWord, Extractor.relative, Extractor.relative, hpath,
    hback, hf.sources, h.seen, Tree.readText, h.read, Tree.readText]

/-- Extraction fails if nothing is found in any of its files, and none stops it. -/
theorem extractTargets_of_none_found {targets : List String} (hf : f.Rooted) (hc : c.Still)
    (habsolute : ∀ q ∈ targets, FilePath.isAbsolute q) (hne : targets ≠ [])
    (hword : ∀ q ∈ targets, ¬f.extractor.LeavesWord c.views.scan q)
    (hnone : ∀ q ∈ targets, f.foundAt? c.views.scan q = none) :
    ∃ e g, extractTargets c targets f = (.error e, g) ∧ e.fault = .extraction ∧
      SameIndex f g := by
  rcases hextract : extractTargets c targets f with ⟨r, g⟩
  have hsame := (extractTargets_cases hextract).1
  have hreads : c.views.reads = fun _ => c.views.scan := congrArg Views.reads hc
  have hok : (f.extractor.extract c.views.reads targets).2.isOk := by
    rw [hreads]
    exact Extractor.isOk_extract_iff.mpr hword
  cases hbatch : (f.extractor.extract c.views.reads targets).2 with
  | error cause =>
    rw [hbatch] at hok
    cases hok
  | ok batch =>
    have hfiles : batch.files = [] := by
      rw [Extractor.files_extract hbatch, readings_eq hf hc habsolute, List.filterMap_eq_nil_iff]
      intro q hq
      rw [hnone q hq]
      rfl
    have hlength := Extractor.length_extract hbatch
    rw [hfiles, List.length_nil, Nat.zero_add] at hlength
    rw [extractTargets, get_bind] at hextract
    cases hlast : batch.skipped.getLast? with
    | none =>
      rw [List.getLast?_eq_none_iff] at hlast
      rw [hlast] at hlength
      exact absurd (List.eq_nil_of_length_eq_zero hlength.symm) hne
    | some last =>
      simp only [hbatch, hfiles, hlast] at hextract
      cases hextract
      exact ⟨_, _, rfl, rfl, hsame⟩

/-- What a later run reads again are files in which nothing is found, under paths without a
record. -/
theorem WholeRun.unread_of_mem_targets (hf : f.Rooted) (h : f.WholeRun c₀ o₀ top t files g)
    (hviews : c.views = .still t) (hordinary : f.Ordinary t files) {q : String}
    (hq : q ∈ (changedPlan g c files).targets) :
    FilePath.isAbsolute q ∧ ¬g.extractor.LeavesWord c.views.scan q ∧
      g.foundAt? c.views.scan q = none ∧ g.fileState.get? (relativePath g.root q) = none := by
  have hsetup := h.kin.setup
  have hroot : g.root = f.root := congrArg Setup.root hsetup
  obtain ⟨p, hp, hunsettled, rfl⟩ := ((h.changedPlan_cases hf hviews).1 q).mp hq
  have hfound : f.foundAt? t p = none := by
    rw [h.settled_iff hf hordinary hp, ← h.foundAt?_isSome_iff hf hordinary hp] at hunsettled
    rw [← Option.not_isSome_iff_eq_none]
    exact fun hfound => hunsettled fun _ => hfound
  refine ⟨FilePath.isAbsolute_join hf.absolute _, ?_, ?_, ?_⟩
  · rw [Extractor.leavesWord_congr (e := f.extractor) (congrArg Setup.sources hsetup)
      (congrArg Setup.readers hsetup), hviews]
    exact ((hordinary.back p hp).leavesWord_iff hf (h.isAbsolute hf hp)).not.mpr
      (h.staysInWord hp)
  · rw [foundAt?_of_setup hsetup, hviews]
    exact (hordinary.back p hp).alike.found.trans hfound
  · rw [hroot, (hordinary.back p hp).seen, h.get?_fileState hf,
      lastUnder?_relativePath hordinary.apart hp, hfound]
    rfl

/-- If a file is no text, then a run by digests reads only such files again, and fails. -/
theorem WholeRun.fails (hf : f.Rooted) (hincremental : f.config.finder.enableIncremental)
    (h : f.WholeRun c₀ o₀ top t files g) (hviews : c.views = .still t)
    (hc : ∀ access, c.stateRefusal access = none) (hordinary : f.Ordinary t files)
    (hsome : ∃ p ∈ files, (t.read p).isOk ∧ ¬(t.readText p).isOk) :
    ∃ e g', analyzeChanges c o none g = (.error e, g') ∧ e.fault = .extraction ∧
      g.Agrees g' := by
  have hsetup := h.kin.setup
  have hconfig : g.config = f.config := congrArg Setup.config hsetup
  have hstill : c.Still := by rw [RunConditions.Still, hviews]; rfl
  obtain ⟨htargets, hdeleted⟩ := h.changedPlan_cases hf hviews
  have htarget := fun q => h.unread_of_mem_targets (q := q) hf hviews hordinary
  have hne : (changedPlan g c files).targets ≠ [] := by
    obtain ⟨p, hp, hread, htext⟩ := hsome
    exact List.ne_nil_of_mem ((htargets _).mpr ⟨p, hp, fun hsettled =>
      htext ((h.settled_iff hf hordinary hp).mp hsettled hread), rfl⟩)
  have hpurge : purgeFrom c 0 ((changedPlan g c files).paths g.root) (Call.begun g) =
      (.ok (), Call.begun g) := by
    refine purgeFrom_of_no_records hc fun path hpath => ?_
    rw [Plan.paths, hdeleted, List.append_nil] at hpath
    obtain ⟨q, hq, rfl⟩ := List.mem_map.mp hpath
    exact (htarget q hq).2.2.2
  obtain ⟨e, g₁, hextract, hfault, hsame⟩ := extractTargets_of_none_found (c := c)
    (f := Call.begun g) (hf.of_setup hsetup) hstill (fun q hq => (htarget q hq).1) hne
    (fun q hq => (htarget q hq).2.1) fun q hq => (htarget q hq).2.2.1
  rcases hrun : analyzeChanges c o none g with ⟨r, g'⟩
  obtain ⟨g₂, hplan, hend⟩ :=
    analyzeChanges_cases (hconfig ▸ hincremental) (h.discover_eq hviews) (hc .detect) hrun
  rw [runPlan_eq, show (Call.begun g).root = g.root from rfl, RunStep.bind_of_ok hpurge, indexFiles,
    RunStep.bind_of_error hextract] at hplan
  cases hplan
  have hall := hsame.trans hend
  exact ⟨e, g', rfl, hfault, hall.fileState.symm, fun id => (hall.row? id).symm⟩

/-- After a full run a run by digests over the same files does nothing exactly if under every path
the last file that can be read has the digest of the last file in which symbols were found. If files
have paths of their own that name a language, it does nothing exactly if all files that can be read
are texts, and fails otherwise. -/
theorem unchanged_iff (hf : f.Rooted) (hincremental : f.config.finder.enableIncremental)
    (h : f.WholeRun c₀ o₀ top t files g) (hviews : c.views = .still t)
    (hthreshold : o.threshold = o₀.threshold) (hc : f.Unhindered c) :
    (g.DoesNothing c o ↔ ∀ p ∈ files, f.Settled t files (relativePath f.root p)) ∧
      (f.Ordinary t files →
        (g.DoesNothing c o ↔ ∀ p ∈ files, (t.read p).isOk → (t.readText p).isOk) ∧
        ((∃ p ∈ files, (t.read p).isOk ∧ ¬(t.readText p).isOk) →
          ∃ e g', analyzeChanges c o none g = (.error e, g') ∧ e.fault = .extraction ∧
            g.Agrees g')) := by
  obtain ⟨report, hrun⟩ := h.done
  have hkin := h.kin
  have hconfig : g.config = f.config := congrArg Setup.config hkin.setup
  have hrange : inUnitRange (g.cutoff o.threshold) := by
    rw [cutoff_of_setup hkin.setup, hthreshold]
    exact inUnitRange_of_analyze hrun
  have hsettled : g.DoesNothing c o ↔ ∀ p ∈ files, f.Settled t files (relativePath f.root p) :=
    (doesNothing_iff_plan (hconfig ▸ hincremental) (h.discover_eq hviews) hrange
      ⟨hc.states, hc.stats, hkin.store.room.hasRoom hc.room⟩).trans (h.changedPlan_eq hf hviews)
  refine ⟨hsettled, fun hordinary => ⟨hsettled.trans ?_, fun hsome =>
    h.fails hf hincremental hviews hc.states hordinary hsome⟩⟩
  exact forall₂_congr fun p hp => h.settled_iff hf hordinary hp

/-- After a full run over one text a run by digests over it does nothing. -/
theorem doesNothing_oneLine :
    ((fullRun oneLine).after unindexed).DoesNothing (oneFileConditions oneLine) {} := by
  have hwhole : unindexed.WholeRun (oneFileConditions oneLine) {} "." (.oneFile oneLine.toUTF8)
      ["/ws/a.py"] ((fullRun oneLine).after unindexed) := by
    refine ⟨by decide +kernel, rfl, eq_ok_of_toOption (by decide +kernel), ?_⟩
    have hok : (analyze (oneFileConditions oneLine) {} "." [] unindexed).1.isOk := by decide +kernel
    rw [fullRun, Call.after, Call.run]
    rcases hrun : analyze (oneFileConditions oneLine) {} "." [] unindexed with ⟨e | report, g⟩
    · rw [hrun] at hok
      cases hok
    · exact ⟨report, rfl⟩
  have hordinary : unindexed.Ordinary (.oneFile oneLine.toUTF8) ["/ws/a.py"] :=
    { apart := by simp
      back := fun p hp => by
        cases List.mem_singleton.mp hp
        exact leadsBack_oneFile ⟨rfl, rfl⟩ rfl _
      language := by decide +kernel }
  have hcalm : unindexed.Unhindered (oneFileConditions oneLine) :=
    ⟨fun _ => rfl, ⟨rfl, fun _ => rfl⟩, Pool.hasRoom_make ..⟩
  obtain ⟨-, htexts⟩ :=
    unchanged_iff (o := {}) ⟨rfl, rfl⟩ rfl hwhole rfl rfl hcalm
  exact (htexts hordinary).1.mpr (by decide +kernel)

end Finder

end CodeClones
