import CodeClones.Proofs.Finder.Index
import CodeClones.Proofs.Finder.Kin
import CodeClones.Proofs.Finder.Search
import CodeClones.Proofs.Store.Contents
import CodeClones.Proofs.Store.Requests

/-!
# Full runs and what was indexed before

Whatever a finder has indexed, remembered and counted, a full run that succeeds reports and leaves
the same. Rows and file states are cleared first, and the vectors that are stored next clear the
remembered answers; so the search finds what the backend answers, and the backend holds the symbols
of this run only. But no run clears the memory of a model: one that answers by what it was asked
before may give the same run other vectors.
-/

namespace CodeClones

/-- Requests lead to states of the same store. -/
theorem VectorStore.kin_request (s : VectorStore) (w : RequestConditions) (r : Request) :
    Kin s (r.run w s).1 := by
  cases r with
  | upsert ids vectors metadata => exact s.kin_upsert ..
  | delete ids => exact s.kin_delete ..
  | clear => exact s.kin_clear _
  | query q => exact s.kin_query ..
  | batch vectors threshold => exact s.kin_batch ..

namespace Finder

/-- Two finders with the same configuration. What they have indexed, remembered and counted may
differ. -/
structure SameConfiguration (f g : Finder) : Prop where
  setup : g.setup = f.setup
  maxResults : g.store.maxResults = f.store.maxResults
  cached : g.store.cache.isSome = f.store.cache.isSome

theorem SameConfiguration.trans {f g h : Finder} (hfg : SameConfiguration f g)
    (hgh : SameConfiguration g h) : SameConfiguration f h :=
  ⟨hgh.setup.trans hfg.setup, hgh.maxResults.trans hfg.maxResults, hgh.cached.trans hfg.cached⟩

theorem SameConfiguration.symm {f g : Finder} (h : SameConfiguration f g) :
    SameConfiguration g f :=
  ⟨h.setup.symm, h.maxResults.symm, h.cached.symm⟩

theorem Kin.sameConfiguration {f g : Finder} (h : Kin f g) : SameConfiguration f g :=
  ⟨h.setup, h.store.maxResults, h.store.cached⟩

/-- The states that calls, searches, inquiries and requests to the store lead to from a first one,
each in surroundings of its own and whatever way it ends. -/
inductive Reaches (first : Finder) : Finder → Prop
  | refl : Reaches first first
  | call {f : Finder} (h : Reaches first f) (call : Call) : Reaches first (call.after f)
  | search {f : Finder} (h : Reaches first f) (c : RunConditions) (symbols : List Symbol)
    (threshold : Option Float32) : Reaches first (findDuplicates c symbols threshold f).2
  | inquiry {f : Finder} (h : Reaches first f) (c : Conditions) (usage : Float) :
    Reaches first (f.components c usage).1
  | request {f : Finder} (h : Reaches first f) (w : RequestConditions) (r : Request) :
    Reaches first { f with store := (r.run w f.store).1 }

/-- Only the store of a finder may have changed. -/
private theorem kin_of_store {f : Finder} {s : VectorStore} (h : f.store.Kin s) :
    f.Kin { f with store := s } := by
  refine ⟨?_, h⟩
  simp only [setup, h.rowOf]

theorem Reaches.kin {first f : Finder} (h : first.Reaches f) : first.Kin f := by
  induction h with
  | refl => exact .refl first
  | call _ call ih => exact ih.trans (call.kin_after _)
  | search _ c symbols threshold ih => exact ih.trans (keeps_findDuplicates c symbols threshold _)
  | inquiry _ c usage ih => exact ih.trans (kin_of_store (VectorStore.kin_stats _ c usage))
  | request _ w r ih => exact ih.trans (kin_of_store (VectorStore.kin_request _ w r))

/-! ## What depends on the configuration only -/

section SameConfiguration

variable {f g : Finder} {c c' : RunConditions}

theorem SameConfiguration.symbolsIn (h : SameConfiguration f g) (hviews : c'.views = c.views)
    (files : List String) : g.symbolsIn c' files = f.symbolsIn c files := by
  rw [Finder.symbolsIn, Finder.symbolsIn, hviews,
    Extractor.readings_congr (congrArg Setup.sources h.setup) (congrArg Setup.readers h.setup)]

theorem SameConfiguration.recordsIn (h : SameConfiguration f g) (hviews : c'.views = c.views)
    (files : List String) : g.recordsIn c' files = f.recordsIn c files := by
  have hroot : g.root = f.root := congrArg Setup.root h.setup
  rw [Finder.recordsIn, Finder.recordsIn, recordsOf, recordsOf, hviews, hroot,
    Extractor.readings_congr (congrArg Setup.sources h.setup) (congrArg Setup.readers h.setup)]

/-- Over a model without a memory symbols have the same vectors. -/
theorem SameConfiguration.embeds_iff (h : SameConfiguration f g)
    (hmodel : Engine.Memoryless f.engine.model) (symbols : List Symbol)
    (vectors : List Embedding) : g.Embeds symbols vectors ↔ f.Embeds symbols vectors := by
  rw [Embeds, Embeds, selected_of_setup h.setup, Engine.embed_of_memoryless hmodel
    (congrArg Setup.model h.setup) (congrArg Setup.batchSize h.setup)
    (congrArg Setup.normalize h.setup)]

theorem SameConfiguration.queriesDiffer (h : SameConfiguration f g) {cutoff : Float32}
    {vectors : List Embedding} (hdiffer : f.QueriesDiffer cutoff vectors) :
    g.QueriesDiffer cutoff vectors := by
  rw [QueriesDiffer, h.maxResults]
  exact hdiffer

end SameConfiguration

/-! ## A run from an empty index -/

/-- Indexing that succeeds reports the duplicates of the selected symbols among what the backend
holds after it. -/
theorem indexFiles_ok {c : RunConditions} {o : RunOptions} {files deleted : List String}
    {mode : AnalysisMode} {changedFiles : Option (List String)} {f g : Finder} {report : Report}
    (hp : f.progress.current = .extractingSymbols)
    (hdiffer : f.store.cache.isSome → ∀ vectors, f.Embeds (f.symbolsIn c files) vectors →
      f.QueriesDiffer (f.cutoff o.threshold) vectors)
    (h : indexFiles c o files deleted mode changedFiles f = (.ok report, g)) :
    ∃ vectors answers context, f.Embeds (f.symbolsIn c files) vectors ∧
      g.store.backend.answerAll f.store.maxResults (f.cutoff o.threshold)
        (VectorStore.positioned vectors) = .ok answers ∧
      report = Report.make (duplicatesIn (f.selected (f.symbolsIn c files)) answers
        f.config.finder.thresholds) context o.verbose ∧
      context.stats.symbolsExtracted = (f.selected (f.symbolsIn c files)).length := by
  cases indexFiles_steps h with
  | reported hf₁ hdetect _ hreport =>
    obtain ⟨vectors, answers, hembed, hsearch, -, rfl⟩ := hf₁.detect_ok hp hdetect
    have hsame := (finishReport_cases hreport).1
    obtain ⟨context, rfl, hcount, _⟩ := finishReport_ok hreport
    refine ⟨vectors, answers, context, hembed, ?_, rfl, hcount⟩
    rw [hsame.backend]
    exact hsearch.answered fun hcached => (hdiffer hcached vectors hembed).keysApart

/-- What a full run over some files found and left: their records and the rows of their symbols, and
in the report the duplicates that the backend with these rows answers. -/
structure Afresh (c : RunConditions) (o : RunOptions) (files : List String)
    (vectors : List Embedding) (answers : BatchAnswer) (f : Finder) (report : Report)
    (g : Finder) : Prop where
  embeds : f.Embeds (f.symbolsIn c files) vectors
  rows : ∀ id, g.row? id = (Backend.lastWith (symbolRecords (f.selected (f.symbolsIn c files))
    vectors) id).map f.store.backend.rowOf
  fileState : g.fileState = committed (f.recordsIn c files) [] {}
  answered : g.store.backend.answerAll f.store.maxResults (f.cutoff o.threshold)
    (VectorStore.positioned vectors) = .ok answers
  reported : ∃ context, report = Report.make (duplicatesIn (f.selected (f.symbolsIn c files))
      answers f.config.finder.thresholds) context o.verbose ∧
    context.stats.symbolsExtracted = (f.selected (f.symbolsIn c files)).length

/-- A full run that succeeds finds and leaves what its files give. -/
theorem analyze_ok {c : RunConditions} {o : RunOptions} {top : String} {patterns : List String}
    {f g : Finder} {report : Report}
    (hdiffer : f.store.cache.isSome → ∀ files vectors, discover c.views.scan f.root
        (FilePath.tidy (FilePath.join f.root top)) patterns f.filter = .ok files →
      f.Embeds (f.symbolsIn c files) vectors → f.QueriesDiffer (f.cutoff o.threshold) vectors)
    (h : analyze c o top patterns f = (.ok report, g)) :
    ∃ files vectors answers, discover c.views.scan f.root
        (FilePath.tidy (FilePath.join f.root top)) patterns f.filter = .ok files ∧
      Afresh c o files vectors answers f report g := by
  rcases analyze_cases h with ⟨_, hr, _⟩ | ⟨files, hfiles, hstores⟩
  · cases hr
  -- what it left is known; what it reports is told from the state after the index was cleared
  obtain ⟨vectors, hindexed⟩ : ∃ vectors, Reindexed c files [] (fun _ => none) {} f vectors
      ((f.recordsIn c files).length + [].length) g := by
    cases hstores with
    | cutOff _ _ _ hr => cases hr
    | complete vectors _ hindexed => exact ⟨vectors, hindexed⟩
  obtain ⟨files', f₁, g₁, hfiles', hclear, hindex, hend⟩ := steps_of_analyze h
  obtain rfl : files = files' := Except.ok.inj (hfiles.symm.trans hfiles')
  have hsame : f.SameConfiguration f₁ := by
    have hkin := keeps_clearAll c { f with progress := Progress.advance {} .extractingSymbols }
    rw [hclear] at hkin
    exact ⟨hkin.setup, hkin.store.maxResults, hkin.store.cached⟩
  obtain ⟨hsources, hprogress, -⟩ := clearAll_cases hclear
  have hengine : f₁.engine = f.engine := hsources.engine
  have hembeds : ∀ symbols, f₁.Embeds symbols = f.Embeds symbols := by
    intro symbols
    funext vectors
    rw [Embeds, Embeds, selected_of_setup hsame.setup, hengine]
  obtain ⟨vectors', answers, context, hembed, hanswers, hreport, hcount⟩ :=
    indexFiles_ok (by rw [hprogress]; rfl) (fun hcached vectors hembed => hsame.queriesDiffer (by
      rw [cutoff_of_setup hsame.setup]
      rw [hembeds, hsame.symbolsIn rfl] at hembed
      exact hdiffer (hsame.cached ▸ hcached) files vectors hfiles hembed)) hindex
  rw [hembeds, hsame.symbolsIn rfl] at hembed
  obtain rfl : vectors = vectors' := Except.ok.inj (hindexed.embed.symm.trans hembed)
  rw [hsame.symbolsIn rfl, selected_of_setup hsame.setup] at hreport hcount
  rw [hsame.maxResults, cutoff_of_setup hsame.setup, ← hend.backend] at hanswers
  have hconfig : f₁.config = f.config := congrArg Setup.config hsame.setup
  rw [hconfig] at hreport
  refine ⟨files, vectors, answers, hfiles, hembed, fun id => ?_, hindexed.fileState_all, hanswers,
    context, hreport, hcount⟩
  rw [hindexed.rows id, Option.or_none]

/-- A run reports something if the vectors of two of its symbols are similar enough, and a query has
room for all rows. -/
theorem Afresh.findings_ne_nil {c : RunConditions} {o : RunOptions} {files : List String}
    {vectors : List Embedding} {answers : BatchAnswer} {f g : Finder} {report : Report}
    (h : Afresh c o files vectors answers f report g) {records : List Record}
    (hrecords : g.store.backend.records = .ok records) (hroom : records.length ≤ f.store.maxResults)
    {i : Nat} {s s' : Symbol} {v : Embedding} {r : Record}
    (hs : (f.selected (f.symbolsIn c files))[i]? = some s)
    (hs' : s' ∈ f.selected (f.symbolsIn c files)) (hne : s.id ≠ s'.id)
    (hv : vectors[i]? = some v) (hr : r ∈ records) (hid : r.id = s'.id)
    (hscore : f.cutoff o.threshold ≤ Embedding.cosine v r.vector) : report.findings ≠ [] := by
  obtain ⟨m, hnear, hmid, -⟩ := exists_near_of_record hrecords hroom hs hv hr hscore
  obtain ⟨d, hd, -⟩ := exists_duplicate_of_mem h.answered f.config.finder.thresholds
    (List.mem_of_getElem? hs) hs' hnear (hmid.trans hid) hne
  obtain ⟨context, rfl, -⟩ := h.reported
  intro hempty
  rw [Report.make, List.mapIdx_eq_nil_iff] at hempty
  rw [hempty] at hd
  cases hd

/-- Two full runs over the same files, of finders with the same configuration, report and leave the
same. -/
theorem Afresh.agree {c c' : RunConditions} {o : RunOptions} {files : List String}
    {vectors vectors' : List Embedding} {answers answers' : BatchAnswer} {f f' g g' : Finder}
    {report report' : Report} (hsame : f.SameConfiguration g) (hviews : c'.views = c.views)
    (hmodel : Engine.Memoryless f.engine.model) (hf : Afresh c o files vectors answers f report f')
    (hg : Afresh c' o files vectors' answers' g report' g') :
    report'.findings = report.findings ∧ report'.counts = report.counts ∧
      report'.context.stats.symbolsExtracted = report.context.stats.symbolsExtracted ∧
      f'.Agrees g' := by
  have hselected : g.selected = f.selected := selected_of_setup hsame.setup
  have hconfig : g.config = f.config := congrArg Setup.config hsame.setup
  have hrowOf : g.store.backend.rowOf = f.store.backend.rowOf := congrArg Setup.rowOf hsame.setup
  have hembeds := hg.embeds
  rw [hsame.symbolsIn hviews, hsame.embeds_iff hmodel] at hembeds
  obtain rfl : vectors = vectors' := Except.ok.inj (hf.embeds.symm.trans hembeds)
  have hrows : ∀ id, g'.row? id = f'.row? id := fun id => by
    rw [hf.rows, hg.rows, hsame.symbolsIn hviews, hselected, hrowOf]
  have hanswered := hg.answered
  rw [Backend.answerAll_congr (Backend.records_congr hrows), hsame.maxResults,
    cutoff_of_setup hsame.setup, hf.answered] at hanswered
  obtain rfl : answers = answers' := Except.ok.inj hanswered
  obtain ⟨context, rfl, hcount⟩ := hf.reported
  obtain ⟨context', rfl, hcount'⟩ := hg.reported
  rw [hsame.symbolsIn hviews, hselected] at hcount' ⊢
  rw [hconfig]
  refine ⟨rfl, rfl, hcount'.trans hcount.symm, ?_, fun id => (hrows id).symm⟩
  rw [hf.fileState, hg.fileState, hsame.recordsIn hviews]

/-- Whatever two finders of one configuration have been used for, a full run over the same files
that succeeds in both reports the same findings and leaves the same index, if the model has no memory
and, where answers are remembered, the queries of the run have digests of their own. -/
theorem analyze_independent {first first' f g f' g' : Finder} {c c' : RunConditions}
    {o : RunOptions} {top : String} {patterns : List String} {report report' : Report}
    (hsame : first.SameConfiguration first') (hf : first.Reaches f) (hg : first'.Reaches g)
    (hviews : c'.views = c.views) (hmodel : Engine.Memoryless first.engine.model)
    (hdiffer : first.store.cache.isSome → ∀ files vectors, discover c.views.scan first.root
        (FilePath.tidy (FilePath.join first.root top)) patterns first.filter = .ok files →
      first.Embeds (first.symbolsIn c files) vectors →
        first.QueriesDiffer (first.cutoff o.threshold) vectors)
    (hrun : analyze c o top patterns f = (.ok report, f'))
    (hrun' : analyze c' o top patterns g = (.ok report', g')) :
    report'.findings = report.findings ∧ report'.counts = report.counts ∧
      report'.context.stats.symbolsExtracted = report.context.stats.symbolsExtracted ∧
      f'.Agrees g' := by
  have hfirst : ∀ {h}, first.SameConfiguration h → ∀ {c₁ : RunConditions}, c₁.views = c.views →
      h.store.cache.isSome → ∀ files vectors, discover c₁.views.scan h.root
        (FilePath.tidy (FilePath.join h.root top)) patterns h.filter = .ok files →
          h.Embeds (h.symbolsIn c₁ files) vectors →
            h.QueriesDiffer (h.cutoff o.threshold) vectors := by
    intro h hconfigured c₁ hseen hcached files vectors hfiles hembed
    have hroot : h.root = first.root := congrArg Setup.root hconfigured.setup
    have hfilter : h.filter = first.filter := congrArg Setup.filter hconfigured.setup
    rw [hseen, hroot, hfilter] at hfiles
    rw [hconfigured.symbolsIn hseen, hconfigured.embeds_iff hmodel] at hembed
    rw [cutoff_of_setup hconfigured.setup]
    exact hconfigured.queriesDiffer
      (hdiffer (hconfigured.cached ▸ hcached) files vectors hfiles hembed)
  have hf₀ : first.SameConfiguration f := hf.kin.sameConfiguration
  have hg₀ : first.SameConfiguration g := hsame.trans hg.kin.sameConfiguration
  have hfg : f.SameConfiguration g := hf₀.symm.trans hg₀
  obtain ⟨files, vectors, answers, hfiles, hfresh⟩ := analyze_ok (hfirst hf₀ rfl) hrun
  obtain ⟨files', vectors', answers', hfiles', hfresh'⟩ := analyze_ok (hfirst hg₀ hviews) hrun'
  have hroot : g.root = f.root := congrArg Setup.root hfg.setup
  have hfilter : g.filter = f.filter := congrArg Setup.filter hfg.setup
  rw [hviews, hroot, hfilter, hfiles] at hfiles'
  obtain rfl : files = files' := Except.ok.inj hfiles'
  have hmodel' : f.engine.model = first.engine.model := congrArg Setup.model hf₀.setup
  exact hfresh.agree hfg hviews (hmodel' ▸ hmodel) hfresh'

/-- Surroundings in which the workspace `/ws` holds a script only. -/
def scriptConditions (text : String) : RunConditions where
  views := .still (.directory [("ws", .directory [("a.js", .file text.toUTF8)])])
  search := { usage := fun _ => 0, query := fun _ => {} }

/-- A full run over the script with a text. -/
def scriptRun (text : String) : Call := .full (scriptConditions text) {} "." []

/-- A script of two functions. -/
def twoAlike : String := "function f() {}\nfunction g() {}\n"

/-- A script of another function. -/
def another : String := "function h() {}\n"

/-- Vectors of which the other one is near that of the first function. -/
def alike (text : String) : Embedding :=
  if text = "name: f | type: function | content: function f() {}" then [1, 0] else [4, 3]

/-- A finder with these vectors and an empty index. -/
def comparing : Finder := { unindexed with
  engine := ⟨⟨"alike", 2, fun calls => .ok ((calls.headD []).map alike)⟩, 1, false, []⟩ }

/-- The finder after a run over the other function. -/
def afterAnother : Finder := (scriptRun another).after comparing

private theorem discover_script : discover (scriptConditions twoAlike).views.scan comparing.root
    (FilePath.tidy (FilePath.join comparing.root ".")) [] comparing.filter = .ok ["/ws/a.js"] :=
  eq_ok_of_toOption (by decide +kernel)

private theorem embeds_alike : comparing.Embeds
    (comparing.symbolsIn (scriptConditions twoAlike) ["/ws/a.js"]) [[1, 0], [4, 3]] := by
  rw [Embeds]
  exact eq_ok_of_toOption (by decide +kernel)

private theorem ids_alike :
    (comparing.selected (comparing.symbolsIn (scriptConditions twoAlike) ["/ws/a.js"])).map
      Symbol.id = [Symbol.identity "a.js" "f" 1 .function, Symbol.identity "a.js" "g" 2 .function] ∧
    Symbol.identity "a.js" "f" 1 .function ≠ Symbol.identity "a.js" "g" 2 .function := by
  decide +kernel

private theorem queriesDiffer_alike : ∀ files vectors,
    discover (scriptConditions twoAlike).views.scan comparing.root
      (FilePath.tidy (FilePath.join comparing.root ".")) [] comparing.filter = .ok files →
    comparing.Embeds (comparing.symbolsIn (scriptConditions twoAlike) files) vectors →
      comparing.QueriesDiffer (comparing.cutoff none) vectors := by
  intro files vectors hfiles hembed
  obtain rfl : files = ["/ws/a.js"] := Except.ok.inj (hfiles.symm.trans discover_script)
  obtain rfl : vectors = [[1, 0], [4, 3]] := Except.ok.inj (hembed.symm.trans embeds_alike)
  exact .of_nodup (by decide +kernel)

/-- The run succeeds, and the record of the second function is near the first one. -/
private theorem alike_run : (analyze (scriptConditions twoAlike) {} "." [] comparing).1.isOk ∧
    ∃ records ∈ (analyze (scriptConditions twoAlike) {} "."
        [] comparing).2.store.backend.records.toOption,
      records.length ≤ comparing.store.maxResults ∧
      ∃ r ∈ records, r.id = Symbol.identity "a.js" "g" 2 .function ∧
        comparing.cutoff none ≤ Embedding.cosine [1, 0] r.vector := by
  decide +kernel

/-- The two functions are reported. -/
private theorem findings_ne_nil_alike {report : Report} {f' : Finder}
    (hrun : analyze (scriptConditions twoAlike) {} "." [] comparing = (.ok report, f')) :
    report.findings ≠ [] := by
  obtain ⟨-, records, hrecords, hroom, r, hr, hid, hscore⟩ := alike_run
  obtain ⟨hids, hne⟩ := ids_alike
  rw [hrun] at hrecords
  have hselected : ∀ (found : List Symbol) (i : Nat) (id : String),
      (found.map Symbol.id)[i]? = some id → ∃ s : Symbol, found[i]? = some s ∧ s.id = id := by
    intro found i id h
    rwa [List.getElem?_map, Option.map_eq_some_iff] at h
  obtain ⟨files, vectors, answers, hfiles, hfresh⟩ :=
    analyze_ok (o := {}) (fun _ => queriesDiffer_alike) hrun
  obtain rfl : files = ["/ws/a.js"] := Except.ok.inj (hfiles.symm.trans discover_script)
  obtain rfl : vectors = [[1, 0], [4, 3]] :=
    Except.ok.inj (hfresh.embeds.symm.trans embeds_alike)
  obtain ⟨s, hs, hsid⟩ := hselected _ 0 _ (congrArg (·[0]?) hids)
  obtain ⟨s', hs', hsid'⟩ := hselected _ 1 _ (congrArg (·[1]?) hids)
  rw [← hsid, ← hsid'] at hne
  have hfirst : ([[1, 0], [4, 3]] : List Embedding)[0]? = some [1, 0] := rfl
  exact hfresh.findings_ne_nil (eq_ok_of_toOption hrecords) hroom hs (List.mem_of_getElem? hs')
    hne hfirst hr (hid.trans hsid'.symm) hscore

/-- The run succeeds as well after one over the other function, whose row is then gone. -/
private theorem alike_run_afterAnother :
    (analyze (scriptConditions twoAlike) {} "." [] afterAnother).1.isOk ∧
    (afterAnother.row? (Symbol.identity "a.js" "h" 1 .function)).isSome ∧
    (analyze (scriptConditions twoAlike) {} "." [] afterAnother).2.row?
      (Symbol.identity "a.js" "h" 1 .function) = none := by
  decide +kernel

/-- A full run over two functions reports and leaves the same after another function was indexed as at
first: the two are near each other, and the row of the other one is gone. -/
theorem agrees_after_another : ∃ report report' f' g',
    (afterAnother.row? (Symbol.identity "a.js" "h" 1 .function)).isSome ∧
      g'.row? (Symbol.identity "a.js" "h" 1 .function) = none ∧
      analyze (scriptConditions twoAlike) {} "." [] comparing = (.ok report, f') ∧
      analyze (scriptConditions twoAlike) {} "." [] afterAnother = (.ok report', g') ∧
      report.findings ≠ [] ∧ report'.findings = report.findings ∧
      report'.counts = report.counts ∧
      report'.context.stats.symbolsExtracted = report.context.stats.symbolsExtracted ∧
      f'.Agrees g' := by
  obtain ⟨hok, -⟩ := alike_run
  obtain ⟨hok', hrow, hgone⟩ := alike_run_afterAnother
  rcases hrun : analyze (scriptConditions twoAlike) {} "." [] comparing with ⟨_ | report, f'⟩
  · rw [hrun] at hok
    cases hok
  rcases hrun' : analyze (scriptConditions twoAlike) {} "." [] afterAnother with ⟨_ | report', g'⟩
  · rw [hrun'] at hok'
    cases hok'
  have hfound := findings_ne_nil_alike hrun
  rw [hrun'] at hgone
  have hsame : comparing.SameConfiguration comparing := ⟨rfl, rfl, rfl⟩
  have hreaches : comparing.Reaches afterAnother := .call .refl _
  have hmemoryless : Engine.Memoryless comparing.engine.model := fun _ _ _ => rfl
  exact ⟨report, report', f', g', hrow, hgone, rfl, rfl, hfound,
    analyze_independent (o := {}) hsame .refl hreaches rfl hmemoryless
      (fun _ => queriesDiffer_alike) hrun hrun'⟩

/-- A finder whose model, after the probe, gives two texts one vector when it is asked for the first
time, and tells them apart from then on. -/
def learning : Finder := { unindexed with
  engine := ⟨⟨"learning", 2, fun calls =>
    .ok ([[[1, 0]], [[1, 0], [1, 0]]].getD (calls.length - 1) [[1, 0], [0, 1]])⟩, 32, false,
    [[Engine.probeText]]⟩ }

/-- Over a model with a memory a full run leaves other vectors than the same run before it. -/
theorem not_agrees_of_learning : ∃ report report' f' g',
    learning.Reaches ((scriptRun twoAlike).after learning) ∧
      analyze (scriptConditions twoAlike) {} "." [] learning = (.ok report, f') ∧
      analyze (scriptConditions twoAlike) {} "." [] ((scriptRun twoAlike).after learning) =
        (.ok report', g') ∧
      ¬f'.Agrees g' := by
  obtain ⟨hok, hok', hrows⟩ :
      (analyze (scriptConditions twoAlike) {} "." [] learning).1.isOk ∧
      (analyze (scriptConditions twoAlike) {} "." [] ((scriptRun twoAlike).after learning)).1.isOk ∧
      (analyze (scriptConditions twoAlike) {} "."
          [] learning).2.store.backend.records.toOption.map (·.map (·.vector)) ≠
        (analyze (scriptConditions twoAlike) {} "." [] ((scriptRun twoAlike).after
          learning)).2.store.backend.records.toOption.map (·.map (·.vector)) := by
    decide +kernel
  rcases hrun : analyze (scriptConditions twoAlike) {} "." [] learning with ⟨_ | report, f'⟩
  · rw [hrun] at hok
    cases hok
  rcases hrun' : analyze (scriptConditions twoAlike) {} "." []
      ((scriptRun twoAlike).after learning) with ⟨_ | report', g'⟩
  · rw [hrun'] at hok'
    cases hok'
  rw [hrun, hrun'] at hrows
  refine ⟨report, report', f', g', .call .refl _, rfl, rfl, fun h => hrows ?_⟩
  dsimp only
  rw [Backend.records_congr h.rows]

end Finder

end CodeClones
