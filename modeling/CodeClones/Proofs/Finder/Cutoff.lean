import CodeClones.Proofs.Finder.Order
import CodeClones.Proofs.Store.Scores

/-!
# The cutoff of a search

A search lists no pair that scores below its own cutoff, which the caller may set to any value
within range. So it lists nothing below the low threshold as long as the caller asks for no less
than that; and at a lower cutoff it lists, besides what it lists at the low threshold, the pairs in
between.
-/

namespace CodeClones

/-! ## Pairs that score high enough -/

theorem firstMet_congr {seen seen' : List (String × String)} {ps : List (Symbol × Match)}
    (h : ∀ p ∈ ps, p.2.id ≠ p.1.id → (pairOf p ∈ seen ↔ pairOf p ∈ seen')) :
    firstMet seen ps = firstMet seen' ps := by
  induction ps generalizing seen seen' with
  | nil => rfl
  | cons p rest ih =>
    have hrest : ∀ q ∈ rest, q.2.id ≠ q.1.id → (pairOf q ∈ seen ↔ pairOf q ∈ seen') :=
      fun q hq => h q (List.mem_cons_of_mem _ hq)
    rw [firstMet, firstMet]
    by_cases hself : p.2.id = p.1.id
    · rw [if_pos (Or.inl hself), if_pos (Or.inl hself)]
      exact ih hrest
    · have hseen := h p (List.mem_cons_self ..) hself
      by_cases hp : pairOf p ∈ seen
      · rw [if_pos (Or.inr hp), if_pos (Or.inr (hseen.mp hp))]
        exact ih hrest
      · rw [if_neg (not_or.mpr ⟨hself, hp⟩), if_neg (not_or.mpr ⟨hself, hseen.not.mp hp⟩)]
        refine congrArg (p :: ·) (ih fun q hq hne => ?_)
        rw [List.mem_cons, List.mem_cons, hrest q hq hne]

/-- If a pair is kept or left out as a whole, it is met first at the same place in what is kept. -/
theorem firstMet_filter {keep : Symbol × Match → Bool} {ps : List (Symbol × Match)}
    (h : ∀ p ∈ ps, ∀ q ∈ ps, p.2.id ≠ p.1.id → pairOf p = pairOf q → keep p = keep q)
    (seen : List (String × String)) :
    firstMet seen (ps.filter keep) = (firstMet seen ps).filter keep := by
  induction ps generalizing seen with
  | nil => rfl
  | cons p rest ih =>
    have hrest : ∀ a ∈ rest, ∀ b ∈ rest, a.2.id ≠ a.1.id → pairOf a = pairOf b →
        keep a = keep b :=
      fun a ha b hb => h a (List.mem_cons_of_mem _ ha) b (List.mem_cons_of_mem _ hb)
    by_cases hskip : p.2.id = p.1.id ∨ pairOf p ∈ seen
    · rw [firstMet, if_pos hskip, ← ih hrest seen]
      by_cases hkeep : keep p
      · rw [List.filter_cons_of_pos hkeep, firstMet, if_pos hskip]
      · rw [List.filter_cons_of_neg hkeep]
    · rw [firstMet, if_neg hskip]
      by_cases hkeep : keep p
      · rw [List.filter_cons_of_pos hkeep, List.filter_cons_of_pos hkeep, firstMet, if_neg hskip,
          ih hrest]
      · rw [List.filter_cons_of_neg hkeep, List.filter_cons_of_neg hkeep, ← ih hrest]
        -- nothing that is kept later is the pair that was left out here
        refine firstMet_congr fun q hq _ => ?_
        obtain ⟨hmem, hkept⟩ := List.mem_filter.mp hq
        have hne : pairOf q ≠ pairOf p := fun he => hkeep
          ((h p (List.mem_cons_self ..) q (List.mem_cons_of_mem _ hmem) (not_or.mp hskip).1
            he.symm).trans hkept)
        rw [List.mem_cons, or_iff_right hne]

theorem met_raise (symbols : List Symbol) (answers : BatchAnswer) (threshold : Float32) :
    met symbols (answers.map fun p => (p.1, raise threshold p.2)) =
      (met symbols answers).filter fun p => threshold ≤ p.2.score := by
  rw [met, met, List.flatMap_map, List.filter_flatMap]
  refine List.flatMap_congr fun p _ => ?_
  rw [List.filter_flatMap]
  refine List.flatMap_congr fun s _ => ?_
  rw [List.filter_map, raise]
  rfl

section Answered

variable {symbols : List Symbol} {b : Backend} {k : Nat} {threshold higher : Float32}
  {vec : Symbol → Embedding} {t : Thresholds}

/-- The pairs in the answers at a higher threshold are those that reach it. -/
theorem duplicatesIn_raise (hids : (symbols.map Symbol.id).Nodup) (hb : b.Holds vec symbols)
    {answers : BatchAnswer}
    (hanswers : b.answerAll k threshold (VectorStore.positioned (symbols.map vec)) = .ok answers) :
    (duplicatesIn symbols (answers.map fun p => (p.1, raise higher p.2)) t).Perm
      ((duplicatesIn symbols answers t).filter fun d => higher ≤ d.score) := by
  have hmet : ∀ {s m}, (s, m) ∈ met symbols answers ↔
      Near symbols (symbols.map vec) b k threshold s m := mem_met_iff_near hanswers
  have hsame : ∀ p ∈ met symbols answers, ∀ q ∈ met symbols answers, p.2.id ≠ p.1.id →
      pairOf p = pairOf q → decide (higher ≤ p.2.score) = decide (higher ≤ q.2.score) := by
    rintro ⟨s, m⟩ hp ⟨s', m'⟩ hq _ hpair
    have hscore : m.score = m'.score :=
      (hmet.mp hp).score_eq_of_pair hids hb (hmet.mp hq) hpair
    rw [hscore]
  have hmade : ∀ p : Symbol × Match,
      (if decide (higher ≤ p.2.score) then made? symbols t p else none) =
        (made? symbols t p).filter fun d => higher ≤ d.score := by
    intro p
    rw [made?]
    cases p.2.symbol? symbols with
    | none => simp
    | some other => rfl
  refine (duplicatesIn_perm_made ..).trans
    (List.Perm.trans (.of_eq ?_) ((duplicatesIn_perm_made symbols answers t).filter _).symm)
  rw [met_raise, firstMet_filter hsame, List.filterMap_filter, List.filter_filterMap]
  exact congrArg (List.filterMap · _) (funext hmade)

/-- The vector of a symbol is read back, where the backend answers at all. -/
theorem exists_record (hb : b.Holds vec symbols) {s : Symbol} (hs : s ∈ symbols)
    {answers : BatchAnswer}
    (hanswers : b.answerAll k threshold (VectorStore.positioned (symbols.map vec)) = .ok answers) :
    ∃ records r, b.records = .ok records ∧ r ∈ records ∧ r.id = s.id ∧ r.vector = vec s := by
  cases hrecords : b.records with
  | error e =>
    have hne : VectorStore.positioned (symbols.map vec) ≠ [] := by
      have hsymbols : symbols ≠ [] := List.ne_nil_of_mem hs
      simpa [VectorStore.positioned] using hsymbols
    rw [Backend.answerAll_of_unreadable hrecords hne] at hanswers
    cases hanswers
  | ok records =>
    obtain ⟨metadata, hrow⟩ := hb s hs
    have hlegible : (b.rowOf ⟨s.id, vec s, metadata⟩).Legible := by
      by_contra hnot
      obtain ⟨cause, herror⟩ := Backend.records_of_not_legible hrow hnot
      cases hrecords.symm.trans herror
    obtain ⟨vector, readable, hread⟩ := hlegible
    have hr : (⟨s.id, vector, readable⟩ : Record) ∈ records :=
      (Backend.mem_records_iff hrecords).mpr (hrow.trans (congrArg some hread))
    exact ⟨records, _, rfl, hr, rfl, @Backend.vector_of_rowOf b ⟨s.id, vec s, metadata⟩
      ⟨s.id, vector, readable⟩ hread⟩

/-- Symbols that differ can be told their vectors by a function. -/
theorem exists_eq_map {vectors : List Embedding} (hnodup : symbols.Nodup)
    (hlength : vectors.length = symbols.length) :
    ∃ vec : Symbol → Embedding, vectors = symbols.map vec := by
  refine ⟨fun s => vectors.getD (symbols.idxOf s) [], List.ext_getElem ?_ fun i h₁ h₂ => ?_⟩
  · rw [List.length_map, hlength]
  · rw [List.getElem_map, hnodup.idxOf_getElem, List.getD_eq_getElem?_getD,
      List.getElem?_eq_getElem h₁, Option.getD_some]

end Answered

/-! ## The scores that a call gives -/

/-- The scores of the findings. -/
def Report.scores (r : Report) : List Float32 := r.findings.map fun f => f.evidence.score

theorem Report.scores_make (duplicates : List Duplicate) (context : RunContext) (whole : Bool) :
    (make duplicates context whole).scores = duplicates.map Duplicate.score := by
  change (duplicates.mapIdx fun i d => d.toFinding i whole).map (fun f => f.evidence.score) = _
  rw [List.mapIdx_eq_zipIdx_map, List.map_map, ← List.zipIdx_map_fst 0 duplicates, List.map_map]
  simp only [List.zipIdx_map_fst]
  rfl

/-- A part of a run gives no score below the cutoff of the finder that it starts from. -/
def RunStep.Cuts {α : Type} (threshold : Option Float32) (scores : α → List Float32)
    (x : RunStep α) : Prop :=
  ∀ f a g, x f = (.ok a, g) → ∀ score ∈ scores a, f.cutoff threshold ≤ score

namespace RunStep

variable {α β : Type} {threshold : Option Float32} {scores : β → List Float32}

/-- What comes before does not matter if it keeps the configuration. -/
theorem Cuts.bind {x : RunStep α} {k : α → RunStep β} (hx : x.Keeps)
    (hk : ∀ a, (k a).Cuts threshold scores) : (x >>= k).Cuts threshold scores := by
  intro f b g h
  obtain ⟨a, f₁, hfirst, hrest⟩ := bind_ok h
  have hkin := hx f
  rw [hfirst] at hkin
  rw [← Finder.cutoff_of_setup hkin.setup]
  exact hk a f₁ b g hrest

theorem Cuts.get_bind {k : Finder → RunStep β} (hk : ∀ f, (k f).Cuts threshold scores) :
    (get >>= k).Cuts threshold scores :=
  .bind (fun f => .refl f) hk

/-- A check does not matter if a refusal is followed by the same. -/
theorem Cuts.after_check {p : Prop} [Decidable p] {refusal : RunStep α} {x : RunStep β}
    (hrefusal : refusal.Keeps) (hx : x.Cuts threshold scores) :
    (if p then refusal >>= fun _ => x else x).Cuts threshold scores := by
  split
  · exact .bind hrefusal fun _ => hx
  · exact hx

theorem Cuts.running {work : RunStep β} (h : work.Cuts threshold scores) :
    (Finder.running work).Cuts threshold scores := by
  intro f b g hrun
  exact h { f with progress := Progress.advance {} .extractingSymbols } b g
    (Finder.running_ok hrun)

end RunStep

namespace Finder

open RunStep

variable {threshold : Option Float32}

theorem cuts_failAt {α : Type} {scores : α → List Float32} (fault : Fault) (stage : Stage)
    (reason : String) : (failAt fault stage reason : RunStep α).Cuts threshold scores := by
  intro f a g h
  cases h

/-- The neighbours that are found are those in the answers of a store that took the vectors. -/
theorem searchNeighbours_ok {c : RunConditions} {symbols : List Symbol} {vectors : List Embedding}
    {cutoff : Float32} {answers : BatchAnswer} {f g : Finder}
    (h : searchNeighbours c symbols vectors cutoff f = (.ok answers, g)) :
    ∀ p ∈ answers, AtLeast cutoff p.2 := by
  rw [searchNeighbours, bind_of_ok (advance_apply ..)] at h
  obtain ⟨s, _, hs, ⟨_, _, hr, _⟩ | ⟨_, rfl, hk⟩⟩ := callStore_bind_cases h
  · cases hr
  rw [bind_of_ok (advance_apply ..)] at hk
  obtain ⟨s', _, hs', _, ⟨_, rfl, hr⟩ | ⟨_, _, hr⟩⟩ := callStore_cases hk
  · cases hr
    exact VectorStore.batch_of_upsert_atLeast hs hs'
  · cases hr

theorem cuts_detect (c : RunConditions) (symbols : List Symbol) :
    (detect c symbols threshold).Cuts threshold
      fun d => d.duplicates.map Duplicate.score := by
  intro f d g h
  rw [detect, get_bind] at h
  dsimp only at h
  split at h
  · rw [bind_of_error (failAt_apply ..)] at h
    cases h
  obtain ⟨vectors, f₁, -, h⟩ := bind_ok h
  obtain ⟨answers, f₂, hanswers, h⟩ := bind_ok h
  rw [bind_of_ok (advance_apply ..)] at h
  cases h
  intro score hscore
  obtain ⟨d, hd, rfl⟩ := List.mem_map.mp hscore
  obtain ⟨m, hmem, -, -, hdm⟩ := met_of_mem_duplicatesIn hd
  obtain ⟨i, hits, hanswer, -, hm⟩ := mem_met.mp hmem
  rw [hdm]
  exact searchNeighbours_ok hanswers (i, hits) hanswer m hm

theorem cuts_findDuplicates (c : RunConditions) (symbols : List Symbol) :
    (findDuplicates c symbols threshold).Cuts threshold (List.map Duplicate.score) := by
  refine Cuts.running fun f listed g h => ?_
  obtain ⟨d, f₁, hdetect, hk⟩ := bind_ok h
  rw [bind_of_ok (advance_apply ..)] at hk
  cases hk
  exact cuts_detect c symbols f d f₁ hdetect

theorem cuts_indexFiles (c : RunConditions) (o : RunOptions) (files deleted : List String)
    (mode : AnalysisMode) (changedFiles : Option (List String)) :
    (indexFiles c o files deleted mode changedFiles).Cuts o.threshold Report.scores := by
  intro f report g h
  cases indexFiles_steps h with
  | reported hf₁ hdetect _ hreport =>
    obtain ⟨context, rfl, -⟩ := finishReport_ok hreport
    rw [Report.scores_make, ← cutoff_of_setup hf₁.same.setup]
    exact cuts_detect c _ _ _ _ hdetect

theorem cuts_analyze (c : RunConditions) (o : RunOptions) (top : String) (patterns : List String) :
    (analyze c o top patterns).Cuts o.threshold Report.scores := by
  refine Cuts.running (.get_bind fun f => .after_check (keeps_failAt _ _ _) ?_)
  refine .bind (keeps_clearAll c) fun _ => ?_
  split
  · exact cuts_failAt _ _ _
  · exact cuts_indexFiles _ _ _ _ _ _

theorem cuts_runPlan (c : RunConditions) (o : RunOptions) (plan : Plan) :
    (runPlan c o plan).Cuts o.threshold Report.scores :=
  .get_bind fun _ => .bind (keeps_purgeFrom _ _ _) fun _ => cuts_indexFiles _ _ _ _ _ _

theorem cuts_analyzeChanges (c : RunConditions) (o : RunOptions) (files : Option (List String)) :
    (analyzeChanges c o files).Cuts o.threshold Report.scores := by
  refine .get_bind fun f => ?_
  cases files with
  | some files => exact .running (cuts_runPlan _ _ _)
  | none =>
    dsimp only
    split
    · exact .running (.bind (keeps_planChanged c) fun _ => cuts_runPlan _ _ _)
    · exact cuts_analyze _ _ _ _

/-! ## The low threshold -/

theorem low_le_medium (t : Thresholds) : t.low ≤ t.medium := by
  have hladder := t.valid
  simp only [isLadder, Bool.and_eq_true, decide_eq_true_eq] at hladder
  exact Single.le_of_lt hladder.1.1.2

/-- Scores that all reach the cutoff of a call, and with it the low threshold unless the caller has
asked for less. -/
structure Cut (f : Finder) (threshold : Option Float32) (scores : List Float32) : Prop where
  cutoff : ∀ score ∈ scores, f.cutoff threshold ≤ score
  low : f.config.finder.thresholds.low ≤ f.cutoff threshold →
    ∀ score ∈ scores, f.config.finder.thresholds.low ≤ score

theorem cut_of_cuts {α : Type} {scores : α → List Float32} {x : RunStep α} {f g : Finder} {a : α}
    (hx : x.Cuts threshold scores) (h : x f = (.ok a, g)) : f.Cut threshold (scores a) where
  cutoff := hx f a g h
  low hlow score hscore := Single.le_trans hlow (hx f a g h score hscore)

/-- At a higher cutoff a search lists the same pairs without those that do not reach it. -/
theorem findDuplicates_raise {f g g' : Finder} {c c' : RunConditions} {symbols : List Symbol}
    {higher : Float32} {listed listed' : List Duplicate} (hids : (symbols.map Symbol.id).Nodup)
    (hdiffer : f.store.cache.isSome → ∀ vectors, f.Embeds symbols vectors →
      f.QueriesDiffer (f.cutoff threshold) vectors ∧ f.QueriesDiffer higher vectors)
    (hle : f.cutoff threshold ≤ higher)
    (h : findDuplicates c symbols threshold f = (.ok listed, g))
    (h' : findDuplicates c' symbols (some higher) f = (.ok listed', g')) :
    listed'.Perm (listed.filter fun d => higher ≤ d.score) := by
  obtain ⟨-, vectors, answers, hembed, hsearch, rfl⟩ := findDuplicates_searched h
  obtain ⟨-, vectors', answers', hembed', hsearch', rfl⟩ := findDuplicates_searched h'
  obtain rfl : vectors = vectors' := Except.ok.inj (hembed.symm.trans hembed')
  have hanswers := hsearch.answered fun hsome => (hdiffer hsome vectors hembed).1.keysApart
  have hanswers' := hsearch'.answered fun hsome => (hdiffer hsome vectors hembed).2.keysApart
  have hrecords : g'.store.backend.records = g.store.backend.records :=
    Backend.records_congr fun id =>
      (hsearch'.stored.rows id).trans (hsearch.stored.rows id).symm
  have hraised := Backend.answerAll_raise hle hanswers
  rw [Backend.answerAll_congr hrecords] at hanswers'
  obtain rfl := Except.ok.inj (hraised.symm.trans hanswers')
  have hselected := nodup_selected (f := f) hids
  obtain ⟨vec, rfl⟩ := exists_eq_map hselected.of_map hsearch.stored.length
  exact duplicatesIn_raise hselected (hsearch.stored.holds hselected) hanswers

/-- With room for all that is stored, a search lists any two of its symbols whose vectors are
similar enough. -/
theorem exists_listed {f g : Finder} {c : RunConditions} {symbols : List Symbol}
    {listed : List Duplicate} {vec : Symbol → Embedding} {s s' : Symbol}
    (hids : (symbols.map Symbol.id).Nodup)
    (hdiffer : f.store.cache.isSome → ∀ vectors, f.Embeds symbols vectors →
      f.QueriesDiffer (f.cutoff threshold) vectors)
    (h : findDuplicates c symbols threshold f = (.ok listed, g))
    (hroom : ∀ records, g.store.backend.records = .ok records →
      records.length ≤ f.store.maxResults)
    (hvec : f.Embeds symbols ((f.selected symbols).map vec)) (hs : s ∈ f.selected symbols)
    (hs' : s' ∈ f.selected symbols) (hne : s.id ≠ s'.id)
    (hle : f.cutoff threshold ≤ Embedding.cosine (vec s) (vec s')) :
    ∃ d ∈ listed, orderedPair d.a.id d.b.id = orderedPair s.id s'.id ∧
      d.score = Embedding.cosine (vec s) (vec s') := by
  obtain ⟨-, vectors, answers, hembed, hsearch, rfl⟩ := findDuplicates_searched h
  obtain rfl : vectors = (f.selected symbols).map vec := Except.ok.inj (hembed.symm.trans hvec)
  have hanswers := hsearch.answered fun hsome => (hdiffer hsome _ hembed).keysApart
  have hselected := nodup_selected (f := f) hids
  have hholds := hsearch.stored.holds hselected
  obtain ⟨records, r, hrecords, hr, hid, hvector⟩ := exists_record hholds hs' hanswers
  obtain ⟨i, hi⟩ := List.mem_iff_getElem?.mp hs
  obtain ⟨m, hnear, hmid, -⟩ := exists_near_of_record hrecords (hroom records hrecords) hi
    (by rw [List.getElem?_map, hi]; rfl) hr (hvector ▸ hle)
  have hm : m.id = s'.id := hmid.trans hid
  obtain ⟨d, hd, hpair, a, m', hnear', hpair', hscore⟩ :=
    exists_duplicate_of_mem hanswers f.config.finder.thresholds hs hs' hnear hm hne
  refine ⟨d, hd, hpair, hscore.trans ?_⟩
  exact (hnear'.score_eq_of_pair hselected hholds hnear hpair').trans
    (hnear.score_eq hholds hs' hm)

/-- Whatever a finder has indexed and remembered, and whatever is refused to it, no call reports a
score below its cutoff; nor one below the low threshold, if the caller leaves the cutoff as it is
configured or asks for no less than the low threshold. A caller who asks for less is given what is
found at the low threshold and all pairs in between, and so at any cutoff what is found at a higher
one and all pairs in between: with room for all that is stored, every two of the symbols whose
vectors are similar enough. -/
theorem scores_within_cutoff (f : Finder) :
    (∀ c symbols threshold listed g, findDuplicates c symbols threshold f = (.ok listed, g) →
      inUnitRange (f.cutoff threshold) ∧ f.Cut threshold (listed.map Duplicate.score)) ∧
    (∀ c o top patterns report g, analyze c o top patterns f = (.ok report, g) →
      f.Cut o.threshold report.scores) ∧
    (∀ c o files report g, analyzeChanges c o files f = (.ok report, g) →
      f.Cut o.threshold report.scores) ∧
    f.config.finder.thresholds.low ≤ f.cutoff none ∧
    (∀ c c' symbols threshold higher listed listed' g g', (symbols.map Symbol.id).Nodup →
      (f.store.cache.isSome → ∀ vectors, f.Embeds symbols vectors →
        f.QueriesDiffer (f.cutoff threshold) vectors ∧ f.QueriesDiffer higher vectors) →
      findDuplicates c symbols threshold f = (.ok listed, g) →
      findDuplicates c' symbols (some higher) f = (.ok listed', g') →
      f.cutoff threshold ≤ higher → listed'.Perm (listed.filter fun d => higher ≤ d.score)) ∧
    ∀ c symbols threshold listed g vec, (symbols.map Symbol.id).Nodup →
      (f.store.cache.isSome → ∀ vectors, f.Embeds symbols vectors →
        f.QueriesDiffer (f.cutoff threshold) vectors) →
      findDuplicates c symbols threshold f = (.ok listed, g) →
      (∀ records, g.store.backend.records = .ok records →
        records.length ≤ f.store.maxResults) →
      f.Embeds symbols ((f.selected symbols).map vec) →
      ∀ s ∈ f.selected symbols, ∀ s' ∈ f.selected symbols, s.id ≠ s'.id →
        f.cutoff threshold ≤ Embedding.cosine (vec s) (vec s') →
          ∃ d ∈ listed, orderedPair d.a.id d.b.id = orderedPair s.id s'.id ∧
            d.score = Embedding.cosine (vec s) (vec s') := by
  refine ⟨fun c symbols threshold listed g h => ⟨?_, cut_of_cuts (cuts_findDuplicates c symbols) h⟩,
    fun c o top patterns report g h => cut_of_cuts (cuts_analyze c o top patterns) h,
    fun c o files report g h => cut_of_cuts (cuts_analyzeChanges c o files) h,
    low_le_medium _, ?_, ?_⟩
  · exact (findDuplicates_searched h).1
  · intro c c' symbols threshold higher listed listed' g g' hids hdiffer h h' hle
    exact findDuplicates_raise hids hdiffer hle h h'
  · intro c symbols threshold listed g vec hids hdiffer h hroom hvec s hs s' hs' hne hle
    exact exists_listed hids hdiffer h hroom hvec hs hs' hne hle

/-- The finder for three functions with room for the matches of all of them. -/
def roomy : Finder := { nearest with store := VectorStore.make (.memory "memory" {}) {} }

theorem selected_roomy : roomy.selected threeFunctions = threeFunctions := by rfl

/-- At the cutoff zero a search lists a pair below the low threshold, and apart from such pairs what
it lists at the low threshold. -/
theorem scores_within_cutoff_threeFunctions : ∃ listed listed' g g',
    findDuplicates undisturbed threeFunctions (some 0) roomy = (.ok listed, g) ∧
    findDuplicates undisturbed threeFunctions (some 0.65) roomy = (.ok listed', g') ∧
    roomy.Cut (some 0) (listed.map Duplicate.score) ∧
    roomy.Cut (some 0.65) (listed'.map Duplicate.score) ∧
    listed'.Perm (listed.filter fun d => (0.65 : Float32) ≤ d.score) ∧
    ∃ d ∈ listed, d.score < roomy.config.finder.thresholds.low := by
  obtain ⟨hok, hstored⟩ : (findDuplicates undisturbed threeFunctions (some 0) roomy).1.isOk ∧
      (findDuplicates undisturbed threeFunctions (some 0)
        roomy).2.store.backend.records.toOption.map List.length = some 3 := by
    decide +kernel
  have hok' : (findDuplicates undisturbed threeFunctions (some 0.65) roomy).1.isOk := by
    decide +kernel
  have hmodel : Engine.Pointwise roomy.engine.model direction := .of_answer fun _ => rfl
  have hvec : roomy.Embeds threeFunctions
      ((roomy.selected threeFunctions).map (roomy.vectorFor direction)) := by
    rw [Embeds]
    exact eq_ok_of_toOption (by decide +kernel)
  have hdiffer : ∀ cutoff ∈ [(0 : Float32), 0.65], ∀ vectors,
      roomy.Embeds threeFunctions vectors → roomy.QueriesDiffer cutoff vectors := by
    intro cutoff hcutoff vectors hembed
    obtain rfl := hembed.eq_map hmodel
    refine .of_nodup ?_
    revert cutoff
    decide +kernel
  rcases hrun : findDuplicates undisturbed threeFunctions (some 0) roomy with ⟨_ | listed, g⟩
  · rw [hrun] at hok
    cases hok
  rcases hrun' : findDuplicates undisturbed threeFunctions (some 0.65) roomy with
    ⟨_ | listed', g'⟩
  · rw [hrun'] at hok'
    cases hok'
  obtain ⟨hlists, -, -, -, hraises, hall⟩ := scores_within_cutoff roomy
  have hroom : ∀ records, g.store.backend.records = .ok records →
      records.length ≤ roomy.store.maxResults := by
    intro records hrecords
    rw [hrun] at hstored
    dsimp only at hstored
    rw [hrecords] at hstored
    have hthree : records.length = 3 := Option.some.inj hstored
    rw [hthree]
    decide
  have hselected : ∀ s ∈ threeFunctions, s ∈ roomy.selected threeFunctions := by
    rw [selected_roomy]
    exact fun _ hs => hs
  have hne : (threeFunctions[1]).id ≠ (threeFunctions[2]).id := by
    intro hid
    have hsame := List.inj_on_of_nodup_map nodup_threeFunctions (List.getElem_mem _)
      (List.getElem_mem _) hid
    exact absurd (congrArg Symbol.name hsame) (by decide)
  -- the second and the third function have a cosine between the two cutoffs
  obtain ⟨d, hd, -, hscore⟩ := hall undisturbed threeFunctions (some 0) listed g
    (roomy.vectorFor direction) nodup_threeFunctions (fun _ => hdiffer 0 (by simp)) hrun hroom hvec
    (threeFunctions[1]) (hselected _ (List.getElem_mem _)) (threeFunctions[2])
    (hselected _ (List.getElem_mem _)) hne (by decide +kernel)
  have hlow : d.score < roomy.config.finder.thresholds.low := by
    rw [hscore]
    decide +kernel
  refine ⟨listed, listed', g, g', rfl, rfl, (hlists _ _ _ _ _ hrun).2, (hlists _ _ _ _ _ hrun').2,
    hraises _ _ _ _ _ _ _ _ _ nodup_threeFunctions (fun _ vectors hembed => ?_) hrun hrun'
      (by decide +kernel), d, hd, hlow⟩
  exact ⟨hdiffer 0 (by simp) vectors hembed, hdiffer 0.65 (by simp) vectors hembed⟩

end Finder

end CodeClones
