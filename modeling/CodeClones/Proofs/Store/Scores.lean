import CodeClones.Proofs.Store.Batch
import CodeClones.Proofs.Store.Ranking

/-!
# Scores of answers

No backend answers with a score below the threshold of the query. A remembered answer may be that to
another query, as only digests are compared; but all queries of a batch have one threshold, so that
a batch over a store that remembers nothing is answered with no score below it, whatever digests its
queries have. At a higher threshold a backend answers what it answers at a lower one, without the
matches in between.
-/

namespace CodeClones

/-- No match of an answer scores below the threshold. -/
def AtLeast (threshold : Float32) (hits : List Match) : Prop := ∀ m ∈ hits, threshold ≤ m.score

theorem Record.le_of_match? {vector : Embedding} {threshold : Float32} {filter : Json.Object}
    {r : Record} {m : Match} (h : r.match? vector threshold filter = some m) :
    threshold ≤ m.score := by
  obtain ⟨-, -, hscore⟩ := match?_eq_some h
  rw [match?] at h
  split at h
  · rename_i hcond
    rw [Bool.and_eq_true, decide_eq_true_eq] at hcond
    rw [hscore]
    exact hcond.2
  · cases h

theorem Backend.atLeast_of_query {b : Backend} {vector : Embedding} {k : Nat}
    {threshold : Float32} {filter : Json.Object} {hits : List Match}
    (h : b.query vector k threshold filter = .ok hits) : AtLeast threshold hits := by
  rw [query] at h
  cases hrecords : b.records with
  | error e =>
    rw [hrecords] at h
    cases h
  | ok records =>
    rw [hrecords] at h
    cases h
    intro m hm
    obtain ⟨r, -, hmatch⟩ := exists_of_mem_rank hm
    exact Record.le_of_match? hmatch

/-! ## Batches -/

namespace VectorStore

/-- Nothing that is remembered scores below the threshold. -/
def RemembersAtLeast (threshold : Float32) (s : VectorStore) : Prop :=
  s.EveryAnswer fun _ hits => AtLeast threshold hits

/-- A store that is left with, and the answers of a batch if it has succeeded, without a score below
the threshold. -/
structure LeavesAtLeast (threshold : Float32) (s : VectorStore)
    (r : Except StoreError BatchAnswer) : Prop where
  remembers : s.RemembersAtLeast threshold
  answers : ∀ answers, r = .ok answers → ∀ p ∈ answers, AtLeast threshold p.2

variable {s s' : VectorStore} {threshold : Float32} {r : Except StoreError BatchAnswer}

theorem LeavesAtLeast.of_error (h : s.RemembersAtLeast threshold) (e : StoreError) :
    s.LeavesAtLeast threshold (.error e) :=
  ⟨h, fun _ hr => nomatch hr⟩

/-- The answer to a query is remembered from a query at the same threshold, or the backend's. -/
theorem query_atLeast {c : Conditions} {vector : Embedding} {k : Nat} {filter : Json.Object}
    {found : Except StoreError (List Match)} (hs : s.RemembersAtLeast threshold)
    (h : s.query c vector k threshold filter = (s', found)) :
    s'.RemembersAtLeast threshold ∧ ∀ hits, found = .ok hits → AtLeast threshold hits := by
  obtain ⟨key, -, ⟨hit, rfl, hlook⟩ | ⟨s₁, hlook, hrest⟩⟩ :=
    query_cases (q := ⟨vector, k, threshold, filter⟩) h
  · have hafter := hs.lookUp c.now key
    rw [hlook] at hafter
    refine ⟨hafter, fun hits hr => ?_⟩
    cases hr
    exact (hs.hit (congrArg Prod.snd hlook)).2
  · have hafter := hs.lookUp c.now key
    rw [hlook] at hafter
    rcases hrest with ⟨e, rfl, hask⟩ | ⟨s₂, answer, rfl, hask, rfl⟩
    · exact ⟨hafter.of_cache (ask_cases hask).1.cache, fun hits hr => nomatch hr⟩
    · obtain ⟨halike, ⟨e, he⟩ | hanswer⟩ := ask_cases hask
      · cases he
      have hleast : AtLeast threshold answer := Backend.atLeast_of_query hanswer.symm
      refine ⟨(hafter.of_cache halike.cache).remember c.later fun _ => hleast, fun hits hr => ?_⟩
      cases hr
      exact hleast

theorem queryAll_atLeast {conditions : Nat → Conditions} {queries : List (Nat × Embedding)}
    (hs : s.RemembersAtLeast threshold)
    (h : s.queryAll conditions threshold queries = (s', r)) : s'.LeavesAtLeast threshold r := by
  induction queries generalizing s s' r with
  | nil =>
    cases h
    exact ⟨hs, fun answers hr p hp => by cases hr; cases hp⟩
  | cons q rest ih =>
    obtain ⟨position, vector⟩ := q
    rw [queryAll] at h
    rcases hquery : s.query (conditions position) vector s.maxResults threshold [] with ⟨s₁, first⟩
    obtain ⟨hafter, hfirst⟩ := query_atLeast hs hquery
    rw [hquery] at h
    cases first with
    | error e =>
      cases h
      exact .of_error hafter e
    | ok hits =>
      rcases hrest : s₁.queryAll conditions threshold rest with ⟨s₂, more⟩
      have hmore := ih hafter hrest
      dsimp only at h
      rw [hrest] at h
      cases h
      refine ⟨hmore.remembers, fun answers hr p hp => ?_⟩
      cases more with
      | error e => cases hr
      | ok others =>
        cases hr
        rcases List.mem_cons.mp hp with rfl | hp
        · exact hfirst hits rfl
        · exact hmore.answers others rfl p hp

theorem queryPart_atLeast {b : BatchConditions} {part : Nat} {queries : List (Nat × Embedding)}
    (hs : s.RemembersAtLeast threshold)
    (h : s.queryPart b threshold part queries = (s', r)) : s'.LeavesAtLeast threshold r := by
  unfold queryPart at h
  dsimp only at h
  split at h
  · split at h
    · exact queryAll_atLeast hs h
    · cases h
      exact .of_error (queryAll_atLeast hs rfl).remembers _
  · cases h
    exact .of_error hs _

theorem queryParts_atLeast {b : BatchConditions} {part : Nat} {queries : List (Nat × Embedding)}
    (hs : s.RemembersAtLeast threshold)
    (h : s.queryParts b threshold part queries = (s', r)) : s'.LeavesAtLeast threshold r := by
  induction s, part, queries using parts_induction b generalizing s' r with
  | nil s part =>
    rw [queryParts] at h
    cases h
    exact ⟨hs, fun answers hr p hp => by cases hr; cases hp⟩
  | abort s part q rest cause hsize =>
    rw [queryParts_of_abort hsize] at h
    cases h
    exact .of_error hs _
  | size s part q rest size hsize ih =>
    rcases queryParts_cases_of_size hsize h with
      ⟨cause, hpart, rfl⟩ | ⟨after, found, more, hpart, hrest, rfl⟩
    · exact .of_error (queryPart_atLeast hs hpart).remembers _
    · have hfound := queryPart_atLeast hs hpart
      have hmore := ih after hfound.remembers hrest
      refine ⟨hmore.remembers, fun answers hr p hp => ?_⟩
      cases more with
      | error e => cases hr
      | ok others =>
        cases hr
        rcases List.mem_append.mp hp with hp | hp
        · exact hfound.answers found rfl p hp
        · exact hmore.answers others rfl p hp

/-- A batch over a store that remembers no lower score is answered with no lower score. -/
theorem batch_atLeast {b : BatchConditions} {inRuntime : Bool} {vectors : List Embedding}
    (hs : s.RemembersAtLeast threshold)
    (h : s.batch b inRuntime vectors threshold = (s', r)) : s'.LeavesAtLeast threshold r := by
  unfold batch at h
  split at h
  · exact queryAll_atLeast hs h
  split at h
  · cases h
    exact .of_error hs _
  rw [batchTogether] at h
  rcases hparts : s.queryParts b threshold 0 (positioned vectors) with ⟨s₁, found⟩
  have hfound := queryParts_atLeast hs hparts
  rw [hparts] at h
  cases h
  refine ⟨hfound.remembers, fun answers hr p hp => ?_⟩
  cases found with
  | error e => cases hr
  | ok given =>
    cases hr
    exact hfound.answers given rfl p (List.mem_mergeSort.mp hp)

/-- So is a batch for vectors that were stored just before, as nothing is remembered then. -/
theorem batch_of_upsert_atLeast {s₁ : VectorStore} {c : Conditions} {b : BatchConditions}
    {ids : List String} {vectors : List Embedding} {metadata : List Json.Object}
    {answers : BatchAnswer} (hupsert : s.upsert c ids vectors metadata = (s₁, .ok ()))
    (hbatch : s₁.batch b false vectors threshold = (s', .ok answers)) :
    ∀ p ∈ answers, AtLeast threshold p.2 := by
  rcases upsert_cases hupsert with ⟨_, he, _⟩ | ⟨_, hlength, _, ⟨hempty, rfl⟩ | ⟨_, _, hcache, _⟩⟩
  · cases he
  · obtain rfl : vectors = [] := List.eq_nil_of_length_eq_zero (by rw [← hlength, hempty]; rfl)
    rw [batch_nil] at hbatch
    cases hbatch
    exact fun p hp => nomatch hp
  · exact (batch_atLeast (.of_cleared hcache) hbatch).answers answers rfl

end VectorStore

/-! ## Higher thresholds -/

/-- The first elements that satisfy a condition are those of the first ones, if no element satisfies
it after one that does not. -/
theorem filter_take_of_pairwise {α : Type} {p : α → Bool} {l : List α}
    (h : l.Pairwise fun a b => p b → p a) (k : Nat) :
    (l.take k).filter p = (l.filter p).take k := by
  induction l generalizing k with
  | nil => rw [List.take_nil, List.filter_nil, List.take_nil]
  | cons a l ih =>
    obtain ⟨ha, hl⟩ := List.pairwise_cons.mp h
    cases k with
    | zero => rw [List.take_zero, List.take_zero, List.filter_nil]
    | succ k =>
      by_cases hp : p a
      · rw [List.take_succ_cons, List.filter_cons_of_pos hp, List.filter_cons_of_pos hp,
          List.take_succ_cons, ih hl]
      · have hnone : ∀ b ∈ a :: l, ¬p b := by
          intro b hb
          rcases List.mem_cons.mp hb with rfl | hb
          · exact hp
          · exact fun hpb => hp (ha b hb hpb)
        have hfirst : ∀ b ∈ (a :: l).take (k + 1), ¬p b :=
          fun b hb => hnone b (List.mem_of_mem_take hb)
        rw [List.filter_eq_nil_iff.mpr hfirst, List.filter_eq_nil_iff.mpr hnone, List.take_nil]

/-- The matches of an answer that score high enough. -/
def raise (threshold : Float32) (hits : List Match) : List Match :=
  hits.filter fun m => threshold ≤ m.score

section

variable {candidates : List Record} {vector : Embedding} {threshold higher : Float32}
  {filter : Json.Object}

theorem Record.match?_raise (h : threshold ≤ higher) (r : Record) :
    r.match? vector higher filter =
      (r.match? vector threshold filter).filter fun m => higher ≤ m.score := by
  have hle : higher ≤ Embedding.cosine vector r.vector →
      threshold ≤ Embedding.cosine vector r.vector := Single.le_trans h
  rw [match?, match?]
  by_cases hfilter : satisfies r.metadata filter
  · by_cases hhigh : higher ≤ Embedding.cosine vector r.vector
    · simp [hfilter, hhigh, hle hhigh, Option.filter]
    · by_cases hlow : threshold ≤ Embedding.cosine vector r.vector
      · simp [hfilter, hhigh, hlow, Option.filter]
      · simp [hfilter, hhigh, hlow]
  · simp [hfilter]

theorem matchesAmong_raise (h : threshold ≤ higher) :
    matchesAmong candidates vector higher filter =
      raise higher (matchesAmong candidates vector threshold filter) := by
  rw [raise, matchesAmong, matchesAmong, List.filter_filterMap]
  exact congrArg (List.filterMap · candidates) (funext fun r => r.match?_raise h)

/-- The best matches at a higher threshold are those of the best ones that reach it. -/
theorem rank_raise (hids : (candidates.map Record.id).Nodup) (h : threshold ≤ higher) (k : Nat) :
    rank candidates vector k higher filter =
      raise higher (rank candidates vector k threshold filter) := by
  set sorted := (matchesAmong candidates vector threshold filter).mergeSort Match.before
  have hplaces : sorted.Pairwise fun a b => a.place ≤ b.place := pairwise_place_mergeSort
  -- a match before one that reaches the threshold scores no less than it
  have hmonotone : sorted.Pairwise fun a b =>
      decide (higher ≤ b.score) = true → decide (higher ≤ a.score) = true := by
    refine hplaces.imp_of_mem fun ha hb hab hreaches => ?_
    rw [decide_eq_true_eq] at hreaches ⊢
    have hnumber : ∀ m ∈ sorted, m.score.isNaN = false :=
      fun m hm => isNaN_of_mem_matchesAmong (List.mem_mergeSort.mp hm)
    refine Single.le_trans hreaches (Single.le_iff_place.mpr ⟨⟨hnumber _ hb, hnumber _ ha⟩, ?_⟩)
    rcases Prod.Lex.le_iff.mp hab with hlt | ⟨heq, -⟩
    · exact (OrderDual.toDual_lt_toDual.mp hlt).le
    · exact (OrderDual.toDual_inj.mp heq).ge
  have hperm : ((matchesAmong candidates vector higher filter).mergeSort Match.before).Perm
      (raise higher sorted) := by
    rw [matchesAmong_raise h]
    exact (List.mergeSort_perm ..).trans ((List.mergeSort_perm ..).filter _).symm
  have hsorted : (matchesAmong candidates vector higher filter).mergeSort Match.before =
      raise higher sorted := by
    refine hperm.eq_of_pairwise (fun a b ha hb hab hba => ?_) pairwise_place_mergeSort
      (hplaces.filter _)
    have ha' : a ∈ matchesAmong candidates vector threshold filter :=
      List.mem_mergeSort.mp (List.mem_filter.mp (hperm.mem_iff.mp ha)).1
    have hb' : b ∈ matchesAmong candidates vector threshold filter :=
      List.mem_mergeSort.mp (List.mem_filter.mp hb).1
    exact eq_of_mem_matchesAmong hids ha' hb' (Match.id_eq_of_place (le_antisymm hab hba))
  change ((matchesAmong candidates vector higher filter).mergeSort Match.before).take k =
    raise higher (sorted.take k)
  rw [hsorted]
  exact (filter_take_of_pairwise hmonotone k).symm

end

/-- At a higher threshold a backend answers the matches that reach it. -/
theorem Backend.answerAll_raise {b : Backend} {k : Nat} {threshold higher : Float32}
    (h : threshold ≤ higher) {queries : List (Nat × Embedding)} {answers : BatchAnswer}
    (hanswers : b.answerAll k threshold queries = .ok answers) :
    b.answerAll k higher queries = .ok (answers.map fun p => (p.1, raise higher p.2)) := by
  cases hrecords : b.records with
  | error e =>
    by_cases hne : queries = []
    · subst hne
      cases hanswers
      rfl
    · rw [answerAll_of_unreadable hrecords hne] at hanswers
      cases hanswers
  | ok records =>
    rw [answerAll_of_records hrecords] at hanswers ⊢
    cases hanswers
    rw [List.map_map]
    refine congrArg Except.ok (List.map_congr_left fun q _ => ?_)
    exact Prod.ext rfl (rank_raise (nodup_records hrecords) h k)

end CodeClones
