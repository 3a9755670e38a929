import CodeClones.Proofs.Store.Ranking

/-!
# The best matches

A ranking lists the best `k` of the candidates that satisfy the filter and score high enough, and no
other list does so: as many of them as there are, each with its own score, in order, and nothing
that is left out stands above anything that is listed.
-/

namespace CodeClones

/-- A match stands above another one: its score is higher, or equal with a smaller identifier. -/
def Match.Above (a b : Match) : Prop :=
  b.score < a.score ∨ (a.score == b.score) = true ∧ a.id < b.id

/-- A candidate has every value that the filter demands, and scores high enough. -/
structure Record.Qualifies (vector : Embedding) (threshold : Float32) (filter : Json.Object)
    (r : Record) : Prop where
  demands : ∀ demand ∈ filter, ∃ value, r.metadata.get? demand.1 = some value ∧
    value.equal demand.2 = true
  score : threshold ≤ Embedding.cosine vector r.vector

/-- The match of a candidate. -/
def Record.toMatch (vector : Embedding) (r : Record) : Match where
  id := r.id
  score := Embedding.cosine vector r.vector
  distance := 1 - Embedding.cosine vector r.vector
  metadata := r.metadata

section

variable {candidates : List Record} {vector : Embedding} {k : Nat} {threshold : Float32}
  {filter : Json.Object}

theorem satisfies_iff {metadata filter : Json.Object} : satisfies metadata filter ↔
    ∀ demand ∈ filter, ∃ value, metadata.get? demand.1 = some value ∧
      value.equal demand.2 = true := by
  simp only [satisfies, List.all_eq_true, Option.any_eq_true]

theorem Record.qualifies_iff {r : Record} : r.Qualifies vector threshold filter ↔
    (satisfies r.metadata filter && decide (threshold ≤ Embedding.cosine vector r.vector)) := by
  rw [Bool.and_eq_true, satisfies_iff, decide_eq_true_eq]
  exact ⟨fun h => ⟨h.demands, h.score⟩, fun h => ⟨h.1, h.2⟩⟩

instance (r : Record) : Decidable (r.Qualifies vector threshold filter) :=
  decidable_of_iff _ Record.qualifies_iff.symm

theorem Record.match?_eq (r : Record) : r.match? vector threshold filter =
    if r.Qualifies vector threshold filter then some (r.toMatch vector) else none := by
  simp only [match?, qualifies_iff, toMatch]

/-- The matches are those of the candidates that qualify. -/
theorem matchesAmong_eq (candidates : List Record) :
    matchesAmong candidates vector threshold filter =
      (candidates.filter fun r => r.Qualifies vector threshold filter).map (·.toMatch vector) := by
  induction candidates with
  | nil => rfl
  | cons r rest ih =>
    rw [matchesAmong] at ih
    rw [matchesAmong, List.filterMap_cons, Record.match?_eq, List.filter_cons]
    by_cases h : r.Qualifies vector threshold filter
    · simpa only [h, if_true, decide_true, List.map_cons, List.cons.injEq, true_and] using ih
    · simpa only [h, if_false, decide_false, Bool.false_eq_true] using ih

theorem mem_matchesAmong_iff {m : Match} : m ∈ matchesAmong candidates vector threshold filter ↔
    ∃ r ∈ candidates, r.Qualifies vector threshold filter ∧ m = r.toMatch vector := by
  simp only [matchesAmong_eq, List.mem_map, List.mem_filter, decide_eq_true_eq, and_assoc,
    eq_comm (a := m)]

theorem length_matchesAmong : (matchesAmong candidates vector threshold filter).length =
    candidates.countP fun r => r.Qualifies vector threshold filter := by
  rw [matchesAmong_eq, List.length_map, List.countP_eq_length_filter]

theorem nodup_matchesAmong (hids : (candidates.map Record.id).Nodup) (vector : Embedding)
    (threshold : Float32) (filter : Json.Object) :
    (matchesAmong candidates vector threshold filter).Nodup := by
  have hsub : ((matchesAmong candidates vector threshold filter).map Match.id).Nodup := by
    rw [matchesAmong_eq, List.map_map]
    exact hids.sublist (List.filter_sublist.map Record.id)
  exact hsub.of_map

/-! ### The order of a ranking -/

theorem Match.above_iff_place {a b : Match} (ha : a.score.isNaN = false)
    (hb : b.score.isNaN = false) : a.Above b ↔ a.place < b.place := by
  rw [Above, place, place, Prod.Lex.toLex_lt_toLex, Single.lt_iff_place hb ha,
    Single.beq_iff_place ha hb, OrderDual.toDual_lt_toDual, OrderDual.toDual_inj]

/-- No two matches stand above each other. -/
theorem not_above_of_above {a b : Match} (ha : a ∈ matchesAmong candidates vector threshold filter)
    (hb : b ∈ matchesAmong candidates vector threshold filter) (hab : a.Above b) : ¬b.Above a := by
  have hna := isNaN_of_mem_matchesAmong ha
  have hnb := isNaN_of_mem_matchesAmong hb
  rw [Match.above_iff_place hna hnb] at hab
  rw [Match.above_iff_place hnb hna]
  exact lt_asymm hab

/-- Matches of candidates with identifiers of their own are put in strict order. -/
theorem pairwise_above_mergeSort (hids : (candidates.map Record.id).Nodup) (vector : Embedding)
    (threshold : Float32) (filter : Json.Object) :
    ((matchesAmong candidates vector threshold filter).mergeSort Match.before).Pairwise
      Match.Above := by
  have hnodup := (List.mergeSort_perm _ Match.before).nodup_iff.mpr
    (nodup_matchesAmong hids vector threshold filter)
  refine (pairwise_place_mergeSort.and hnodup).imp_of_mem fun ha hb h => ?_
  rw [List.mem_mergeSort] at ha hb
  rw [Match.above_iff_place (isNaN_of_mem_matchesAmong ha) (isNaN_of_mem_matchesAmong hb)]
  exact lt_of_le_of_ne h.1 fun he =>
    h.2 (eq_of_mem_matchesAmong hids ha hb (Match.id_eq_of_place he))

/-! ### The best matches -/

/-- The best `k` matches of the candidates that qualify. -/
structure TopMatches (candidates : List Record) (vector : Embedding) (k : Nat) (threshold : Float32)
    (filter : Json.Object) (listed : List Match) : Prop where
  length : listed.length = min k (candidates.countP fun r => r.Qualifies vector threshold filter)
  qualified : ∀ m ∈ listed, ∃ r ∈ candidates, r.Qualifies vector threshold filter ∧
    m = r.toMatch vector
  ordered : listed.Pairwise Match.Above
  best : ∀ r ∈ candidates, r.Qualifies vector threshold filter → r.toMatch vector ∉ listed →
    ∀ m ∈ listed, m.Above (r.toMatch vector)

theorem topMatches_rank (hids : (candidates.map Record.id).Nodup) (vector : Embedding) (k : Nat)
    (threshold : Float32) (filter : Json.Object) :
    TopMatches candidates vector k threshold filter
      (rank candidates vector k threshold filter) := by
  have hsorted := pairwise_above_mergeSort hids vector threshold filter
  have hsplit := List.take_append_drop k
    ((matchesAmong candidates vector threshold filter).mergeSort Match.before)
  constructor
  · rw [← length_matchesAmong, rank, List.length_take, List.length_mergeSort]
    rfl
  · intro m hm
    exact mem_matchesAmong_iff.mp (List.mem_mergeSort.mp (List.mem_of_mem_take hm))
  · exact hsorted.sublist (List.take_sublist ..)
  · intro r hr hq hleft m hm
    have hmem : r.toMatch vector ∈
        (matchesAmong candidates vector threshold filter).mergeSort Match.before :=
      List.mem_mergeSort.mpr (mem_matchesAmong_iff.mpr ⟨r, hr, hq, rfl⟩)
    rw [← hsplit] at hsorted hmem
    have hdropped := (List.mem_append.mp hmem).resolve_left hleft
    exact (List.pairwise_append.mp hsorted).2.2 m hm _ hdropped

namespace TopMatches

variable {listed listed' : List Match}

theorem mem_matchesAmong (h : TopMatches candidates vector k threshold filter listed) {m : Match}
    (hm : m ∈ listed) : m ∈ matchesAmong candidates vector threshold filter :=
  mem_matchesAmong_iff.mpr (h.qualified m hm)

theorem nodup (h : TopMatches candidates vector k threshold filter listed) : listed.Nodup :=
  h.ordered.imp_of_mem fun ha hb hab he =>
    not_above_of_above (h.mem_matchesAmong ha) (h.mem_matchesAmong hb) hab (he ▸ hab)

/-- If one list of best matches has a member that another one does not have, then the other one has
a member of its own, and each of the two would stand above the other. -/
theorem subset (h : TopMatches candidates vector k threshold filter listed)
    (h' : TopMatches candidates vector k threshold filter listed') : listed ⊆ listed' := by
  intro m hm
  by_contra hout
  obtain ⟨m', hm', hout'⟩ : ∃ m' ∈ listed', m' ∉ listed := by
    by_contra! hall
    have hperm : listed'.Perm listed := (List.subperm_of_subset h'.nodup hall).perm_of_length_le
      (h.length.trans h'.length.symm).le
    exact hout (hperm.mem_iff.mpr hm)
  obtain ⟨r, hr, hq, rfl⟩ := h.qualified m hm
  obtain ⟨r', hr', hq', rfl⟩ := h'.qualified m' hm'
  exact not_above_of_above (h.mem_matchesAmong hm) (h'.mem_matchesAmong hm')
    (h.best r' hr' hq' hout' _ hm) (h'.best r hr hq hout _ hm')

/-- There is one list of best matches. -/
theorem unique (h : TopMatches candidates vector k threshold filter listed)
    (h' : TopMatches candidates vector k threshold filter listed') : listed = listed' := by
  have hsub := List.subperm_of_subset h.nodup (h.subset h')
  have hperm : listed.Perm listed' := hsub.perm_of_length_le (h'.length.trans h.length.symm).le
  exact hperm.eq_of_pairwise (fun a b ha hb hab hba => absurd hba
    (not_above_of_above (h.mem_matchesAmong ha) (h'.mem_matchesAmong hb) hab)) h.ordered h'.ordered

end TopMatches

/-- A ranking is the list of the best matches and no other one, in whatever order the candidates are
listed, and whatever a comparison of matches says about scores that are no numbers: it is not asked
about any. -/
theorem rank_exact (hids : (candidates.map Record.id).Nodup) :
    (∀ listed, TopMatches candidates vector k threshold filter listed ↔
      listed = rank candidates vector k threshold filter) ∧
    (∀ candidates', candidates'.Perm candidates →
      rank candidates' vector k threshold filter = rank candidates vector k threshold filter) ∧
    (∀ m ∈ matchesAmong candidates vector threshold filter, m.score.isNaN = false) ∧
    ∀ before : Match → Match → Bool,
      (∀ a b, a.score.isNaN = false → b.score.isNaN = false → before a b = a.before b) →
      ((matchesAmong candidates vector threshold filter).mergeSort before).take k =
        rank candidates vector k threshold filter := by
  have htop := topMatches_rank hids vector k threshold filter
  refine ⟨fun listed => ⟨fun h => h.unique htop, fun h => h ▸ htop⟩, fun candidates' hperm => ?_,
    fun m hm => isNaN_of_mem_matchesAmong hm, fun before hbefore => ?_⟩
  · exact (rank_perm hperm.symm hids ..).symm
  · rw [mergeSort_congr fun a ha b hb =>
      hbefore a b (isNaN_of_mem_matchesAmong ha) (isNaN_of_mem_matchesAmong hb)]
    rfl

/-- Four candidates, two of them along the vector that is asked for. -/
def fourRecords : List Record :=
  [⟨"z", [1, 0], [("file_path", .string "a.py")]⟩, ⟨"y", [1, 0], [("file_path", .string "b.py")]⟩,
    ⟨"x", [3, 4], [("file_path", .string "a.py")]⟩, ⟨"w", [0, 1], [("file_path", .string "a.py")]⟩]

/-- Of the candidates of one file the ranking lists the best two of the three that score at least
zero. -/
theorem rank_exact_fourRecords :
    (fourRecords.map Record.id).Nodup ∧
      TopMatches fourRecords [1, 0] 2 0 [("file_path", .string "a.py")]
        (rank fourRecords [1, 0] 2 0 [("file_path", .string "a.py")]) ∧
      (rank fourRecords [1, 0] 2 0 [("file_path", .string "a.py")]).length = 2 := by
  have hids : (fourRecords.map Record.id).Nodup := by decide
  have htop := ((rank_exact hids).1
    (rank fourRecords [1, 0] 2 0 [("file_path", .string "a.py")])).mpr rfl
  exact ⟨hids, htop, htop.length.trans (by decide +kernel)⟩

end

end CodeClones
