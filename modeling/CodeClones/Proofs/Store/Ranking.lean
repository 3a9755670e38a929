import CodeClones.Proofs.SingleOrder
import CodeClones.Proofs.Store.Reading

/-!
# What a ranking lists

Every match in a ranking is that of a candidate, and a ranking with room for all candidates lists
every one that scores high enough. In which order the candidates are looked at makes no difference.
The candidates of a backend are its rows.
-/

namespace CodeClones

/-- A match tells its record and the score of the record. -/
theorem Record.match?_eq_some {vector : Embedding} {threshold : Float32} {filter : Json.Object}
    {r : Record} {m : Match} (h : r.match? vector threshold filter = some m) :
    m.id = r.id ∧ m.metadata = r.metadata ∧ m.score = Embedding.cosine vector r.vector := by
  rw [match?] at h
  split at h
  · cases h
    exact ⟨rfl, rfl, rfl⟩
  · cases h

/-- Without a filter a record that scores high enough is a match. -/
theorem Record.match?_of_le {vector : Embedding} {threshold : Float32} {r : Record}
    (h : threshold ≤ Embedding.cosine vector r.vector) :
    ∃ m, r.match? vector threshold [] = some m ∧ m.id = r.id ∧ m.metadata = r.metadata := by
  have hcond : (satisfies r.metadata [] &&
      decide (threshold ≤ Embedding.cosine vector r.vector)) = true := by
    simpa [satisfies] using h
  rw [match?, if_pos hcond]
  exact ⟨_, rfl, rfl, rfl⟩

theorem exists_of_mem_rank {candidates : List Record} {vector : Embedding} {k : Nat}
    {threshold : Float32} {filter : Json.Object} {m : Match}
    (h : m ∈ rank candidates vector k threshold filter) :
    ∃ r ∈ candidates, r.match? vector threshold filter = some m :=
  List.mem_filterMap.mp (List.mem_mergeSort.mp (List.mem_of_mem_take h))

/-- A ranking with room for all candidates leaves out no match. -/
theorem mem_rank_of_length_le {candidates : List Record} {vector : Embedding} {k : Nat}
    {threshold : Float32} {filter : Json.Object} (hk : candidates.length ≤ k) {r : Record}
    (hr : r ∈ candidates) {m : Match} (hm : r.match? vector threshold filter = some m) :
    m ∈ rank candidates vector k threshold filter := by
  have hlength : ((candidates.filterMap
      (Record.match? vector threshold filter)).mergeSort Match.before).length ≤ k := by
    rw [List.length_mergeSort]
    exact (List.length_filterMap_le ..).trans hk
  rw [rank, List.take_of_length_le hlength, List.mem_mergeSort]
  exact List.mem_filterMap.mpr ⟨r, hr, hm⟩

/-- The score of a match is a number. -/
theorem Record.isNaN_of_match? {vector : Embedding} {threshold : Float32} {filter : Json.Object}
    {r : Record} {m : Match} (h : r.match? vector threshold filter = some m) :
    m.score.isNaN = false := by
  obtain ⟨-, -, hscore⟩ := match?_eq_some h
  rw [match?] at h
  split at h
  · rename_i hcond
    rw [Bool.and_eq_true, decide_eq_true_eq] at hcond
    rw [hscore]
    exact (Single.isNaN_of_le hcond.2).2
  · cases h

namespace Match

/-- The place of a match in a ranking: higher scores come first, and of equal scores the smaller
identifier. -/
def place (m : Match) : (ℤ ×ₗ ℤ ×ₗ ℤ)ᵒᵈ ×ₗ String :=
  toLex (OrderDual.toDual (Single.place m.score), m.id)

/-- The place of a match tells its identifier. -/
theorem id_eq_of_place {a b : Match} (h : a.place = b.place) : a.id = b.id :=
  congrArg (fun p : (ℤ ×ₗ ℤ ×ₗ ℤ)ᵒᵈ ×ₗ String => (ofLex p).2) h

/-- Matches whose scores are numbers are put in the order of their places. -/
theorem before_eq_place {a b : Match} (ha : a.score.isNaN = false) (hb : b.score.isNaN = false) :
    a.before b = decide (a.place ≤ b.place) := by
  rw [Bool.eq_iff_iff, decide_eq_true_eq, place, place, Prod.Lex.toLex_le_toLex, before]
  simp only [Bool.or_eq_true, Bool.and_eq_true, decide_eq_true_eq, Single.lt_iff_place hb ha,
    Single.beq_iff_place ha hb, OrderDual.toDual_lt_toDual, OrderDual.toDual_inj]

end Match

/-- The candidates that match. -/
def matchesAmong (candidates : List Record) (vector : Embedding) (threshold : Float32)
    (filter : Json.Object) : List Match :=
  candidates.filterMap (Record.match? vector threshold filter)

section

variable {candidates candidates' : List Record} {vector : Embedding} {threshold : Float32}
  {filter : Json.Object}

/-- The scores that are put in order are numbers. -/
theorem isNaN_of_mem_matchesAmong {m : Match}
    (h : m ∈ matchesAmong candidates vector threshold filter) : m.score.isNaN = false := by
  obtain ⟨r, -, hr⟩ := List.mem_filterMap.mp h
  exact Record.isNaN_of_match? hr

/-- Candidates with identifiers of their own give matches with identifiers of their own. -/
theorem eq_of_mem_matchesAmong (hids : (candidates.map Record.id).Nodup) {m m' : Match}
    (hm : m ∈ matchesAmong candidates vector threshold filter)
    (hm' : m' ∈ matchesAmong candidates vector threshold filter) (hid : m.id = m'.id) : m = m' := by
  obtain ⟨r, hr, hmatch⟩ := List.mem_filterMap.mp hm
  obtain ⟨r', hr', hmatch'⟩ := List.mem_filterMap.mp hm'
  have hrecord : r.id = r'.id := by
    rw [← (Record.match?_eq_some hmatch).1, ← (Record.match?_eq_some hmatch').1, hid]
  obtain rfl := List.inj_on_of_nodup_map hids hr hr' hrecord
  exact Option.some.inj (hmatch.symm.trans hmatch')

/-- A sort asks its order about members of the list only. -/
theorem mergeSort_congr {α : Type} {le le' : α → α → Bool} {l : List α}
    (h : ∀ a ∈ l, ∀ b ∈ l, le a b = le' a b) : l.mergeSort le = l.mergeSort le' := by
  have := List.map_mergeSort (f := id) h
  rwa [List.map_id, List.map_id] at this

/-- Matches are put in the order of their places. -/
theorem pairwise_place_mergeSort :
    ((matchesAmong candidates vector threshold filter).mergeSort Match.before).Pairwise
      fun a b => a.place ≤ b.place := by
  have hbefore : ∀ a ∈ matchesAmong candidates vector threshold filter,
      ∀ b ∈ matchesAmong candidates vector threshold filter,
        a.before b = decide (a.place ≤ b.place) := fun a ha b hb =>
    Match.before_eq_place (isNaN_of_mem_matchesAmong ha) (isNaN_of_mem_matchesAmong hb)
  rw [mergeSort_congr hbefore]
  refine (List.pairwise_mergeSort ?_ ?_ _).imp of_decide_eq_true
  · intro a b c hab hbc
    exact decide_eq_true ((of_decide_eq_true hab).trans (of_decide_eq_true hbc))
  · intro a b
    rw [Bool.or_eq_true, decide_eq_true_eq, decide_eq_true_eq]
    exact le_total a.place b.place

/-- Candidates with identifiers of their own are ranked alike in whatever order they are listed. -/
theorem rank_perm (h : candidates.Perm candidates') (hids : (candidates.map Record.id).Nodup)
    (vector : Embedding) (k : Nat) (threshold : Float32) (filter : Json.Object) :
    rank candidates vector k threshold filter = rank candidates' vector k threshold filter := by
  have hmatches : (matchesAmong candidates vector threshold filter).Perm
      (matchesAmong candidates' vector threshold filter) := h.filterMap _
  have hsorted : ((matchesAmong candidates vector threshold filter).mergeSort Match.before).Perm
      ((matchesAmong candidates' vector threshold filter).mergeSort Match.before) :=
    (List.mergeSort_perm ..).trans (hmatches.trans (List.mergeSort_perm ..).symm)
  refine congrArg (List.take k) (hsorted.eq_of_pairwise (fun a b ha hb hab hba => ?_)
    pairwise_place_mergeSort pairwise_place_mergeSort)
  exact eq_of_mem_matchesAmong hids (List.mem_mergeSort.mp ha)
    (hmatches.mem_iff.mpr (List.mem_mergeSort.mp hb)) (Match.id_eq_of_place (le_antisymm hab hba))

end

namespace Backend

/-- Every record is that of the row under its identifier. -/
theorem row?_of_mem_records {b : Backend} {records : List Record} (h : b.records = .ok records)
    {r : Record} (hr : r ∈ records) :
    ∃ row, b.row? r.id = some row ∧ row.metadata = .ok r.metadata :=
  ⟨_, (mem_records_iff h).mp hr, rfl⟩

/-- Two records of one backend with the same identifier are the same. -/
theorem eq_of_mem_records {b : Backend} {records : List Record} (h : b.records = .ok records)
    {r r' : Record} (hr : r ∈ records) (hr' : r' ∈ records) (hid : r.id = r'.id) : r = r' := by
  have hrow := (mem_records_iff h).mp hr
  rw [hid, (mem_records_iff h).mp hr'] at hrow
  exact Record.entry_injective (Prod.ext hid (Option.some.inj hrow).symm)

/-- What is read of a vector that was stored is that vector. -/
theorem vector_of_rowOf {b : Backend} {r r' : Record}
    (h : b.rowOf r = ⟨r'.vector.map some, .ok r'.metadata⟩) : r'.vector = r.vector := by
  have hvector : (b.rowOf r).vector = r'.vector.map some := congrArg Row.vector h
  cases b with
  | memory name stored => exact (List.map_injective_iff.mpr (Option.some_injective _) hvector).symm
  | database db collection => exact (map_writtenComponent_eq_iff.mp hvector).1

/-- Every match of a query has the metadata of the row under its identifier. -/
theorem row?_of_mem_query {b : Backend} {vector : Embedding} {k : Nat} {threshold : Float32}
    {filter : Json.Object} {hits : List Match}
    (h : b.query vector k threshold filter = .ok hits) {m : Match} (hm : m ∈ hits) :
    ∃ row, b.row? m.id = some row ∧ row.metadata = .ok m.metadata := by
  rw [query] at h
  cases hrecords : b.records with
  | error e =>
    rw [hrecords] at h
    cases h
  | ok records =>
    rw [hrecords] at h
    cases h
    obtain ⟨r, hr, hmatch⟩ := exists_of_mem_rank hm
    obtain ⟨hid, hmetadata, _⟩ := Record.match?_eq_some hmatch
    rw [hid, hmetadata]
    exact row?_of_mem_records hrecords hr

end Backend

end CodeClones
