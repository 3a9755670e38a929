import CodeClones.Proofs.Store.OneByOne
import CodeClones.Proofs.Store.Pressure
import Mathlib.Algebra.BigOperators.Group.Finset.Basic

/-!
# Parts of a batch

Memory pressure leaves a share of the base number of queries for the next part of a batch. The number
of queries is this share, and the program stops where three times the base, of which the share is
computed, does not fit into a word. A batch is cut into parts of such sizes: all parts but the last
one are full, so that there are no more parts than the sizes imply, and every vector is in one of
them.
-/

namespace CodeClones

/-! ## Cutting into parts -/

/-- Cuts a list into parts. The first part has the number `part`, and each part the size for its
number, as far as there is so much left. -/
def cut {α : Type} (size : Nat → Nat) (part : Nat) : List α → List (List α)
  | [] => []
  | x :: rest =>
    (x :: rest.take (size part - 1)) :: cut size (part + 1) (rest.drop (size part - 1))
termination_by xs => xs.length
decreasing_by
  rw [List.length_drop, List.length_cons]
  omega

section

variable {α : Type} {size : Nat → Nat}

theorem cut_cons_of_pos {part : Nat} (h : 1 ≤ size part) (x : α) (rest : List α) :
    cut size part (x :: rest) =
      (x :: rest).take (size part) :: cut size (part + 1) ((x :: rest).drop (size part)) := by
  obtain ⟨n, hn⟩ := Nat.exists_eq_add_of_le' h
  rw [cut, hn, List.take_succ_cons, List.drop_succ_cons, Nat.add_sub_cancel]

theorem flatten_cut (part : Nat) (xs : List α) : (cut size part xs).flatten = xs := by
  fun_induction cut size part xs with
  | case1 => rfl
  | case2 part x rest ih =>
    rw [List.flatten_cons, ih, List.cons_append, List.take_append_drop]

theorem shift_part (part i : Nat) : size (part + (i + 1)) = size (part + 1 + i) := by
  rw [Nat.add_right_comm, Nat.add_assoc]

/-- A part has what the parts before it leave, up to the size for its number. -/
theorem getElem?_cut (h : ∀ i, 1 ≤ size i) {part : Nat} {xs : List α} {i : Nat}
    (hi : i < (cut size part xs).length) : (cut size part xs)[i]? =
      some ((xs.drop (∑ j ∈ Finset.range i, size (part + j))).take (size (part + i))) := by
  induction i generalizing part xs with
  | zero =>
    cases xs with
    | nil =>
      rw [cut] at hi
      cases hi
    | cons x rest =>
      rw [cut_cons_of_pos (h part)]
      rfl
  | succ i ih =>
    cases xs with
    | nil =>
      rw [cut] at hi
      cases hi
    | cons x rest =>
      rw [cut_cons_of_pos (h part), List.length_cons, Nat.add_lt_add_iff_right] at hi
      rw [cut_cons_of_pos (h part), List.getElem?_cons_succ, ih hi, List.drop_drop,
        Finset.sum_range_succ', Nat.add_comm (size part)]
      simp only [shift_part, Nat.add_zero]

/-- There are no more parts than the sizes imply. -/
theorem length_cut_le_iff (h : ∀ i, 1 ≤ size i) {part : Nat} {xs : List α} {n : Nat} :
    (cut size part xs).length ≤ n ↔ xs.length ≤ ∑ i ∈ Finset.range n, size (part + i) := by
  induction n generalizing part xs with
  | zero =>
    cases xs with
    | nil => simp [cut]
    | cons x rest => simp [cut]
  | succ n ih =>
    cases xs with
    | nil => simp [cut]
    | cons x rest =>
      rw [cut_cons_of_pos (h part), List.length_cons, Nat.add_le_add_iff_right, ih,
        Finset.sum_range_succ', List.length_drop, Nat.sub_le_iff_le_add]
      simp only [shift_part, Nat.add_zero]

end

/-! ## The parts of a batch -/

namespace VectorStore

/-- The given parts of a batch one after the other, the next one with the number `part`, up to the
first failure. -/
def queryEach (s : VectorStore) (b : BatchConditions) (threshold : Float32) (part : Nat) :
    List (List (Nat × Embedding)) → VectorStore × Except StoreError BatchAnswer
  | [] => (s, .ok [])
  | queries :: rest =>
    match s.queryPart b threshold part queries with
    | (after, .error cause) => (after, .error cause)
    | (after, .ok answers) =>
      let (last, more) := after.queryEach b threshold (part + 1) rest
      (last, more.map (answers ++ ·))

/-- Where the size of every part can be computed, a batch goes through the parts into which these
sizes cut it. -/
theorem queryParts_eq_queryEach {s : VectorStore} {b : BatchConditions} {size : Nat → Nat}
    {part : Nat} {queries : List (Nat × Embedding)}
    (h : ∀ part, ∀ q ∈ queries, s.partSize (b.usage (2 * part)) q.1 = .ok (size part))
    (threshold : Float32) : s.queryParts b threshold part queries =
      s.queryEach b threshold part (cut size part queries) := by
  induction s, part, queries using parts_induction b with
  | nil s part => rw [queryParts, cut, queryEach]
  | abort s part q rest cause hsize =>
    cases (h part q (List.mem_cons_self ..)).symm.trans hsize
  | size s part q rest n hsize ih =>
    obtain rfl : size part = n :=
      Except.ok.inj ((h part q (List.mem_cons_self ..)).symm.trans hsize)
    have hpos := MemoryPressure.one_le_of_batchSize (partSize_eq_ok_iff.mp hsize).1
    have hlimits := keptByQueries_limits.queryPart s b threshold part
      ((q :: rest).take (size part))
    rw [queryParts_of_size hsize, cut_cons_of_pos hpos, queryEach]
    rcases hfound : s.queryPart b threshold part ((q :: rest).take (size part)) with
      ⟨after, cause | answers⟩
    · rfl
    · -- the base is the same after a part, and so are the sizes that are read later
      rw [hfound] at hlimits
      have hrest : ∀ later, ∀ p ∈ (q :: rest).drop (size part),
          after.partSize (b.usage (2 * later)) p.1 = .ok (size later) := by
        intro later p hp
        rw [partSize_of_limits hlimits]
        exact h later p (List.mem_of_mem_drop hp)
      dsimp only [andThen]
      rw [ih after hrest]

/-- The parts of a batch are as the shares of the base imply. -/
structure Shared (s : VectorStore) (b : BatchConditions) (threshold : Float32)
    (vectors : List Embedding) (share : Nat → Nat) (parts : List (List (Nat × Embedding))) :
    Prop where
  /-- The batch goes through the parts. -/
  together : s.batchTogether b vectors threshold =
    ((s.queryEach b threshold 0 parts).1, (s.queryEach b threshold 0 parts).2.map inOrder)
  /-- Every vector is in one of the parts, in order. -/
  flatten : parts.flatten = positioned vectors
  /-- A part has as many vectors as its share, as far as the parts before it leave so many. -/
  part : ∀ i < parts.length, parts[i]? =
    some (((positioned vectors).drop (∑ j ∈ Finset.range i, share j)).take (share i))
  /-- There are no more parts than the shares imply. -/
  fewest : ∀ n, parts.length ≤ n ↔ vectors.length ≤ ∑ i ∈ Finset.range n, share i
  /-- Where a part ends can be computed within a word. -/
  fits : ∀ first ≤ vectors.length, ∀ i, first + share i < UInt64.size

/-- At every usage, the number of queries that are run together is the share of the base, except at
the pressure of a warning if three times the base does not fit into a word: the program stops there.
If it does fit, every batch goes through parts that hold each vector once, in order, unless it has
more vectors than a memory addressed by words can hold. Each part is as large as the share for it, as
far as there is so much left, so that there are no more parts than these shares imply; and no end of
a part leaves the word. -/
theorem batchSize_exact {base : Nat} (hbase : 1 ≤ base) :
    (∀ usage, (MemoryPressure.ofUsage usage = .warning → 3 * base < UInt64.size) →
      (MemoryPressure.ofUsage usage).batchSize base =
        .ok ((MemoryPressure.ofUsage usage).share base)) ∧
    (∀ usage, MemoryPressure.ofUsage usage = .warning → UInt64.size ≤ 3 * base →
      (MemoryPressure.ofUsage usage).batchSize base = .error .product) ∧
    (3 * base < UInt64.size → ∀ (s : VectorStore) (b : BatchConditions) threshold vectors,
      s.queryBatchSize = base → vectors.length ≤ 2 ^ 63 → ∃ parts, s.Shared b threshold vectors
        (fun part => (MemoryPressure.ofUsage (b.usage (2 * part))).share base) parts) := by
  have hshare : ∀ p : MemoryPressure, max 1 (p.share base) = p.share base := by
    intro p
    cases p <;> simp only [MemoryPressure.share] <;> omega
  refine ⟨fun usage h => ?_, fun usage hwarning hword => ?_, ?_⟩
  · rw [MemoryPressure.batchSize_of_computable h, hshare]
  · exact MemoryPressure.batchSize_of_not_computable fun h =>
      Nat.not_lt.mpr hword (h hwarning)
  rintro hword s b threshold vectors rfl hlength
  have hend : ∀ first ≤ vectors.length, ∀ part, first +
      (MemoryPressure.ofUsage (b.usage (2 * part))).share s.queryBatchSize < UInt64.size := by
    intro first hfirst part
    have hle := (MemoryPressure.ofUsage (b.usage (2 * part))).share_le s.queryBatchSize
    rw [UInt64.size] at hword ⊢
    omega
  have hsizes : ∀ part, ∀ q ∈ positioned vectors, s.partSize (b.usage (2 * part)) q.1 =
      .ok ((MemoryPressure.ofUsage (b.usage (2 * part))).share s.queryBatchSize) := by
    intro part q hq
    refine partSize_eq_ok_iff.mpr ⟨?_, hend _ (Nat.le_of_lt (lt_of_mem_positioned q hq)) part⟩
    rw [MemoryPressure.batchSize_of_computable fun _ => hword, hshare]
  have hpos : ∀ part, 1 ≤ (MemoryPressure.ofUsage (b.usage (2 * part))).share s.queryBatchSize :=
    fun part => by rw [← hshare]; exact Nat.le_max_left ..
  refine ⟨cut (fun part => (MemoryPressure.ofUsage (b.usage (2 * part))).share s.queryBatchSize) 0
    (positioned vectors), ?_, flatten_cut 0 _, fun i hi => ?_, fun n => ?_, hend⟩
  · rw [batchTogether, queryParts_eq_queryEach hsizes]
  · simpa only [Nat.zero_add] using getElem?_cut hpos hi
  · rw [length_cut_le_iff hpos, length_positioned]
    simp only [Nat.zero_add]

/-- A store for eight queries at a time. -/
private def eightAtATime : VectorStore := { inMemory with queryBatchSize := 8 }

/-- Memory gets scarcer from part to part. -/
private def everScarcer : BatchConditions where
  usage n := if n < 2 then 50 else if n < 4 then 80 else if n < 6 then 90 else 99
  query _ := {}

/-- Twenty vectors are asked for in four parts. -/
theorem batchSize_exact_fourParts : 1 ≤ 8 ∧ 3 * 8 < UInt64.size ∧
    (∀ usage, (MemoryPressure.ofUsage usage).batchSize 8 =
      .ok ((MemoryPressure.ofUsage usage).share 8)) ∧
    ∃ parts, parts.length = 4 ∧ eightAtATime.Shared everScarcer 1 (List.replicate 20 [1, 0])
      (fun part => (MemoryPressure.ofUsage (everScarcer.usage (2 * part))).share 8) parts := by
  obtain ⟨hsize, -, hparts⟩ := batchSize_exact (show 1 ≤ 8 by decide)
  obtain ⟨parts, hshared⟩ := hparts (by decide) eightAtATime everScarcer 1
    (List.replicate 20 [1, 0]) rfl (by decide)
  refine ⟨by decide, by decide, fun usage => hsize usage fun _ => by decide, parts, ?_,
    hshared⟩
  refine Nat.le_antisymm ((hshared.fewest 4).mpr (by decide +kernel)) ?_
  exact Nat.lt_of_not_le fun hle => absurd ((hshared.fewest 3).mp hle) (by decide +kernel)

end VectorStore

end CodeClones
