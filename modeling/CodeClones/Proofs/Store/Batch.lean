import CodeClones.Proofs.Store.Pressure
import CodeClones.Proofs.Store.Remembered

/-!
# Answers of batches

A batch that succeeds gives, under the position of every vector, what the backend answers to a query
for it, whether the answer comes from the backend or is remembered, and in whatever order the
queries complete; and it succeeds unless something is refused to one of its queries, or a number
leaves its word. Remembered answers are found by their keys, so that the keys of different vectors of
the batch must differ.
-/

namespace CodeClones

theorem littleEndian32_injective : Function.Injective Digest.littleEndian32 := by
  intro a b h
  simp only [Digest.littleEndian32, List.cons.injEq, ← UInt8.toNat_inj, UInt32.toNat_toUInt8,
    UInt32.toNat_shiftRight] at h
  obtain ⟨h₀, h₁, h₂, h₃, _⟩ := h
  have ha := a.toNat_lt
  have hb := b.toNat_lt
  rw [← UInt32.toNat_inj]
  simp [Nat.shiftRight_eq_div_pow] at h₀ h₁ h₂ h₃
  omega

theorem singleBytes_injective : Function.Injective singleBytes := by
  intro x y h
  have hbits : x.toModel.toBits = y.toModel.toBits := littleEndian32_injective h
  rcases x with ⟨⟨bits, _⟩⟩
  rcases y with ⟨⟨bits', _⟩⟩
  cases hbits
  rfl

/-- Pieces of one length can be told apart when they are joined. -/
theorem flatMap_injective {α β : Type} {f : α → List β} {n : Nat} (hn : n ≠ 0)
    (hlength : ∀ a, (f a).length = n) (hf : Function.Injective f) :
    Function.Injective (List.flatMap f) := by
  intro xs ys h
  induction xs generalizing ys with
  | nil =>
    cases ys with
    | nil => rfl
    | cons y ys =>
      have := congrArg List.length h
      simp only [List.flatMap_nil, List.flatMap_cons, List.length_nil, List.length_append,
        hlength] at this
      omega
  | cons x xs ih =>
    cases ys with
    | nil =>
      have := congrArg List.length h
      simp [hlength, hn] at this
    | cons y ys =>
      rw [List.flatMap_cons, List.flatMap_cons] at h
      obtain ⟨hx, hxs⟩ := List.append_inj h (by rw [hlength, hlength])
      rw [hf hx, ih hxs]

/-- The text of a query tells its vector. -/
theorem vector_of_queryText {v v' : Embedding} {k : Nat} {threshold : Float32}
    {filter : Json.Object} (h : queryText v k threshold filter = queryText v' k threshold filter) :
    v = v' := by
  rw [queryText, queryText] at h
  have hvectors := List.append_cancel_right (List.append_cancel_right
    (List.append_cancel_right h))
  exact flatMap_injective (by decide : (4 : Nat) ≠ 0) (fun _ => rfl) singleBytes_injective hvectors

/-- An outcome that is a success only with what is expected, and that is what is expected if nothing
gets in the way. -/
structure Faithful {ε α : Type} (calm : Prop) (expected given : Except ε α) : Prop where
  of_ok : ∀ a, given = .ok a → expected = .ok a
  of_calm : calm → given = expected

namespace Faithful

variable {ε α β : Type} {calm calm' : Prop} {expected given : Except ε α}

/-- A failure is what is expected if nothing gets in the way, or something does. -/
theorem of_error {e : ε} (h : calm → expected = .error e) :
    Faithful calm expected (.error e) :=
  ⟨fun _ ha => (nomatch ha), fun hc => (h hc).symm⟩

theorem map (h : Faithful calm expected given) (f : α → β) :
    Faithful calm (expected.map f) (given.map f) where
  of_ok b hb := by
    cases given with
    | error e => cases hb
    | ok a =>
      rw [h.of_ok a rfl]
      exact hb
  of_calm hc := by rw [h.of_calm hc]

theorem mono (h : Faithful calm expected given) (hcalm : calm' → calm) :
    Faithful calm' expected given :=
  ⟨h.of_ok, fun hc => h.of_calm (hcalm hc)⟩

end Faithful

namespace Backend

variable {b : Backend} {k : Nat} {threshold : Float32}

/-- What a backend answers to the queries of a batch, one after the other. -/
def answerAll (b : Backend) (k : Nat) (threshold : Float32) (queries : List (Nat × Embedding)) :
    Except StoreError BatchAnswer :=
  queries.mapM fun (position, vector) =>
    (b.query vector k threshold []).map fun answer => (position, answer)

theorem answerAll_cons_of_ok {position : Nat} {vector : Embedding} {answer : List Match}
    (h : b.query vector k threshold [] = .ok answer) (rest : List (Nat × Embedding)) :
    b.answerAll k threshold ((position, vector) :: rest) =
      (b.answerAll k threshold rest).map ((position, answer) :: ·) := by
  rw [answerAll, List.mapM_cons]
  simp only [h]
  cases hrest : b.answerAll k threshold rest <;> rw [answerAll] at hrest <;> rw [hrest] <;> rfl

theorem answerAll_cons_of_error {position : Nat} {vector : Embedding} {e : StoreError}
    (h : b.query vector k threshold [] = .error e) (rest : List (Nat × Embedding)) :
    b.answerAll k threshold ((position, vector) :: rest) = .error e := by
  rw [answerAll, List.mapM_cons]
  simp only [h]
  rfl

/-- All queries look at the same records. -/
theorem answerAll_of_records {records : List Record} (h : b.records = .ok records)
    (queries : List (Nat × Embedding)) :
    b.answerAll k threshold queries =
      .ok (queries.map fun (position, vector) =>
        (position, rank records vector k threshold [])) := by
  induction queries with
  | nil => rfl
  | cons q rest ih =>
    rw [answerAll_cons_of_ok (by rw [query, h]; rfl), ih]
    rfl

/-- Where the records cannot be read, every query fails. -/
theorem answerAll_of_unreadable {e : StoreError} (h : b.records = .error e)
    {queries : List (Nat × Embedding)} (hne : queries ≠ []) :
    b.answerAll k threshold queries = .error e := by
  cases queries with
  | nil => exact absurd rfl hne
  | cons q rest => exact answerAll_cons_of_error (by rw [query, h]; rfl) rest

theorem answerAll_append_of_ok {before after : List (Nat × Embedding)} {answers : BatchAnswer}
    (h : b.answerAll k threshold before = .ok answers) :
    b.answerAll k threshold (before ++ after) =
      (b.answerAll k threshold after).map (answers ++ ·) := by
  rw [answerAll, List.mapM_append]
  rw [answerAll] at h
  rw [h]
  cases hafter : b.answerAll k threshold after <;> rw [answerAll] at hafter <;> rw [hafter] <;> rfl

theorem answerAll_append_of_error {before : List (Nat × Embedding)} {e : StoreError}
    (h : b.answerAll k threshold before = .error e) (after : List (Nat × Embedding)) :
    b.answerAll k threshold (before ++ after) = .error e := by
  rw [answerAll, List.mapM_append]
  rw [answerAll] at h
  rw [h]
  rfl

/-- The answers to some queries are what is found for each of them. -/
private theorem eq_map_of_answerAll {queries : List (Nat × Embedding)} {answers : BatchAnswer}
    (h : b.answerAll k threshold queries = .ok answers) :
    ∃ find : Embedding → List Match,
      answers = queries.map (fun (position, vector) => (position, find vector)) ∧
        ∀ p ∈ queries, b.query p.2 k threshold [] = .ok (find p.2) := by
  cases hrecords : b.records with
  | error e =>
    by_cases hne : queries = []
    · subst hne
      cases h
      exact ⟨fun _ => [], rfl, fun _ hp => nomatch hp⟩
    · rw [answerAll_of_unreadable hrecords hne] at h
      cases h
  | ok records =>
    rw [answerAll_of_records hrecords] at h
    cases h
    exact ⟨fun v => rank records v k threshold [], rfl, fun p _ => by rw [query, hrecords]; rfl⟩

/-- The answers to some queries are those to each of them. -/
theorem mem_of_answerAll {queries : List (Nat × Embedding)} {answers : BatchAnswer}
    (h : b.answerAll k threshold queries = .ok answers) (i : Nat) (hits : List Match) :
    (i, hits) ∈ answers ↔ ∃ v, (i, v) ∈ queries ∧ b.query v k threshold [] = .ok hits := by
  obtain ⟨find, rfl, hfind⟩ := eq_map_of_answerAll h
  rw [List.mem_map]
  constructor
  · rintro ⟨⟨i', v⟩, hm, he⟩
    obtain ⟨rfl, rfl⟩ := Prod.mk.inj he
    exact ⟨v, hm, hfind (_, v) hm⟩
  · rintro ⟨v, hm, hans⟩
    have hhits : find v = hits := Except.ok.inj ((hfind (i, v) hm).symm.trans hans)
    exact ⟨(i, v), hm, Prod.ext rfl hhits⟩

/-- The answers are under the positions of the queries. -/
theorem map_fst_of_answerAll {queries : List (Nat × Embedding)} {answers : BatchAnswer}
    (h : b.answerAll k threshold queries = .ok answers) :
    answers.map Prod.fst = queries.map Prod.fst := by
  obtain ⟨find, rfl, -⟩ := eq_map_of_answerAll h
  rw [List.map_map]
  rfl

end Backend

/-- Answers under ascending positions stay as they are, in whatever order they were given. -/
private theorem inOrder_of_perm {answers answers' : BatchAnswer} (h : answers.Perm answers')
    (hsorted : answers'.Pairwise fun a b => a.1 < b.1) :
    VectorStore.inOrder answers = answers' := by
  have hperm : (VectorStore.inOrder answers).Perm answers' := (List.mergeSort_perm ..).trans h
  have hnodup : (answers'.map Prod.fst).Nodup :=
    List.Pairwise.map _ (fun _ _ hlt => Nat.ne_of_lt hlt) hsorted
  have hle : (VectorStore.inOrder answers).Pairwise fun a b => a.1 ≤ b.1 := by
    refine (List.pairwise_mergeSort ?_ ?_ answers).imp (by simp)
    · intro a b c hab hbc
      simp only [decide_eq_true_eq] at *
      omega
    · intro a b
      simp only [Bool.or_eq_true, decide_eq_true_eq]
      omega
  refine List.Perm.eq_of_pairwise (fun a b ha hb hab hba => ?_) hle
    (hsorted.imp Nat.le_of_lt) hperm
  exact List.inj_on_of_nodup_map hnodup (hperm.mem_iff.mp ha) hb (Nat.le_antisymm hab hba)

namespace VectorStore

theorem mem_positioned {vectors : List Embedding} {i : Nat} {v : Embedding} :
    (i, v) ∈ positioned vectors ↔ vectors[i]? = some v := by
  rw [positioned, List.mem_map]
  constructor
  · rintro ⟨⟨v', i'⟩, hm, he⟩
    cases he
    exact List.mem_zipIdx_iff_getElem?.mp hm
  · intro h
    exact ⟨(v, i), List.mem_zipIdx_iff_getElem?.mpr h, rfl⟩

theorem lt_of_mem_positioned {vectors : List Embedding} (p : Nat × Embedding)
    (h : p ∈ positioned vectors) : p.1 < vectors.length :=
  (List.getElem?_eq_some_iff.mp (mem_positioned.mp h)).1

private theorem positioned_ascending (vectors : List Embedding) :
    (positioned vectors).Pairwise fun a b => a.1 < b.1 := by
  have h : (vectors.zipIdx.map Prod.snd).Pairwise (· < ·) := by
    rw [List.zipIdx_map_snd]
    exact List.pairwise_lt_range'
  rw [positioned, List.pairwise_map]
  exact List.pairwise_map.mp h

end VectorStore

/-- Put in order, the answers to the vectors of a batch are the same in whatever order they were
asked for. -/
theorem Backend.answerAll_inOrder {b : Backend} {k : Nat} {threshold : Float32}
    {vectors : List Embedding} {asked : List (Nat × Embedding)}
    (h : asked.Perm (VectorStore.positioned vectors)) :
    (b.answerAll k threshold asked).map VectorStore.inOrder =
      b.answerAll k threshold (VectorStore.positioned vectors) := by
  cases hrecords : b.records with
  | ok records =>
    rw [answerAll_of_records hrecords, answerAll_of_records hrecords]
    refine congrArg Except.ok (inOrder_of_perm (h.map _) ?_)
    rw [List.pairwise_map]
    exact VectorStore.positioned_ascending vectors
  | error e =>
    by_cases hne : asked = []
    · subst hne
      rw [List.nil_perm.mp h]
      exact congrArg Except.ok (inOrder_of_perm (.refl []) .nil)
    · rw [answerAll_of_unreadable hrecords hne, answerAll_of_unreadable hrecords]
      · rfl
      · exact fun hnil => hne (List.perm_nil.mp (hnil ▸ h))

/-- Nothing is refused to a batch of `n` vectors on a store, and nothing leaves its word. -/
structure BatchConditions.Calm (b : BatchConditions) (s : VectorStore) (n : Nat) : Prop where
  query : ∀ position, (b.query position).Calm
  delay : b.delay = 0
  fits : s.Fits b n

theorem BatchConditions.Calm.of_limits {b : BatchConditions} {s s' : VectorStore} {n : Nat}
    (h : b.Calm s n) (hlimits : s'.limits = s.limits) : b.Calm s' n :=
  { h with fits := h.fits.of_limits hlimits }

namespace VectorStore

theorem concurrencyCeiling_le (usage : Float) (requested : Nat) :
    concurrencyCeiling usage requested ≤ max requested 1 := by
  rw [concurrencyCeiling]
  split <;> omega

/-- Nothing leaves its word in a batch whose base has a third of the word, whose vectors have half of
it, and for whose queries at the same time there are permits. -/
theorem fits_of_le {s : VectorStore} {n : Nat} (hbase : 3 * s.queryBatchSize < UInt64.size)
    (hatOnce : s.maxConcurrentQueries ≤ maxPermits) (hn : n ≤ 2 ^ 63) (b : BatchConditions) :
    s.Fits b n := by
  refine fun part first hfirst => ⟨?_, ?_⟩
  · have hceiling := concurrencyCeiling_le (b.usage (2 * part + 1)) s.maxConcurrentQueries
    have hone : 1 ≤ maxPermits := by decide
    exact decide_eq_true (hceiling.trans (Nat.max_le.mpr ⟨hatOnce, hone⟩))
  · have hshare := (MemoryPressure.ofUsage (b.usage (2 * part))).share_le s.queryBatchSize
    have hend : first + max 1 ((MemoryPressure.ofUsage (b.usage (2 * part))).share
        s.queryBatchSize) < UInt64.size := by
      rw [UInt64.size] at hbase ⊢
      omega
    rw [partSize_eq_ok_iff.mpr ⟨MemoryPressure.batchSize_of_computable fun _ => hbase, hend⟩]
    rfl

/-- Two states of a store between which it was only asked. -/
structure Queried (asked : List Query) (s s' : VectorStore) : Prop where
  backend : s'.backend = s.backend
  limits : s'.limits = s.limits
  room : s.pool.SameRoom s'.pool
  cached : s'.cache.isSome = s.cache.isSome
  truthful : s'.Truthful asked

theorem Queried.maxResults {asked : List Query} {s s' : VectorStore} (h : Queried asked s s') :
    s'.maxResults = s.maxResults :=
  maxResults_of_limits h.limits

theorem Queried.trans {asked : List Query} {s s₁ s₂ : VectorStore} (h₁ : Queried asked s s₁)
    (h₂ : Queried asked s₁ s₂) : Queried asked s s₂ :=
  ⟨h₂.backend.trans h₁.backend, h₂.limits.trans h₁.limits, h₁.room.trans h₂.room,
    h₂.cached.trans h₁.cached, h₂.truthful⟩

theorem Queried.refl {asked : List Query} {s : VectorStore} (hs : s.Truthful asked) :
    Queried asked s s :=
  ⟨rfl, rfl, .refl _, rfl, hs⟩

variable {asked : List Query} {s s' : VectorStore} {threshold : Float32}

/-- A query gives what the backend answers. -/
theorem query_faithful {c : Conditions} {q : Query} {r : Except StoreError (List Match)}
    (hs : s.Truthful asked) (hkeys : s.cache.isSome → KeysApart asked) (hq : q ∈ asked)
    (h : s.query c q.vector q.k q.threshold q.filter = (s', r)) :
    Queried asked s s' ∧ Faithful (c.Calm ∧ s.pool.HasRoom) (s.backend.answer q) r := by
  obtain ⟨htruthful, hok⟩ := query_truthful hs hkeys hq h
  have hkeeps := s.query_keeps c q.vector q.k q.threshold q.filter
  rw [h] at hkeeps
  exact ⟨⟨hkeeps.1, hkeeps.2, query_sameRoom h, query_isSome h, htruthful⟩, hok,
    fun hcalm => query_calm hs hkeys hq hcalm.1 hcalm.2 h⟩

/-- Queries one after the other give what the backend answers to all of them. -/
theorem queryAll_faithful {conditions : Nat → Conditions} {queries : List (Nat × Embedding)}
    {r : Except StoreError BatchAnswer} (hs : s.Truthful asked)
    (hkeys : s.cache.isSome → KeysApart asked)
    (hq : ∀ p ∈ queries, ⟨p.2, s.maxResults, threshold, []⟩ ∈ asked)
    (h : s.queryAll conditions threshold queries = (s', r)) :
    Queried asked s s' ∧ Faithful ((∀ i, (conditions i).Calm) ∧ s.pool.HasRoom)
      (s.backend.answerAll s.maxResults threshold queries) r := by
  induction queries generalizing s r with
  | nil =>
    cases h
    exact ⟨.refl hs, fun _ ha => ha, fun _ => rfl⟩
  | cons p rest ih =>
    obtain ⟨position, vector⟩ := p
    rw [queryAll] at h
    rcases hquery : s.query (conditions position) vector s.maxResults threshold [] with ⟨s₁, first⟩
    obtain ⟨hafter, hfirst⟩ := query_faithful hs hkeys (hq _ (List.mem_cons_self ..)) hquery
    rw [hquery] at h
    cases first with
    | error e =>
      cases h
      exact ⟨hafter, .of_error fun hc =>
        Backend.answerAll_cons_of_error (hfirst.of_calm ⟨hc.1 position, hc.2⟩).symm rest⟩
    | ok answer =>
      rcases hrest : s₁.queryAll conditions threshold rest with ⟨s₂, more⟩
      dsimp only at h
      rw [hrest] at h
      cases h
      obtain ⟨hlast, hmore⟩ := ih hafter.truthful (fun hsome => hkeys (hafter.cached ▸ hsome))
        (fun p hp => hafter.maxResults ▸ hq p (List.mem_cons_of_mem _ hp)) hrest
      rw [hafter.backend, hafter.maxResults] at hmore
      rw [Backend.answerAll_cons_of_ok (hfirst.of_ok answer rfl)]
      exact ⟨hafter.trans hlast,
        (hmore.mono fun hc => ⟨hc.1, hafter.room.hasRoom hc.2⟩).map _⟩

/-- A part of a batch gives what the backend answers to its queries as they complete. -/
private theorem queryPart_faithful {b : BatchConditions} {part n : Nat}
    {queries : List (Nat × Embedding)} {r : Except StoreError BatchAnswer}
    (hs : s.Truthful asked) (hkeys : s.cache.isSome → KeysApart asked)
    (hq : ∀ p ∈ queries, ⟨p.2, s.maxResults, threshold, []⟩ ∈ asked) (hn : 0 < n)
    (h : s.queryPart b threshold part queries = (s', r)) :
    Queried asked s s' ∧ Faithful (b.Calm s n ∧ s.pool.HasRoom)
      (s.backend.answerAll s.maxResults threshold (b.order part queries)) r := by
  unfold queryPart at h
  dsimp only at h
  split at h
  · split at h
    · obtain ⟨hqueried, hr⟩ := queryAll_faithful hs hkeys
        (fun p hp => hq p ((b.order_perm part queries).mem_iff.mp hp)) h
      exact ⟨hqueried, hr.mono fun hc => ⟨hc.1.query, hc.2⟩⟩
    · rename_i cause hcontention
      cases h
      refine ⟨(queryAll_faithful hs hkeys (fun p hp => hq p (List.mem_of_mem_take hp)) rfl).1,
        .of_error fun hc => ?_⟩
      -- queries that take no time do not hinder each other
      rw [contention, if_pos hc.1.delay] at hcontention
      cases hcontention
  · rename_i hpermits
    cases h
    exact ⟨.refl hs, .of_error fun hc => absurd (hc.1.fits part 0 hn).1 hpermits⟩

private theorem queryParts_faithful {b : BatchConditions} {part n : Nat}
    {queries : List (Nat × Embedding)} {r : Except StoreError BatchAnswer}
    (hs : s.Truthful asked) (hkeys : s.cache.isSome → KeysApart asked)
    (hq : ∀ p ∈ queries, ⟨p.2, s.maxResults, threshold, []⟩ ∈ asked)
    (hpositions : ∀ p ∈ queries, p.1 < n)
    (h : s.queryParts b threshold part queries = (s', r)) :
    Queried asked s s' ∧ ∃ done : List (Nat × Embedding), done.Perm queries ∧
      Faithful (b.Calm s n ∧ s.pool.HasRoom)
        (s.backend.answerAll s.maxResults threshold done) r := by
  induction s, part, queries using parts_induction b generalizing s' r with
  | nil s part =>
    rw [queryParts] at h
    cases h
    exact ⟨.refl hs, [], .refl _, fun _ ha => ha, fun _ => rfl⟩
  | abort s part q rest cause hsize =>
    rw [queryParts_of_abort hsize] at h
    cases h
    refine ⟨.refl hs, q :: rest, .refl _, .of_error fun hc => ?_⟩
    have hfits := (hc.1.fits part q.1 (hpositions q (List.mem_cons_self ..))).2
    rw [hsize] at hfits
    cases hfits
  | size s part q rest size hsize ih =>
    have hfirst := b.order_perm part ((q :: rest).take size)
    have hn : 0 < n := Nat.zero_lt_of_lt (hpositions q (List.mem_cons_self ..))
    have hqtake : ∀ p ∈ (q :: rest).take size, ⟨p.2, s.maxResults, threshold, []⟩ ∈ asked :=
      fun p hp => hq p (List.mem_of_mem_take hp)
    rcases queryParts_cases_of_size hsize h with
      ⟨cause, hpart, rfl⟩ | ⟨after, answers, more, hpart, hrest, rfl⟩
    · obtain ⟨hqueried, hr⟩ := queryPart_faithful hs hkeys hqtake hn hpart
      refine ⟨hqueried, b.order part ((q :: rest).take size) ++ (q :: rest).drop size, ?_,
        .of_error fun hc => Backend.answerAll_append_of_error (hr.of_calm hc).symm _⟩
      have hperm := hfirst.append_right ((q :: rest).drop size)
      rwa [List.take_append_drop] at hperm
    · obtain ⟨hqueried, hr⟩ := queryPart_faithful hs hkeys hqtake hn hpart
      obtain ⟨hafter, done, hdone, hmore⟩ := ih after hqueried.truthful
        (fun hsome => hkeys (hqueried.cached ▸ hsome))
        (fun p hp => hqueried.maxResults ▸ hq p (List.mem_of_mem_drop hp))
        (fun p hp => hpositions p (List.mem_of_mem_drop hp)) hrest
      rw [hqueried.backend, hqueried.maxResults] at hmore
      refine ⟨hqueried.trans hafter, b.order part ((q :: rest).take size) ++ done, ?_, ?_⟩
      · have hperm := hfirst.append hdone
        rwa [List.take_append_drop] at hperm
      · rw [Backend.answerAll_append_of_ok (hr.of_ok answers rfl)]
        exact (hmore.mono fun hc =>
          ⟨hc.1.of_limits hqueried.limits, hqueried.room.hasRoom hc.2⟩).map _

/-- The queries of a batch with their positions are among those that are asked. -/
private theorem asked_of_mem_positioned {vectors : List Embedding} {k : Nat}
    (hq : ∀ v ∈ vectors, ⟨v, k, threshold, []⟩ ∈ asked) :
    ∀ p ∈ positioned vectors, ⟨p.2, k, threshold, []⟩ ∈ asked :=
  fun p hp => hq p.2 (List.mem_of_getElem? (mem_positioned.mp hp))

/-- Vectors one after the other are given what the backend answers to them. -/
theorem queryAll_positioned_faithful {conditions : Nat → Conditions} {vectors : List Embedding}
    {r : Except StoreError BatchAnswer} (hs : s.Truthful asked)
    (hkeys : s.cache.isSome → KeysApart asked)
    (hq : ∀ v ∈ vectors, ⟨v, s.maxResults, threshold, []⟩ ∈ asked)
    (h : s.queryAll conditions threshold (positioned vectors) = (s', r)) :
    Queried asked s s' ∧ Faithful ((∀ i, (conditions i).Calm) ∧ s.pool.HasRoom)
      (s.backend.answerAll s.maxResults threshold (positioned vectors)) r :=
  queryAll_faithful hs hkeys (asked_of_mem_positioned hq) h

/-- A batch in parts gives what the backend answers to all its vectors. -/
theorem batchTogether_faithful {b : BatchConditions} {vectors : List Embedding}
    {r : Except StoreError BatchAnswer} (hs : s.Truthful asked)
    (hkeys : s.cache.isSome → KeysApart asked)
    (hq : ∀ v ∈ vectors, ⟨v, s.maxResults, threshold, []⟩ ∈ asked)
    (h : s.batchTogether b vectors threshold = (s', r)) :
    Queried asked s s' ∧ Faithful (b.Calm s vectors.length ∧ s.pool.HasRoom)
      (s.backend.answerAll s.maxResults threshold (positioned vectors)) r := by
  rw [batchTogether] at h
  rcases hparts : s.queryParts b threshold 0 (positioned vectors) with ⟨s₁, found⟩
  obtain ⟨hqueried, done, hdone, hr⟩ :=
    queryParts_faithful hs hkeys (asked_of_mem_positioned hq) lt_of_mem_positioned hparts
  rw [hparts] at h
  cases h
  rw [← Backend.answerAll_inOrder hdone]
  exact ⟨hqueried, hr.map _⟩

/-- A batch gives what the backend answers to all its vectors. -/
theorem batch_faithful {b : BatchConditions} {inRuntime : Bool} {vectors : List Embedding}
    {r : Except StoreError BatchAnswer} (hs : s.Truthful asked)
    (hkeys : s.cache.isSome → KeysApart asked)
    (hq : ∀ v ∈ vectors, ⟨v, s.maxResults, threshold, []⟩ ∈ asked)
    (h : s.batch b inRuntime vectors threshold = (s', r)) :
    Queried asked s s' ∧
      Faithful (b.Calm s vectors.length ∧ inRuntime = false ∧ s.pool.HasRoom)
      (s.backend.answerAll s.maxResults threshold (positioned vectors)) r := by
  unfold batch at h
  split at h
  · obtain ⟨hqueried, hr⟩ := queryAll_positioned_faithful hs hkeys hq h
    exact ⟨hqueried, hr.mono fun hc => ⟨hc.1.query, hc.2.2⟩⟩
  · split at h
    · rename_i hin
      cases h
      exact ⟨.refl hs, .of_error fun hc => by rw [hc.2.1] at hin; cases hin⟩
    · obtain ⟨hqueried, hr⟩ := batchTogether_faithful hs hkeys hq h
      exact ⟨hqueried, hr.mono fun hc => ⟨hc.1, hc.2.2⟩⟩

end VectorStore

end CodeClones
