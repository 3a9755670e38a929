import CodeClones.Proofs.Store.Requests

/-!
# Batches and single queries

A batch in parts is a loop over the positions of its vectors. The loop ends after at most as many
rounds as there are vectors, since no part is empty, and a batch that succeeds has under every
position, once, what a query for the vector there gives, whatever the sizes of the parts are and in
whatever order their queries complete. So it makes no difference whether the queries of a batch run
at the same time, as long as none of them is refused or times out, and no number leaves its word. If
one does, the program stops in a batch in parts, where queries one by one are answered.
-/

namespace CodeClones.VectorStore

/-! ## The loop over the positions -/

/-- The vectors from one position up to another one, with their positions. -/
def positionedFrom (vectors : List Embedding) (first last : Nat) : List (Nat × Embedding) :=
  ((vectors.drop first).take (last - first)).zipIdx.map fun (v, i) => (first + i, v)

/-- One round of the loop of a batch, with the position where the next one starts. -/
def batchRound (s : VectorStore) (b : BatchConditions) (vectors : List Embedding)
    (threshold : Float32) (part first : Nat) :
    VectorStore × Except StoreError (Nat × BatchAnswer) :=
  andThen (s, (s.partSize (b.usage (2 * part)) first).mapError .aborted) fun s size =>
    let last := min (first + size) vectors.length
    andThen (s.queryPart b threshold part (positionedFrom vectors first last)) fun s answers =>
      (s, .ok (last, answers))

/-- The loop of a batch from a position on, with the answers for the positions before it. Nothing is
given where the rounds are not enough for the loop to end. -/
def batchRounds (s : VectorStore) (b : BatchConditions) (vectors : List Embedding)
    (threshold : Float32) (part first : Nat) (found : BatchAnswer) (rounds : Nat) :
    Option (VectorStore × Except StoreError BatchAnswer) :=
  if first < vectors.length then
    match rounds with
    | 0 => none
    | rounds + 1 =>
      match s.batchRound b vectors threshold part first with
      | (s, .error cause) => some (s, .error cause)
      | (s, .ok (last, answers)) =>
        s.batchRounds b vectors threshold (part + 1) last (found ++ answers) rounds
  else some (s, .ok (inOrder found))

theorem length_positioned (vectors : List Embedding) :
    (positioned vectors).length = vectors.length := by
  rw [positioned, List.length_map, List.length_zipIdx]

theorem map_fst_positioned (vectors : List Embedding) :
    (positioned vectors).map Prod.fst = List.range vectors.length := by
  rw [positioned, List.map_map, List.range_eq_range']
  exact List.zipIdx_map_snd 0 vectors

/-- A part has the next vectors, under the positions that they have in the batch. -/
theorem positionedFrom_min (vectors : List Embedding) (first size : Nat) :
    positionedFrom vectors first (min (first + size) vectors.length) =
      ((positioned vectors).drop first).take size := by
  have htake : (vectors.drop first).take (min (first + size) vectors.length - first) =
      (vectors.drop first).take size := by
    refine List.take_eq_take_iff.mpr ?_
    rw [List.length_drop]
    omega
  rw [positionedFrom, htake, positioned, ← List.map_drop, ← List.map_take]
  refine List.ext_getElem? fun i => ?_
  by_cases hi : i < size
  · simp only [List.getElem?_map, List.getElem?_zipIdx, List.getElem?_take_of_lt hi,
      List.getElem?_drop, Option.map_map, Nat.zero_add]
    rfl
  · simp [hi]

/-- The positions behind a part are those that its size leaves. -/
private theorem drop_positioned_min (vectors : List Embedding) (first size : Nat) :
    (positioned vectors).drop (min (first + size) vectors.length) =
      ((positioned vectors).drop first).drop size := by
  rw [List.drop_drop]
  rcases Nat.le_total (first + size) vectors.length with hle | hle
  · rw [Nat.min_eq_left hle]
  · rw [Nat.min_eq_right hle, List.drop_of_length_le (length_positioned vectors).le,
      List.drop_of_length_le ((length_positioned vectors).trans_le hle)]

/-- What is left from a position on starts with that position. -/
private theorem exists_drop_positioned {vectors : List Embedding} {first : Nat}
    (h : first < vectors.length) :
    ∃ v rest, (positioned vectors).drop first = (first, v) :: rest := by
  have hlength : first < (positioned vectors).length := (length_positioned vectors).symm ▸ h
  refine ⟨vectors[first], (positioned vectors).drop (first + 1), ?_⟩
  rw [List.drop_eq_getElem_cons hlength]
  simp [positioned]

section Rounds

variable (s : VectorStore) (b : BatchConditions) (threshold : Float32) (part : Nat)
  (found : BatchAnswer) {vectors : List Embedding} {first : Nat}

/-- Behind the last position there is nothing to do. -/
private theorem batchRounds_of_length_le (hfirst : vectors.length ≤ first) (rounds : Nat) :
    s.batchRounds b vectors threshold part first found rounds =
      let (last, more) := s.queryParts b threshold part ((positioned vectors).drop first)
      some (last, more.map fun answers => inOrder (found ++ answers)) := by
  unfold batchRounds
  rw [if_neg (Nat.not_lt.mpr hfirst),
    List.drop_of_length_le ((length_positioned vectors).trans_le hfirst), queryParts]
  simp only [Except.map, List.append_nil]

/-- As many rounds as there are positions left are enough for what is left of the batch. -/
private theorem batchRounds_eq {rounds : Nat} (hrounds : vectors.length ≤ first + rounds) :
    s.batchRounds b vectors threshold part first found rounds =
      let (last, more) := s.queryParts b threshold part ((positioned vectors).drop first)
      some (last, more.map fun answers => inOrder (found ++ answers)) := by
  induction rounds generalizing s part first found with
  | zero => exact s.batchRounds_of_length_le b threshold part found hrounds 0
  | succ rounds ih =>
    rcases Nat.lt_or_ge first vectors.length with hfirst | hfirst
    · obtain ⟨v, rest, hrest⟩ := exists_drop_positioned hfirst
      rw [batchRounds, if_pos hfirst, batchRound, hrest]
      cases hsize : s.partSize (b.usage (2 * part)) first with
      | error cause =>
        rw [queryParts_of_abort hsize]
        rfl
      | ok size =>
        have hpos := MemoryPressure.one_le_of_batchSize (partSize_eq_ok_iff.mp hsize).1
        rw [queryParts_of_size hsize, ← hrest]
        simp only [Except.mapError, andThen, positionedFrom_min]
        rcases s.queryPart b threshold part (((positioned vectors).drop first).take size) with
          ⟨s₁, cause | answers⟩
        · rfl
        · -- the next round starts later, as the part was not empty
          dsimp only
          rw [ih s₁ (part + 1) (found ++ answers) (by omega), drop_positioned_min]
          rcases s₁.queryParts b threshold (part + 1)
            (((positioned vectors).drop first).drop size) with ⟨last, cause | more⟩
          · rfl
          · simp only [Except.map, List.append_assoc]
    · exact s.batchRounds_of_length_le b threshold part found hfirst (rounds + 1)

/-- The loop ends, after at most as many rounds as there are vectors. -/
theorem batchRounds_eq_batchTogether {rounds : Nat} (hrounds : vectors.length ≤ rounds) :
    s.batchRounds b vectors threshold 0 0 [] rounds =
      some (s.batchTogether b vectors threshold) := by
  rw [batchRounds_eq s b threshold 0 [] (by omega), List.drop_zero]
  rfl

end Rounds

/-! ## Batches without time-outs -/

/-- Two states of a store with the same limits, those of its pool included. -/
structure SameLimits (s s' : VectorStore) : Prop where
  limits : s'.limits = s.limits
  maxConnections : s'.pool.maxConnections = s.pool.maxConnections
  timeout : s'.pool.timeout = s.pool.timeout

theorem SameLimits.refl (s : VectorStore) : SameLimits s s := ⟨rfl, rfl, rfl⟩

theorem SameLimits.trans {s s₁ s₂ : VectorStore} (h₁ : SameLimits s s₁) (h₂ : SameLimits s₁ s₂) :
    SameLimits s s₂ :=
  ⟨h₂.limits.trans h₁.limits, h₂.maxConnections.trans h₁.maxConnections,
    h₂.timeout.trans h₁.timeout⟩

/-- To take a connection leaves the limits of the pool. -/
private theorem acquire_limits (p : Pool) (refusal : Option StoreError) :
    (p.acquire refusal).1.maxConnections = p.maxConnections ∧
      (p.acquire refusal).1.timeout = p.timeout := by
  unfold Pool.acquire Pool.reserve?
  by_cases hroom : p.inUse < p.maxConnections
  · rw [if_pos hroom]
    cases p.idle.head? with
    | some connection => exact ⟨rfl, rfl⟩
    | none => cases refusal <;> exact ⟨rfl, rfl⟩
  · rw [if_neg hroom]
    exact ⟨rfl, rfl⟩

private theorem ask_sameLimits (s : VectorStore) (c : Conditions) (vector : Embedding) (k : Nat)
    (threshold : Float32) (filter : Json.Object) :
    SameLimits s (s.ask c vector k threshold filter).1 := by
  unfold ask withConnection
  cases c.busy with
  | some cause => exact .refl s
  | none =>
    have hlimits := acquire_limits s.pool (c.refusal .connect)
    rcases hacquire : s.pool.acquire (c.refusal .connect) with ⟨pool, cause | connection⟩
    · rw [hacquire] at hlimits
      exact ⟨rfl, hlimits.1, hlimits.2⟩
    · rw [hacquire] at hlimits
      cases c.refusal .query <;> exact ⟨rfl, hlimits.1, hlimits.2⟩

/-- Queries leave the limits of a store. -/
theorem keptByQueries_sameLimits : KeptByQueries SameLimits where
  refl := .refl
  trans := .trans
  query s c vector k threshold filter := by
    rcases hquery : s.query c vector k threshold filter with ⟨s', r⟩
    obtain ⟨key, -, hcases⟩ := query_cases (q := ⟨vector, k, threshold, filter⟩) hquery
    have hlooked : SameLimits s (s.lookUp c.now key).1 := by
      unfold lookUp
      split <;> exact ⟨rfl, rfl, rfl⟩
    rcases hcases with ⟨hit, -, hlook⟩ | ⟨s₁, hlook, hrest⟩
    · rwa [hlook] at hlooked
    · rw [hlook] at hlooked
      have hasked := s₁.ask_sameLimits c vector k threshold filter
      rcases hrest with ⟨e, -, hask⟩ | ⟨s₂, answer, -, hask, rfl⟩
      · rw [hask] at hasked
        exact hlooked.trans hasked
      · rw [hask] at hasked
        have hremembered : SameLimits s₂ (s₂.remember c.later key answer) :=
          ⟨rfl, rfl, rfl⟩
        exact (hlooked.trans hasked).trans hremembered

/-- No query of a part times out, whatever part it is and however many queries the part has. -/
def InTime (s : VectorStore) (b : BatchConditions) : Prop :=
  ∀ part first size, s.partSize (b.usage (2 * part)) first = .ok size → ∀ queries ≤ size,
    s.contention (b.usage (2 * part + 1)) b.delay queries = none

theorem InTime.of_sameLimits {s s' : VectorStore} {b : BatchConditions} (h : s.InTime b)
    (hsame : SameLimits s s') : s'.InTime b := by
  have hatOnce : s'.maxConcurrentQueries = s.maxConcurrentQueries :=
    congrArg Limits.maxConcurrentQueries hsame.limits
  have hlimit : s'.searchTimeout = s.searchTimeout := congrArg Limits.searchTimeout hsame.limits
  have hcontention : s'.contention = s.contention := by
    funext usage delay queries
    simp only [contention, hatOnce, hlimit, hsame.maxConnections, hsame.timeout]
  intro part first size hsize queries hqueries
  rw [hcontention]
  exact h part first size (partSize_of_limits hsame.limits ▸ hsize) queries hqueries

/-- Where no query times out, it makes no difference how long they take. -/
theorem InTime.queryParts_eq {s : VectorStore} {b : BatchConditions} (h : s.InTime b)
    (threshold : Float32) (part : Nat) (queries : List (Nat × Embedding)) :
    s.queryParts b threshold part queries =
      s.queryParts { b with delay := 0 } threshold part queries := by
  induction s, part, queries using parts_induction b with
  | nil s part => rw [queryParts, queryParts]
  | abort s part q rest cause hsize =>
    rw [queryParts_of_abort hsize, queryParts_of_abort (b := { b with delay := 0 }) hsize]
  | size s part q rest size hsize ih =>
    have hpart : s.queryPart b threshold part ((q :: rest).take size) =
        s.queryPart { b with delay := 0 } threshold part ((q :: rest).take size) := by
      rw [queryPart, queryPart, h part q.1 size hsize _ (List.length_take_le ..)]
      simp only [contention, if_true]
    have hafter := keptByQueries_sameLimits.queryPart s b threshold part ((q :: rest).take size)
    rw [queryParts_of_size hsize, queryParts_of_size (b := { b with delay := 0 }) hsize, ← hpart]
    rcases hfound : s.queryPart b threshold part ((q :: rest).take size) with
      ⟨after, cause | answers⟩
    · rfl
    · rw [hfound] at hafter
      dsimp only [andThen]
      rw [ih after (h.of_sameLimits hafter)]

/-! ## One query after the other -/

/-- A batch in parts is answered like queries one by one. -/
structure OneByOne (s : VectorStore) (vectors : List Embedding) (threshold : Float32) : Prop where
  /-- The loop ends. -/
  ends : ∀ (b : BatchConditions) (rounds : Nat), vectors.length ≤ rounds →
    s.batchRounds b vectors threshold 0 0 [] rounds = some (s.batchTogether b vectors threshold)
  /-- Every position has one answer, and no other position has one. -/
  positions : ∀ b answers, (s.batchTogether b vectors threshold).2 = .ok answers →
    answers.map Prod.fst = List.range vectors.length
  /-- The answer is what a query gives. -/
  query : ∀ b answers, (s.batchTogether b vectors threshold).2 = .ok answers →
    ∀ i v hits, vectors[i]? = some v → (i, hits) ∈ answers → ∀ c : Conditions,
      Faithful c.Calm (.ok hits) (s.query c v s.maxResults threshold []).2
  /-- The answers are what queries one after the other give. -/
  queryAll : ∀ b answers, (s.batchTogether b vectors threshold).2 = .ok answers →
    ∀ conditions : Nat → Conditions, Faithful (∀ i, (conditions i).Calm) (.ok answers)
      (s.queryAll conditions threshold (positioned vectors)).2
  /-- It makes no difference whether queries run at the same time, if nothing leaves its word. -/
  enableAsync : ∀ b b' : BatchConditions, (∀ i, (b.query i).Calm) → s.InTime b →
    s.Fits b vectors.length → (∀ i, (b'.query i).Calm) →
    (({ s with enableAsync := true } : VectorStore).batch b false vectors threshold).2 =
      (({ s with enableAsync := false } : VectorStore).batch b' false vectors threshold).2
  /-- Nothing does where a third of the word has room for the base, half of it for the vectors, and
  there are permits for the queries. -/
  fits : 3 * s.queryBatchSize < UInt64.size → s.maxConcurrentQueries ≤ maxPermits →
    vectors.length ≤ 2 ^ 63 → ∀ b, s.Fits b vectors.length
  /-- Where the size of the first part leaves the word, the program stops. -/
  stops : ∀ b cause, vectors ≠ [] → s.partSize (b.usage 0) 0 = .error cause →
    s.batchTogether b vectors threshold = (s, .error (.aborted cause))

/-- A batch stops where the size of its first part cannot be computed. -/
private theorem batchTogether_of_abort {s : VectorStore} {b : BatchConditions}
    {vectors : List Embedding} {cause : Abort} (hne : vectors ≠ [])
    (h : s.partSize (b.usage 0) 0 = .error cause) (threshold : Float32) :
    s.batchTogether b vectors threshold = (s, .error (.aborted cause)) := by
  obtain ⟨v, rest, hrest⟩ := exists_drop_positioned (List.length_pos_iff.mpr hne)
  have hfirst : s.queryParts b threshold 0 ((0, v) :: rest) = (s, .error (.aborted cause)) :=
    queryParts_of_abort h
  rw [List.drop_zero] at hrest
  rw [batchTogether, hrest, hfirst]
  rfl

/-- On a store that is fit for calls, a batch in parts is answered like queries one by one. -/
theorem oneByOne_of_ready {asked : List Query} {s : VectorStore} {vectors : List Embedding}
    {threshold : Float32} (hready : s.Ready asked)
    (hq : ∀ v ∈ vectors, ⟨v, s.maxResults, threshold, []⟩ ∈ asked) :
    OneByOne s vectors threshold := by
  obtain ⟨hs, hkeys, hroom⟩ := hready
  have htogether : ∀ b answers, (s.batchTogether b vectors threshold).2 = .ok answers →
      s.backend.answerAll s.maxResults threshold (positioned vectors) = .ok answers :=
    fun b answers h => (batchTogether_faithful hs hkeys hq rfl).2.of_ok answers h
  refine ⟨fun b rounds hrounds => s.batchRounds_eq_batchTogether b threshold hrounds,
    fun b answers h => ?_, fun b answers h i v hits hv hhits c => ?_,
    fun b answers h conditions => ?_, fun b b' hb hin hfits hb' => ?_,
    fun hbase hatOnce hn b => fits_of_le hbase hatOnce hn b,
    fun b cause hne h => batchTogether_of_abort hne h threshold⟩
  · rw [Backend.map_fst_of_answerAll (htogether b answers h), map_fst_positioned]
  · obtain ⟨v', hv', hanswer⟩ :=
      (Backend.mem_of_answerAll (htogether b answers h) i hits).mp hhits
    obtain rfl : v = v' := Option.some.inj (hv.symm.trans (mem_positioned.mp hv'))
    have hfaithful := (query_faithful (c := c) hs hkeys (hq v (List.mem_of_getElem? hv)) rfl).2
    rw [Backend.answer, hanswer] at hfaithful
    exact hfaithful.mono fun hc => ⟨hc, hroom⟩
  · have hfaithful := (queryAll_positioned_faithful hs hkeys hq
      (rfl : s.queryAll conditions threshold (positioned vectors) = (_, _))).2
    rw [htogether b answers h] at hfaithful
    exact hfaithful.mono fun hc => ⟨hc, hroom⟩
  · have hon : (({ s with enableAsync := true } : VectorStore).batchTogether b vectors threshold).2 =
        s.backend.answerAll s.maxResults threshold (positioned vectors) := by
      have hin : ({ s with enableAsync := true } : VectorStore).InTime b := hin
      rw [batchTogether, hin.queryParts_eq]
      exact (batchTogether_faithful (s := { s with enableAsync := true })
        (b := { b with delay := 0 }) hs hkeys hq rfl).2.of_calm ⟨⟨hb, rfl, hfits⟩, hroom⟩
    have hoff : (({ s with enableAsync := false } : VectorStore).queryAll b'.query threshold
        (positioned vectors)).2 =
          s.backend.answerAll s.maxResults threshold (positioned vectors) :=
      (queryAll_positioned_faithful (s := { s with enableAsync := false }) hs hkeys hq
        rfl).2.of_calm ⟨hb', hroom⟩
    exact hon.trans hoff.symm

/-- After any calls one after the other, a batch in parts is answered like queries one by one, as
long as different queries among those asked have different keys, if answers are remembered. -/
theorem oneByOne_of_history {backend : Backend} {config : StoreConfig} {c : Conditions}
    {s : VectorStore} (hstart : start backend config c = .ok s) (queryBatchSize : Nat)
    (history : List (RequestConditions × Request)) (vectors : List Embedding)
    (threshold : Float32)
    (hkeys : config.enableQueryCache = true →
      KeysApart ((history.map Prod.snd ++ [Request.batch vectors threshold]).flatMap
        (Request.queries s.maxResults))) :
    OneByOne (({ s with queryBatchSize } : VectorStore).after history) vectors threshold := by
  have hs := start_ready hstart hkeys
  obtain ⟨hready, hq⟩ := after_ready_for (s := { s with queryBatchSize }) history
    (Request.batch vectors threshold) ⟨hs.truthful, hs.keys, hs.room⟩
  exact oneByOne_of_ready hready fun v hv => hq _ (List.mem_map_of_mem hv)

/-- A vector is added on each axis. -/
private def addAxes : List (RequestConditions × Request) :=
  [({ batch := { usage := fun _ => 0, query := fun _ => {} } },
    .upsert ["a", "b"] [[1, 0], [0, 1]] [[], []])]

/-- A store in memory with a vector on each axis. -/
private def axes (queryBatchSize : Nat) : VectorStore :=
  ({ inMemory with queryBatchSize } : VectorStore).after addAxes

/-- A part with one query, as memory is short, and then one with two that complete the other way
round. -/
private def shortOfMemory : BatchConditions where
  usage n := if n = 0 then 90 else 10
  query _ := {}
  order _ := List.reverse
  order_perm _ := List.reverse_perm

/-- So much memory in use that a batch is warned. -/
private def warned : BatchConditions where
  usage _ := 80
  query _ := {}

/-- Vectors along the axes, one of them twice. -/
private def alongAxes : List Embedding := [[1, 0], [0, 1], [1, 0]]

/-- The queries of a batch along the axes are found by different keys. -/
private theorem keysApart_alongAxes :
    KeysApart [⟨[1, 0], 100, 1, []⟩, ⟨[0, 1], 100, 1, []⟩, ⟨[1, 0], 100, 1, []⟩] := by
  have hapart : Query.key ⟨[1, 0], 100, 1, []⟩ ≠ Query.key ⟨[0, 1], 100, 1, []⟩ := by
    decide +kernel
  exact .of_pair hapart (by simp)

/-- A batch for three vectors succeeds after two parts, and is answered like queries one by one. With
a base that three times do not fit into a word it stops, and queries one by one are answered. -/
theorem oneByOne_alongAxes :
    ((axes 2).batchRounds shortOfMemory alongAxes 1 0 0 [] 2).map (fun r => r.2.isOk) = some true ∧
      OneByOne (axes 2) alongAxes 1 ∧
      ((axes 6148914691236517206).batchTogether warned alongAxes 1).2 =
        .error (.aborted .product) ∧
      ((axes 6148914691236517206).queryAll (fun _ => {}) 1 (positioned alongAxes)).2.isOk := by
  have hwarned := oneByOne_of_history start_inMemory 6148914691236517206 addAxes alongAxes 1
    fun _ => keysApart_alongAxes
  refine ⟨by decide +kernel,
    oneByOne_of_history start_inMemory 2 addAxes alongAxes 1 fun _ => keysApart_alongAxes,
    congrArg Prod.snd (hwarned.stops warned .product (by decide) (by decide +kernel)),
    by decide +kernel⟩

end CodeClones.VectorStore
