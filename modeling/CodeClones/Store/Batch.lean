import CodeClones.Store.VectorStore

/-!
# Batches of queries

A batch is answered query by query, or in parts whose queries run at the same time. Before every part
the memory in use decides how many queries it has, and then, read again, how many of them run at the
same time. The queries of a part complete in any order, and the first failure ends the batch. Answers
are listed by the position of their vector. Where a part would end is computed in a word, and every
query that runs at the same time takes a permit; without room for them the program stops.
-/

namespace CodeClones

/-- The answers of a batch, each with the position of its vector. -/
abbrev BatchAnswer := List (Nat × List Match)

/-- The order of queries that complete as they were sent. -/
def inTurn (_part : Nat) (queries : List (Nat × Embedding)) : List (Nat × Embedding) := queries

/-- Queries that complete as they were sent complete once each. -/
theorem inTurn_perm (part : Nat) (queries : List (Nat × Embedding)) :
    (inTurn part queries).Perm queries :=
  List.Perm.refl queries

/-- The surroundings of a batch. -/
structure BatchConditions where
  /-- The share of memory in use at each reading, in percent. -/
  usage : Nat → Float
  /-- The surroundings of the query at each position. -/
  query : Nat → Conditions
  /-- The order in which the queries of each part complete. -/
  order : Nat → List (Nat × Embedding) → List (Nat × Embedding) := inTurn
  /-- Every query completes once. -/
  order_perm : ∀ part queries, (order part queries).Perm queries := by exact inTurn_perm
  /-- How long the backend takes for a query, in milliseconds. -/
  delay : Nat := 0

/-- Why a part fails if its queries run at the same time. -/
def VectorStore.contention (s : VectorStore) (usage : Float) (delay queries : Nat) :
    Option StoreError :=
  let atOnce := min (concurrencyCeiling usage s.maxConcurrentQueries) queries
  let rounds := (atOnce - 1) / s.pool.maxConnections
  let limit := s.searchTimeout * 1000
  let waitsTooLong := rounds != 0 && s.pool.timeout ≤ rounds * delay
  let takesTooLong := limit ≤ (rounds + 1) * delay
  if delay = 0 then none
  else if waitsTooLong && (s.pool.timeout ≤ limit || !takesTooLong) then
    some (.poolTimeout s.pool.timeout)
  else if takesTooLong then some (.searchTimeout s.searchTimeout)
  else none

namespace VectorStore

/-- The queries of a batch in the given order, up to the first failure. -/
def queryAll (s : VectorStore) (conditions : Nat → Conditions) (threshold : Float32) :
    List (Nat × Embedding) → VectorStore × Except StoreError BatchAnswer
  | [] => (s, .ok [])
  | (position, vector) :: rest =>
    match s.query (conditions position) vector s.maxResults threshold [] with
    | (s, .error cause) => (s, .error cause)
    | (s, .ok answer) =>
      let (s, more) := s.queryAll conditions threshold rest
      (s, more.map ((position, answer) :: ·))

/-- Whether there are permits for all queries that run at the same time. -/
def permits (s : VectorStore) (usage : Float) : Bool :=
  concurrencyCeiling usage s.maxConcurrentQueries ≤ maxPermits

/-- A part of a batch. -/
def queryPart (s : VectorStore) (b : BatchConditions) (threshold : Float32) (part : Nat)
    (queries : List (Nat × Embedding)) : VectorStore × Except StoreError BatchAnswer :=
  let usage := b.usage (2 * part + 1)
  if s.permits usage then
    match s.contention usage b.delay queries.length with
    | none => s.queryAll b.query threshold (b.order part queries)
    | some cause => ((s.queryAll b.query threshold (queries.take 1)).1, .error cause)
  else (s, .error (.aborted .permits))

/-- The number of queries in the part that starts at a position. -/
def partSize (s : VectorStore) (usage : Float) (first : Nat) : Except Abort Nat := do
  let size ← (MemoryPressure.ofUsage usage).batchSize s.queryBatchSize
  let _ ← word .sum (first + size)
  pure size

/-- A part has the size that the pressure gives, if it ends within a word. -/
theorem partSize_eq_ok_iff {s : VectorStore} {usage : Float} {first size : Nat} :
    s.partSize usage first = .ok size ↔
      (MemoryPressure.ofUsage usage).batchSize s.queryBatchSize = .ok size ∧
        first + size < UInt64.size := by
  rw [partSize]
  cases (MemoryPressure.ofUsage usage).batchSize s.queryBatchSize with
  | error cause => exact iff_of_false nofun fun h => nomatch h.1
  | ok n =>
    by_cases hword : first + n < UInt64.size
    · simp only [bind, Except.bind, word_of_lt hword, pure, Except.pure, Except.ok.injEq]
      exact ⟨fun h => ⟨h, h ▸ hword⟩, And.left⟩
    · simp only [bind, Except.bind, word_of_le (Nat.le_of_not_lt hword), Except.ok.injEq]
      exact iff_of_false nofun fun h => hword (h.1 ▸ h.2)

/-- Goes on with the answer of a call, if it gave one. -/
def andThen {α β : Type} (outcome : VectorStore × Except StoreError α)
    (next : VectorStore → α → VectorStore × Except StoreError β) :
    VectorStore × Except StoreError β :=
  match outcome with
  | (s, .error cause) => (s, .error cause)
  | (s, .ok answer) => next s answer

/-- The parts of a batch one after the other, the next one with the given number. -/
def queryParts (s : VectorStore) (b : BatchConditions) (threshold : Float32) (part : Nat)
    (queries : List (Nat × Embedding)) : VectorStore × Except StoreError BatchAnswer :=
  match queries with
  | [] => (s, .ok [])
  | q :: rest =>
    andThen (s, (s.partSize (b.usage (2 * part)) q.1).mapError .aborted) fun s size =>
      andThen (s.queryPart b threshold part ((q :: rest).take size)) fun s answers =>
        -- a part has one query or more
        let (s, more) := s.queryParts b threshold (part + 1) (rest.drop (size - 1))
        (s, more.map (answers ++ ·))
termination_by queries.length
decreasing_by
  simp only [List.length_drop, List.length_cons]
  omega

/-- Answers in the order of their positions. -/
def inOrder (answers : BatchAnswer) : BatchAnswer := answers.mergeSort fun a b => a.1 ≤ b.1

/-- Vectors with their positions. -/
def positioned (vectors : List Embedding) : List (Nat × Embedding) :=
  vectors.zipIdx.map fun (v, i) => (i, v)

/-- A batch whose queries run at the same time. -/
def batchTogether (s : VectorStore) (b : BatchConditions) (vectors : List Embedding)
    (threshold : Float32) : VectorStore × Except StoreError BatchAnswer :=
  let (s, answers) := s.queryParts b threshold 0 (positioned vectors)
  (s, answers.map inOrder)

/-- A batch; `inRuntime` tells that the caller itself runs concurrently, where a batch of queries at
the same time cannot be waited for. -/
def batch (s : VectorStore) (b : BatchConditions) (inRuntime : Bool) (vectors : List Embedding)
    (threshold : Float32) : VectorStore × Except StoreError BatchAnswer :=
  if !s.enableAsync then s.queryAll b.query threshold (positioned vectors)
  else if inRuntime then
    (s, .error (.runtime
      "batch_query called inside a tokio runtime, use batch_query_async"))
  else s.batchTogether b vectors threshold

end VectorStore

end CodeClones
