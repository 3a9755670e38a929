import CodeClones.Config.Basic
import CodeClones.Store.Backend
import CodeClones.Store.Cache
import CodeClones.Store.CacheKey
import CodeClones.Store.Pool
import CodeClones.Store.Pressure

/-!
# Vector stores

A store answers queries from a cache or from its backend, over connections of a pool. A query has
three steps: it looks into the cache, asks the backend, and remembers the answer. A change has two: it
changes the backend and then forgets all remembered answers. What the surroundings do during a call,
such as the time and the refusal of an operation, is an input of the call.
-/

namespace CodeClones

/-- What a backend is asked to do. -/
inductive Operation where
  | connect
  | upsert
  | query
  | delete
  | count
  | clear
  deriving DecidableEq, Repr

/-- The name of an operation. -/
def Operation.name : Operation → String
  | connect => "connect"
  | upsert => "upsert"
  | query => "query"
  | delete => "delete"
  | count => "count"
  | clear => "clear"

/-- The number of queries in an operation. -/
def Operation.queries : Operation → Nat
  | query => 1
  | _ => 0

/-- The surroundings of one call. -/
structure Conditions where
  /-- The time when the cache is looked into. -/
  now : Nat := 0
  /-- The time when an answer is remembered. -/
  later : Nat := 0
  /-- Why the pool has no place in time. -/
  busy : Option StoreError := none
  /-- Why the backend refuses an operation. -/
  refusal : Operation → Option StoreError := fun _ => none

/-- A collection of vectors with its limits. -/
structure VectorStore where
  backend : Backend
  collection : String
  pool : Pool
  cache : Option (Cache (List Match))
  maxResults : Nat
  enableAsync : Bool
  maxConcurrentQueries : Nat
  /-- How long a query of a batch may take, in seconds. -/
  searchTimeout : Nat
  queryBatchSize : Nat
  index : IndexParams
  /-- The number of queries that the backend has had. -/
  queries : Nat := 0

/-- What a report says about a store. -/
structure StoreStats where
  backend : String
  collection : String
  count : Nat
  index : IndexParams
  pool : PoolStats
  cache : Option CacheStats
  memoryUsage : Float
  pressure : MemoryPressure

namespace VectorStore

/-- The number of queries that are run together without memory pressure. -/
def defaultQueryBatchSize : Nat := 100

/-- A store around a backend, with no connections yet. -/
def make (backend : Backend) (config : StoreConfig) : VectorStore where
  backend
  collection := config.collection
  pool := Pool.make (if config.enablePooling then config.maxConnections else 1)
    (config.connectionTimeoutSecs * 1000) config.enablePooling
  cache := if config.enableQueryCache then
      some (Cache.make config.maxCacheEntries (config.cacheTtlSecs * ticksPerSecond))
    else none
  maxResults := max config.maxResults 1
  enableAsync := config.enableAsync
  maxConcurrentQueries := max config.maxConcurrentQueries 1
  searchTimeout := config.searchTimeoutSecs
  queryBatchSize := defaultQueryBatchSize
  index := config.index

/-- Uses the backend over a connection of the pool, which goes back whatever the outcome is. -/
def withConnection (s : VectorStore) (c : Conditions) (operation : Operation)
    (use : VectorStore → VectorStore × Except StoreError α) : VectorStore × Except StoreError α :=
  match c.busy with
  | some cause => (s, .error cause)
  | none =>
    match s.pool.acquire (c.refusal .connect) with
    | (pool, .error cause) => ({ s with pool }, .error cause)
    | (pool, .ok connection) =>
      let s : VectorStore := { s with pool, queries := s.queries + operation.queries }
      let (s, answer) : VectorStore × Except StoreError α := match c.refusal operation with
        | some cause => (s, .error cause)
        | none => use s
      ({ s with pool := s.pool.release connection }, answer)

/-- Opens a store: one connection must be possible. -/
def start (backend : Backend) (config : StoreConfig) (c : Conditions) :
    Except StoreError VectorStore :=
  let s := make backend config
  match s.pool.acquire (c.refusal .connect) with
  | (_, .error cause) => .error (.unavailable backend.name cause.message)
  | (pool, .ok connection) => .ok { s with pool := pool.release connection }

/-- Forgets all remembered answers. -/
def forget (s : VectorStore) : VectorStore := { s with cache := s.cache.map Cache.clear }

/-- Changes the backend, and on success forgets the remembered answers. -/
def change (s : VectorStore) (c : Conditions) (operation : Operation)
    (f : Backend → Backend × α) : VectorStore × Except StoreError α :=
  let (s, answer) := s.withConnection c operation fun s =>
    let (backend, answer) := f s.backend
    ({ s with backend }, .ok answer)
  if answer.isOk then (s.forget, answer) else (s, answer)

/-- The records that three lists of equal lengths describe. -/
def zipRecords (ids : List String) (vectors : List Embedding) (metadata : List Json.Object) :
    List Record :=
  ((ids.zip vectors).zip metadata).map fun ((id, vector), m) => ⟨id, vector, m⟩

/-- Adds one vector for each identifier. -/
def upsert (s : VectorStore) (c : Conditions) (ids : List String) (vectors : List Embedding)
    (metadata : List Json.Object) : VectorStore × Except StoreError Unit :=
  if ids.length ≠ vectors.length ∨ ids.length ≠ metadata.length then
    (s, .error (.lengthMismatch ids.length vectors.length metadata.length))
  else if ids.isEmpty then (s, .ok ())
  else s.change c .upsert fun b => (b.upsert (zipRecords ids vectors metadata), ())

/-- Removes vectors, and tells how many there were. -/
def delete (s : VectorStore) (c : Conditions) (ids : List String) :
    VectorStore × Except StoreError Nat :=
  if ids.isEmpty then (s, .ok 0) else s.change c .delete fun b => b.delete ids

/-- Removes all vectors. -/
def clear (s : VectorStore) (c : Conditions) : VectorStore × Except StoreError Unit :=
  s.change c .clear fun b => (b.clear, ())

/-- The number of vectors. -/
def count (s : VectorStore) (c : Conditions) : VectorStore × Except StoreError Nat :=
  s.withConnection c .count fun s => (s, .ok s.backend.count)

/-- Whether the backend answers. -/
def isAvailable (s : VectorStore) (c : Conditions) : VectorStore × Bool :=
  let (s, answer) := s.count c
  (s, answer.isOk)

/-- The first step of a query: looks into the cache. -/
def lookUp (s : VectorStore) (now : Nat) (key : String) : VectorStore × Option (List Match) :=
  match s.cache with
  | none => (s, none)
  | some cache =>
    let (cache, hit) := cache.lookup now key
    ({ s with cache := some cache }, hit)

/-- The second step of a query: asks the backend. -/
def ask (s : VectorStore) (c : Conditions) (vector : Embedding) (k : Nat) (threshold : Float32)
    (filter : Json.Object) : VectorStore × Except StoreError (List Match) :=
  s.withConnection c .query fun s => (s, s.backend.query vector k threshold filter)

/-- The last step of a query: remembers the answer. -/
def remember (s : VectorStore) (now : Nat) (key : String) (answer : List Match) : VectorStore :=
  { s with cache := s.cache.map (·.insert now key answer) }

/-- The best matches of a vector. -/
def query (s : VectorStore) (c : Conditions) (vector : Embedding) (k : Nat) (threshold : Float32)
    (filter : Json.Object) : VectorStore × Except StoreError (List Match) :=
  let key := if s.cache.isSome then queryKey vector k threshold filter else ""
  match s.lookUp c.now key with
  | (s, some hit) => (s, .ok hit)
  | (s, none) =>
    match s.ask c vector k threshold filter with
    | (s, .error cause) => (s, .error cause)
    | (s, .ok answer) => (s.remember c.later key answer, .ok answer)

/-- What a report says about the store. -/
def stats (s : VectorStore) (c : Conditions) (usage : Float) :
    VectorStore × Except StoreError StoreStats :=
  let (s, answer) := s.count c
  (s, answer.map fun count =>
    { backend := s.backend.name
      collection := s.collection
      count
      index := s.index
      pool := s.pool.stats
      cache := s.cache.map Cache.stats
      memoryUsage := usage
      pressure := .ofUsage usage })

end VectorStore

end CodeClones
