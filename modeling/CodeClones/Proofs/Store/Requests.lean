import CodeClones.Proofs.Store.Batch

/-!
# Stores and their backends

To callers that wait for each other a store is its backend: a call that succeeds gives what the
backend alone would have given at that moment, whether the answer was remembered or not, and a call
that fails leaves the backend as it is. So nobody can tell whether the store remembers answers,
except that a remembered answer is also given when the backend refuses to be asked.
-/

namespace CodeClones

/-- A call on a store. -/
inductive Request where
  | upsert (ids : List String) (vectors : List Embedding) (metadata : List Json.Object)
  | delete (ids : List String)
  | clear
  | query (q : Query)
  | batch (vectors : List Embedding) (threshold : Float32)

/-- What a call gives. -/
inductive Reply where
  | done
  | removed (count : Nat)
  | found (answer : List Match)
  | foundAll (answers : BatchAnswer)

/-- The surroundings of a call of any kind. -/
structure RequestConditions where
  call : Conditions := {}
  batch : BatchConditions
  /-- Whether the caller itself runs concurrently. -/
  inRuntime : Bool := false

namespace Request

/-- Makes a call. -/
def run (w : RequestConditions) (s : VectorStore) :
    Request → VectorStore × Except StoreError Reply
  | upsert ids vectors metadata =>
    let (s, answer) := s.upsert w.call ids vectors metadata
    (s, answer.map fun _ => .done)
  | delete ids =>
    let (s, answer) := s.delete w.call ids
    (s, answer.map .removed)
  | clear =>
    let (s, answer) := s.clear w.call
    (s, answer.map fun _ => .done)
  | query q =>
    let (s, answer) := s.query w.call q.vector q.k q.threshold q.filter
    (s, answer.map .found)
  | batch vectors threshold =>
    let (s, answer) := s.batch w.batch w.inRuntime vectors threshold
    (s, answer.map .foundAll)

/-- What a call does on a backend alone; a batch asks for `k` matches of each vector. -/
def onBackend (k : Nat) (b : Backend) : Request → Backend × Except StoreError Reply
  | upsert ids vectors metadata =>
    if ids.length ≠ vectors.length ∨ ids.length ≠ metadata.length then
      (b, .error (.lengthMismatch ids.length vectors.length metadata.length))
    else if ids.isEmpty then (b, .ok .done)
    else (b.upsert (VectorStore.zipRecords ids vectors metadata), .ok .done)
  | delete ids =>
    if ids.isEmpty then (b, .ok (.removed 0))
    else ((b.delete ids).1, .ok (.removed (b.delete ids).2))
  | clear => (b.clear, .ok .done)
  | query q => (b, (b.answer q).map .found)
  | batch vectors threshold =>
    (b, (b.answerAll k threshold (VectorStore.positioned vectors)).map .foundAll)

/-- The queries of a call. -/
def queries (k : Nat) : Request → List Query
  | query q => [q]
  | batch vectors threshold => vectors.map fun v => ⟨v, k, threshold, []⟩
  | _ => []

/-- The number of vectors in a batch; other calls have none. -/
def batchLength : Request → Nat
  | batch vectors _ => vectors.length
  | _ => 0

end Request

/-- Nothing is refused on a store, to a batch of `n` vectors neither, and nothing leaves its word. -/
structure RequestConditions.Calm (w : RequestConditions) (s : VectorStore) (n : Nat) : Prop where
  call : w.call.Calm
  batch : w.batch.Calm s n
  inRuntime : w.inRuntime = false

theorem RequestConditions.Calm.of_limits {w : RequestConditions} {s s' : VectorStore} {n : Nat}
    (h : w.Calm s n) (hlimits : s'.limits = s.limits) : w.Calm s' n :=
  { h with batch := h.batch.of_limits hlimits }

/-- A store after some calls, each of which was made when the one before had returned. -/
def VectorStore.after (s : VectorStore) (history : List (RequestConditions × Request)) :
    VectorStore :=
  history.foldl (fun s (w, r) => (r.run w s).1) s

/-- A call does to a store what is expected of its backend, and what is remembered stays true. -/
structure Served {α : Type} (asked : List Query) (calm : Prop)
    (expected : Backend × Except StoreError α) (s s' : VectorStore)
    (given : Except StoreError α) : Prop where
  truthful : s'.Truthful asked
  room : s.pool.SameRoom s'.pool
  limits : s'.limits = s.limits
  cached : s'.cache.isSome = s.cache.isSome
  backend : s'.backend = if given.isOk then expected.1 else s.backend
  reply : Faithful (calm ∧ s.pool.HasRoom) expected.2 given

namespace Served

variable {α β : Type} {asked : List Query} {calm calm' : Prop} {s s' : VectorStore}

theorem maxResults {expected : Backend × Except StoreError α} {given : Except StoreError α}
    (h : Served asked calm expected s s' given) : s'.maxResults = s.maxResults :=
  VectorStore.maxResults_of_limits h.limits

theorem map {expected : Backend × Except StoreError α} {given : Except StoreError α}
    (h : Served asked calm expected s s' given) (f : α → β) :
    Served asked calm (expected.1, expected.2.map f) s s' (given.map f) where
  truthful := h.truthful
  room := h.room
  limits := h.limits
  cached := h.cached
  backend := by
    rw [h.backend]
    cases given <;> rfl
  reply := h.reply.map f

theorem mono {expected : Backend × Except StoreError α} {given : Except StoreError α}
    (h : Served asked calm expected s s' given) (hcalm : calm' → calm) :
    Served asked calm' expected s s' given :=
  { h with reply := h.reply.mono fun hc => ⟨hcalm hc.1, hc.2⟩ }

/-- A call that does nothing, and gives what is expected. -/
theorem idle {given : Except StoreError α} (hs : s.Truthful asked) :
    Served asked calm (s.backend, given) s s given where
  truthful := hs
  room := .refl _
  limits := rfl
  cached := rfl
  backend := by split <;> rfl
  reply := ⟨fun _ h => h, fun _ => rfl⟩

/-- Calls that only ask do what their answers are expected to be. -/
theorem of_queried {expected given : Except StoreError α}
    (h : VectorStore.Queried asked s s' ∧ Faithful (calm ∧ s.pool.HasRoom) expected given) :
    Served asked calm (s.backend, expected) s s' given where
  truthful := h.1.truthful
  room := h.1.room
  limits := h.1.limits
  cached := h.1.cached
  backend := by
    rw [h.1.backend]
    split <;> rfl
  reply := h.2

/-- A change of the backend forgets what was remembered, and a refused one leaves it true. -/
theorem of_change {c : Conditions} {operation : Operation} {f : Backend → Backend × α}
    {given : Except StoreError α} (hs : s.Truthful asked)
    (h : s.change c operation f = (s', given)) :
    Served asked c.Calm ((f s.backend).1, .ok (f s.backend).2) s s' given := by
  have hroom := s.change_sameRoom c operation f
  have hcalm : c.Calm ∧ s.pool.HasRoom → given = .ok (f s.backend).2 := by
    intro hc
    have hmade : (s.change c operation f).2 = .ok (f s.backend).2 :=
      VectorStore.change_calm hc.1 hc.2
    rwa [h] at hmade
  rw [h] at hroom
  rcases VectorStore.change_cases h with ⟨e, rfl, halike⟩ | ⟨rfl, hbackend, hcache, hlimits⟩
  · refine ⟨?_, hroom, halike.limits, congrArg Option.isSome halike.cache, halike.backend,
      .of_error fun hc => (hcalm hc).symm⟩
    rw [VectorStore.Truthful, halike.backend]
    exact VectorStore.EveryAnswer.of_cache hs halike.cache
  · exact ⟨.of_cleared hcache, hroom, hlimits, by rw [hcache, Option.isSome_map], hbackend,
      fun _ ha => ha, hcalm⟩

end Served

/-- A store that is fit for the next call: what it remembers is true, and is found by keys that tell
queries apart, and a place is free. -/
structure VectorStore.Ready (asked : List Query) (s : VectorStore) : Prop where
  truthful : s.Truthful asked
  keys : s.cache.isSome → KeysApart asked
  room : s.pool.HasRoom

theorem Served.ready {α : Type} {asked : List Query} {calm : Prop} {s s' : VectorStore}
    {expected : Backend × Except StoreError α} {given : Except StoreError α}
    (h : Served asked calm expected s s' given) (hs : s.Ready asked) : s'.Ready asked where
  truthful := h.truthful
  keys hsome := hs.keys (h.cached ▸ hsome)
  room := h.room.hasRoom hs.room

section Sequential

variable {asked : List Query} {s s' : VectorStore} {w : RequestConditions} {r : Request}
  {reply : Except StoreError Reply}

/-- An upsert with nothing in it, or with lists of different lengths, does not reach the backend. -/
private theorem Served.of_upsert {ids : List String} {vectors : List Embedding}
    {metadata : List Json.Object} (hs : s.Truthful asked)
    (h : (Request.upsert ids vectors metadata).run w s = (s', reply)) :
    Served asked w.call.Calm ((Request.upsert ids vectors metadata).onBackend s.maxResults s.backend)
      s s' reply := by
  rcases hcall : s.upsert w.call ids vectors metadata with ⟨s₁, answer⟩
  rw [Request.run, hcall] at h
  cases h
  rw [Request.onBackend]
  unfold VectorStore.upsert at hcall
  split at hcall
  · rename_i hlengths
    cases hcall
    rw [if_pos hlengths]
    exact .idle hs
  · rename_i hlengths
    rw [if_neg hlengths]
    split at hcall
    · rename_i hempty
      cases hcall
      rw [if_pos hempty]
      exact .idle hs
    · rename_i hempty
      rw [if_neg hempty]
      exact (Served.of_change hs hcall).map fun _ => Reply.done

private theorem Served.of_delete {ids : List String} (hs : s.Truthful asked)
    (h : (Request.delete ids).run w s = (s', reply)) :
    Served asked w.call.Calm ((Request.delete ids).onBackend s.maxResults s.backend) s s' reply := by
  rcases hcall : s.delete w.call ids with ⟨s₁, answer⟩
  rw [Request.run, hcall] at h
  cases h
  rw [Request.onBackend]
  unfold VectorStore.delete at hcall
  split at hcall
  · rename_i hempty
    cases hcall
    rw [if_pos hempty]
    exact .idle hs
  · rename_i hempty
    rw [if_neg hempty]
    exact (Served.of_change hs hcall).map _

private theorem Served.of_clear (hs : s.Truthful asked)
    (h : Request.clear.run w s = (s', reply)) :
    Served asked w.call.Calm (Request.clear.onBackend s.maxResults s.backend) s s' reply := by
  rcases hcall : s.clear w.call with ⟨s₁, answer⟩
  rw [Request.run, hcall] at h
  cases h
  exact (Served.of_change hs hcall).map fun _ => Reply.done

/-- A query needs nothing but a call that nothing is refused to. -/
theorem Served.of_query {q : Query} (hs : s.Ready asked) (hq : q ∈ asked)
    (h : (Request.query q).run w s = (s', reply)) :
    Served asked w.call.Calm ((Request.query q).onBackend s.maxResults s.backend) s s' reply := by
  rcases hcall : s.query w.call q.vector q.k q.threshold q.filter with ⟨s₁, answer⟩
  rw [Request.run, hcall] at h
  cases h
  have hqueried := VectorStore.query_faithful hs.truthful hs.keys hq hcall
  exact (Served.of_queried hqueried).map _

private theorem Served.of_batch {vectors : List Embedding} {threshold : Float32}
    (hs : s.Ready asked)
    (hq : ∀ q ∈ (Request.batch vectors threshold).queries s.maxResults, q ∈ asked)
    (h : (Request.batch vectors threshold).run w s = (s', reply)) :
    Served asked (w.Calm s vectors.length)
      ((Request.batch vectors threshold).onBackend s.maxResults s.backend) s s' reply := by
  rcases hcall : s.batch w.batch w.inRuntime vectors threshold with ⟨s₁, answer⟩
  rw [Request.run, hcall] at h
  cases h
  obtain ⟨hqueried, hfaithful⟩ := VectorStore.batch_faithful hs.truthful hs.keys
    (fun v hv => hq _ (List.mem_map_of_mem hv)) hcall
  have hcalm : w.Calm s vectors.length ∧ s.pool.HasRoom →
      w.batch.Calm s vectors.length ∧ w.inRuntime = false ∧ s.pool.HasRoom :=
    fun hc => ⟨hc.1.batch, hc.1.inRuntime, hc.2⟩
  exact (Served.of_queried ⟨hqueried, hfaithful.mono hcalm⟩).map _

/-- Every call does to a store what it does to its backend. -/
theorem Request.served (hs : s.Ready asked) (hq : ∀ q ∈ r.queries s.maxResults, q ∈ asked)
    (h : r.run w s = (s', reply)) :
    Served asked (w.Calm s r.batchLength) (r.onBackend s.maxResults s.backend) s s' reply := by
  cases r with
  | upsert ids vectors metadata => exact (Served.of_upsert hs.truthful h).mono fun hc => hc.call
  | delete ids => exact (Served.of_delete hs.truthful h).mono fun hc => hc.call
  | clear => exact (Served.of_clear hs.truthful h).mono fun hc => hc.call
  | query q =>
    exact (Served.of_query hs (hq q (List.mem_singleton_self q)) h).mono fun hc => hc.call
  | batch vectors threshold => exact .of_batch hs hq h

/-- Calls one after the other leave a store fit for the next one. -/
theorem VectorStore.after_ready {history : List (RequestConditions × Request)}
    (hs : s.Ready asked) (hq : ∀ p ∈ history, ∀ q ∈ p.2.queries s.maxResults, q ∈ asked) :
    (s.after history).Ready asked ∧ (s.after history).limits = s.limits := by
  induction history generalizing s with
  | nil => exact ⟨hs, rfl⟩
  | cons p rest ih =>
    obtain ⟨w, r⟩ := p
    rcases hrun : r.run w s with ⟨s₁, reply⟩
    have hserved := Request.served hs (hq _ (List.mem_cons_self ..)) hrun
    have hafter : s.after ((w, r) :: rest) = s₁.after rest := by
      change (r.run w s).1.after rest = s₁.after rest
      rw [hrun]
    rw [hafter, ← hserved.limits]
    exact ih (hserved.ready hs) fun p hp =>
      hserved.maxResults ▸ hq p (List.mem_cons_of_mem _ hp)

/-- Calls leave a store fit for a call whose queries are among those that are asked with theirs. -/
theorem VectorStore.after_ready_for (history : List (RequestConditions × Request)) (r : Request)
    (hs : s.Ready ((history.map Prod.snd ++ [r]).flatMap (Request.queries s.maxResults))) :
    (s.after history).Ready
        ((history.map Prod.snd ++ [r]).flatMap (Request.queries s.maxResults)) ∧
      ∀ q ∈ r.queries (s.after history).maxResults,
        q ∈ (history.map Prod.snd ++ [r]).flatMap (Request.queries s.maxResults) := by
  obtain ⟨hready, hlimits⟩ := after_ready hs fun p (hp : p ∈ history) q hq =>
    List.mem_flatMap.mpr ⟨p.2, List.mem_append_left _ (List.mem_map_of_mem hp), hq⟩
  refine ⟨hready, fun q hq => ?_⟩
  rw [maxResults_of_limits hlimits] at hq
  exact List.mem_flatMap.mpr ⟨r, List.mem_append_right _ (List.mem_singleton_self r), hq⟩

end Sequential

/-- To open a store takes a connection and gives it back. -/
theorem VectorStore.start_alike {backend : Backend} {config : StoreConfig} {c : Conditions}
    {s : VectorStore} (h : start backend config c = .ok s) : Alike (make backend config) s := by
  unfold start at h
  dsimp only at h
  split at h
  · cases h
  · cases h
    exact ⟨rfl, rfl, rfl⟩

/-- Whether a store remembers answers is configured. -/
theorem VectorStore.make_isSome (backend : Backend) (config : StoreConfig) :
    (make backend config).cache.isSome = config.enableQueryCache := by
  rw [make]
  cases config.enableQueryCache <;> rfl

/-- To open a store gives the place that it takes back. -/
theorem VectorStore.start_sameRoom {backend : Backend} {config : StoreConfig} {c : Conditions}
    {s : VectorStore} (h : start backend config c = .ok s) :
    (make backend config).pool.SameRoom s.pool := by
  unfold start at h
  dsimp only at h
  split at h
  · cases h
  · rename_i pool connection hacquire
    cases h
    obtain ⟨hmax, ⟨e, he, _⟩ | ⟨_, _, hin⟩⟩ := Pool.acquire_cases hacquire
    · cases he
    exact ⟨hmax, by rw [Pool.release, hin, Nat.add_sub_cancel]⟩

/-- A store that has just been opened remembers nothing, and its places are free. -/
theorem VectorStore.start_fresh {backend : Backend} {config : StoreConfig} {c : Conditions}
    {s : VectorStore} (P : String → List Match → Prop) (h : start backend config c = .ok s) :
    s.EveryAnswer P ∧ s.pool.HasRoom := by
  refine ⟨?_, (start_sameRoom h).hasRoom (Pool.hasRoom_make ..)⟩
  intro cache hcache
  rw [(start_alike h).cache, make] at hcache
  dsimp only at hcache
  split at hcache
  · cases hcache
    exact Cache.every_make _ _
  · cases hcache

/-- A store that has just been opened is fit for calls. -/
theorem VectorStore.start_ready {backend : Backend} {config : StoreConfig} {c : Conditions}
    {s : VectorStore} {asked : List Query} (h : start backend config c = .ok s)
    (hkeys : config.enableQueryCache = true → KeysApart asked) : s.Ready asked := by
  obtain ⟨hfresh, hroom⟩ := start_fresh _ h
  refine ⟨hfresh, fun hsome => hkeys ?_, hroom⟩
  rwa [(start_alike h).cache, make_isSome] at hsome

/-- A store in memory that has just been opened. -/
def VectorStore.inMemory : VectorStore :=
  { make (.memory "memory" {}) {} with pool := ⟨5, 30000, true, [0], 0, 1⟩ }

theorem VectorStore.start_inMemory : start (.memory "memory" {}) {} {} = .ok inMemory := rfl

/-- A query for what is near the first axis. -/
def Query.east : Query := ⟨[1, 0], 5, 0, []⟩

end CodeClones
