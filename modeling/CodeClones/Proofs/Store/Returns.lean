import CodeClones.Proofs.Store.Accesses

/-!
# Connections that come back

Whatever becomes of a call on a store, whether it is answered, rejected, or fails at any of its
operations, the connection that it took goes back to the pool. So after any calls one after the other
no place of the pool is taken, and the next call gets a connection unless none can be made.
-/

namespace CodeClones

/-- A call of any kind. -/
inductive StoreCall where
  | access (a : Access)
  | stats (usage : Float)
  | isAvailable

/-- A store after a call, whatever the call gave. -/
def StoreCall.effect (w : RequestConditions) (s : VectorStore) : StoreCall → VectorStore
  | access a => (a.run w s).1
  | stats usage => (s.stats w.call usage).1
  | isAvailable => (s.isAvailable w.call).1

/-- A store after some calls, each of which was made when the one before had returned. -/
def VectorStore.called (s : VectorStore) (history : List (RequestConditions × StoreCall)) :
    VectorStore :=
  history.foldl (fun s (w, call) => call.effect w s) s

/-- A batch gives the places that its queries take back, also where one of them fails. -/
theorem VectorStore.batch_sameRoom (s : VectorStore) (b : BatchConditions) (inRuntime : Bool)
    (vectors : List Embedding) (threshold : Float32) :
    s.pool.SameRoom (s.batch b inRuntime vectors threshold).1.pool := by
  have hkept : KeptByQueries fun s s' => s.pool.SameRoom s'.pool := by
    refine ⟨fun s => .refl s.pool, .trans, fun s c vector k threshold filter => ?_⟩
    exact query_sameRoom (q := ⟨vector, k, threshold, filter⟩) rfl
  exact hkept.batch ..

/-- A request gives the places that it takes back. -/
theorem Request.run_sameRoom (w : RequestConditions) (s : VectorStore) (r : Request) :
    s.pool.SameRoom (r.run w s).1.pool := by
  cases r with
  | upsert ids vectors metadata =>
    change s.pool.SameRoom (s.upsert w.call ids vectors metadata).1.pool
    rw [VectorStore.upsert]
    split
    · exact .refl _
    · split
      · exact .refl _
      · exact s.change_sameRoom ..
  | delete ids =>
    change s.pool.SameRoom (s.delete w.call ids).1.pool
    rw [VectorStore.delete]
    split
    · exact .refl _
    · exact s.change_sameRoom ..
  | clear => exact s.change_sameRoom w.call .clear fun b => (b.clear, ())
  | query q => exact VectorStore.query_sameRoom rfl
  | batch vectors threshold => exact s.batch_sameRoom ..

/-- A call gives the places that it takes back. -/
theorem StoreCall.effect_sameRoom (w : RequestConditions) (s : VectorStore) (call : StoreCall) :
    s.pool.SameRoom (call.effect w s).pool := by
  cases call with
  | access a =>
    cases a with
    | request r => exact r.run_sameRoom w s
    | count => exact s.count_sameRoom w.call
  | stats usage => exact s.count_sameRoom w.call
  | isAvailable => exact s.count_sameRoom w.call

/-- Calls one after the other give all places back. -/
theorem VectorStore.called_sameRoom (s : VectorStore)
    (history : List (RequestConditions × StoreCall)) :
    s.pool.SameRoom (s.called history).pool := by
  induction history generalizing s with
  | nil => exact .refl _
  | cons p rest ih => exact (p.2.effect_sameRoom p.1 s).trans (ih _)

/-- Nobody uses a store: no place is taken, and a connection is given out if one can be made. -/
structure VectorStore.Unused (s : VectorStore) : Prop where
  inUse : s.pool.inUse = 0
  acquire : ∀ refusal cause, (s.pool.acquire refusal).2 = .error cause → refusal = some cause

/-- After any calls one after the other, with failures anywhere, nobody uses the store. -/
theorem VectorStore.unused_of_calls {backend : Backend} {config : StoreConfig} {c : Conditions}
    {s : VectorStore} (hstart : start backend config c = .ok s) (queryBatchSize : Nat)
    (history : List (RequestConditions × StoreCall)) :
    (({ s with queryBatchSize } : VectorStore).called history).Unused := by
  have hroom : (make backend config).pool.SameRoom
      (({ s with queryBatchSize } : VectorStore).called history).pool :=
    (start_sameRoom hstart).trans (called_sameRoom { s with queryBatchSize } history)
  exact ⟨hroom.inUse, fun refusal cause =>
    Pool.refusal_of_hasRoom (hroom.hasRoom (Pool.hasRoom_make ..))⟩

/-- Calls of a backend that refuses everything, except the first query of a batch. -/
private def failingCalls : List (RequestConditions × StoreCall) :=
  let down : Conditions := { refusal := fun _ => some (.runtime "down") }
  let w : RequestConditions :=
    { call := down
      batch := { usage := fun _ => 99, query := fun i => if i = 0 then {} else down } }
  [.access (.request (.upsert ["a"] [[1, 0]] [[]])), .access (.request (.query .east)),
    .access (.request (.batch [[1, 0], [0, 1]] 0)), .stats 99, .isAvailable].map (w, ·)

/-- Nobody uses a store in memory after calls that fail, some of them in the middle of a query. -/
theorem VectorStore.unused_failingCalls :
    (({ inMemory with queryBatchSize := 1 } : VectorStore).called failingCalls).queries = 3 ∧
      (({ inMemory with queryBatchSize := 1 } : VectorStore).called failingCalls).Unused :=
  ⟨by decide +kernel, unused_of_calls start_inMemory 1 failingCalls⟩

end CodeClones
