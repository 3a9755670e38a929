import CodeClones.Proofs.Store.Rows
import CodeClones.Store.Batch

/-!
# Calls on a store

A call on a store either fails and leaves the backend as it is, or does to the backend what its
operation says. Queries never change the backend, and no call changes the limits of a store.
-/

namespace CodeClones

/-- The limits of a store. -/
structure Limits where
  maxResults : Nat
  enableAsync : Bool
  maxConcurrentQueries : Nat
  searchTimeout : Nat
  queryBatchSize : Nat

namespace VectorStore

def limits (s : VectorStore) : Limits where
  maxResults := s.maxResults
  enableAsync := s.enableAsync
  maxConcurrentQueries := s.maxConcurrentQueries
  searchTimeout := s.searchTimeout
  queryBatchSize := s.queryBatchSize

theorem maxResults_of_limits {s s' : VectorStore} (h : s'.limits = s.limits) :
    s'.maxResults = s.maxResults :=
  congrArg Limits.maxResults h

/-- Two states of a store that answer alike: they differ at most in connections and counters. -/
structure Alike (s s' : VectorStore) : Prop where
  backend : s'.backend = s.backend
  cache : s'.cache = s.cache
  limits : s'.limits = s.limits

theorem Alike.refl (s : VectorStore) : Alike s s := ⟨rfl, rfl, rfl⟩

theorem Alike.trans {s s₁ s₂ : VectorStore} (h₁ : Alike s s₁) (h₂ : Alike s₁ s₂) : Alike s s₂ :=
  ⟨h₂.backend.trans h₁.backend, h₂.cache.trans h₁.cache, h₂.limits.trans h₁.limits⟩

/-- A use of the backend fails before it starts, or is done as its operation says. -/
theorem withConnection_cases {α : Type} {s s' : VectorStore} {c : Conditions}
    {operation : Operation} {use : VectorStore → VectorStore × Except StoreError α}
    {r : Except StoreError α} (h : s.withConnection c operation use = (s', r)) :
    (∃ e, r = .error e ∧ Alike s s') ∨
      ∃ s₁ s₂, Alike s s₁ ∧ use s₁ = (s₂, r) ∧ Alike s₂ s' := by
  unfold withConnection at h
  split at h
  · cases h
    exact Or.inl ⟨_, rfl, .refl s⟩
  · split at h
    · cases h
      exact Or.inl ⟨_, rfl, rfl, rfl, rfl⟩
    · rename_i pool connection _
      dsimp only at h
      split at h
      · cases h
        exact Or.inl ⟨_, rfl, rfl, rfl, rfl⟩
      · let s₁ : VectorStore := { s with pool, queries := s.queries + operation.queries }
        change (({ (use s₁).1 with pool := _ } : VectorStore), (use s₁).2) = (s', r) at h
        cases h
        exact Or.inr ⟨s₁, (use s₁).1, ⟨rfl, rfl, rfl⟩, rfl, rfl, rfl, rfl⟩

/-- A change is refused, or it is made and all remembered answers are forgotten. -/
theorem change_cases {α : Type} {s s' : VectorStore} {c : Conditions} {operation : Operation}
    {f : Backend → Backend × α} {r : Except StoreError α}
    (h : s.change c operation f = (s', r)) :
    (∃ e, r = .error e ∧ Alike s s') ∨
      (r = .ok (f s.backend).2 ∧ s'.backend = (f s.backend).1 ∧
        s'.cache = s.cache.map Cache.clear ∧ s'.limits = s.limits) := by
  unfold change at h
  cases hu : s.withConnection c operation (fun s =>
      ({ s with backend := (f s.backend).1 }, .ok (f s.backend).2)) with
  | mk s₁ answer =>
    rw [hu] at h
    rcases withConnection_cases hu with ⟨e, rfl, halike⟩ | ⟨s₂, s₃, halike, hf, hafter⟩
    · cases h
      exact Or.inl ⟨e, rfl, halike⟩
    · cases hf
      simp only [Except.isOk, Except.toBool, if_true] at h
      cases h
      refine Or.inr ⟨by rw [halike.backend], ?_, ?_, ?_⟩
      · rw [← halike.backend]
        exact hafter.backend
      · rw [← halike.cache]
        exact congrArg (Option.map Cache.clear) hafter.cache
      · rw [← halike.limits]
        exact hafter.limits

/-- Vectors are added to a store as a whole or not at all. -/
theorem upsert_cases {s s' : VectorStore} {c : Conditions} {ids : List String}
    {vectors : List Embedding} {metadata : List Json.Object} {r : Except StoreError Unit}
    (h : s.upsert c ids vectors metadata = (s', r)) :
    (∃ e, r = .error e ∧ Alike s s') ∨
      (r = .ok () ∧ ids.length = vectors.length ∧ ids.length = metadata.length ∧
        ((ids = [] ∧ s' = s) ∨
          (ids ≠ [] ∧ s'.backend = s.backend.upsert (zipRecords ids vectors metadata) ∧
            s'.cache = s.cache.map Cache.clear ∧ s'.limits = s.limits))) := by
  unfold upsert at h
  split at h
  · cases h
    exact Or.inl ⟨_, rfl, .refl s⟩
  · rename_i hlengths
    have hv : ids.length = vectors.length := by omega
    have hm : ids.length = metadata.length := by omega
    split at h
    · rename_i hempty
      cases h
      exact Or.inr ⟨rfl, hv, hm, Or.inl ⟨List.isEmpty_iff.mp hempty, rfl⟩⟩
    · rename_i hne
      rcases change_cases h with ⟨e, rfl, halike⟩ | ⟨rfl, hb, hc, hk⟩
      · exact Or.inl ⟨e, rfl, halike⟩
      · exact Or.inr ⟨rfl, hv, hm, Or.inr ⟨fun he => hne (List.isEmpty_iff.mpr he), hb, hc, hk⟩⟩

/-- The listed rows are removed as a whole or not at all. -/
theorem delete_cases {s s' : VectorStore} {c : Conditions} {ids : List String}
    {r : Except StoreError Nat} (h : s.delete c ids = (s', r)) :
    s'.backend.rowOf = s.backend.rowOf ∧
    ((∃ e, r = .error e ∧ s'.backend = s.backend) ∨
      (r.isOk ∧ ∀ id, s'.backend.row? id = if id ∈ ids then none else s.backend.row? id)) := by
  unfold delete at h
  split at h
  · rename_i hempty
    cases h
    rw [List.isEmpty_iff.mp hempty]
    exact ⟨rfl, Or.inr ⟨rfl, fun id => by simp⟩⟩
  · rcases change_cases h with ⟨e, rfl, halike⟩ | ⟨rfl, hb, _, _⟩
    · exact ⟨by rw [halike.backend], Or.inl ⟨e, rfl, halike.backend⟩⟩
    · refine ⟨by rw [hb, Backend.rowOf_delete], Or.inr ⟨rfl, fun id => ?_⟩⟩
      rw [hb, Backend.row?_delete]

/-- All rows are removed or none is. -/
theorem clear_cases {s s' : VectorStore} {c : Conditions} {r : Except StoreError Unit}
    (h : s.clear c = (s', r)) :
    (∃ e, r = .error e ∧ s'.backend = s.backend) ∨
      (r = .ok () ∧ s'.backend = s.backend.clear) := by
  rcases change_cases h with ⟨e, rfl, halike⟩ | ⟨rfl, hb, _, _⟩
  · exact Or.inl ⟨e, rfl, halike.backend⟩
  · exact Or.inr ⟨rfl, hb⟩

/-- Counting changes nothing that answers depend on. -/
theorem count_alike (s : VectorStore) (c : Conditions) : Alike s (s.count c).1 := by
  rcases withConnection_cases (rfl : s.count c = ((s.count c).1, (s.count c).2)) with
    ⟨e, _, h⟩ | ⟨s₁, s₂, h₁, hf, h₂⟩
  · exact h
  · obtain rfl : s₁ = s₂ := congrArg Prod.fst hf
    exact h₁.trans h₂

theorem stats_backend (s : VectorStore) (c : Conditions) (usage : Float) :
    (s.stats c usage).1.backend = s.backend :=
  (count_alike s c).backend

/-- Asking the backend gives what the backend answers, unless it is refused. -/
theorem ask_cases {s s' : VectorStore} {c : Conditions} {vector : Embedding} {k : Nat}
    {threshold : Float32} {filter : Json.Object} {r : Except StoreError (List Match)}
    (h : s.ask c vector k threshold filter = (s', r)) :
    Alike s s' ∧ ((∃ e, r = .error e) ∨ r = s.backend.query vector k threshold filter) := by
  rcases withConnection_cases h with ⟨e, rfl, halike⟩ | ⟨s₁, s₂, h₁, hf, h₂⟩
  · exact ⟨halike, Or.inl ⟨e, rfl⟩⟩
  · cases hf
    exact ⟨h₁.trans h₂, Or.inr (by rw [h₁.backend])⟩

/-- Looking into the cache changes at most the cache. -/
theorem lookUp_keeps (s : VectorStore) (now : Nat) (key : String) :
    (s.lookUp now key).1.backend = s.backend ∧ (s.lookUp now key).1.limits = s.limits := by
  unfold lookUp
  split <;> exact ⟨rfl, rfl⟩

/-- A query changes neither the backend nor the limits. -/
theorem query_keeps (s : VectorStore) (c : Conditions) (vector : Embedding) (k : Nat)
    (threshold : Float32) (filter : Json.Object) :
    (s.query c vector k threshold filter).1.backend = s.backend ∧
      (s.query c vector k threshold filter).1.limits = s.limits := by
  unfold query
  obtain ⟨hb, hk⟩ := s.lookUp_keeps c.now
    (if s.cache.isSome then queryKey vector k threshold filter else "")
  dsimp only
  split
  · rename_i s₁ hit he
    rw [he] at hb hk
    exact ⟨hb, hk⟩
  · rename_i s₁ he
    rw [he] at hb hk
    split
    · rename_i s₂ cause ha
      obtain ⟨halike, _⟩ := ask_cases ha
      exact ⟨halike.backend.trans hb, halike.limits.trans hk⟩
    · rename_i s₂ answer ha
      obtain ⟨halike, _⟩ := ask_cases ha
      exact ⟨halike.backend.trans hb, halike.limits.trans hk⟩

/-! ## Parts of a batch -/

section Parts

variable {s : VectorStore} {b : BatchConditions} {threshold : Float32} {part : Nat}
  {q : Nat × Embedding} {rest : List (Nat × Embedding)}

/-- Where the size of the next part cannot be computed a batch ends. -/
theorem queryParts_of_abort {cause : Abort}
    (h : s.partSize (b.usage (2 * part)) q.1 = .error cause) :
    s.queryParts b threshold part (q :: rest) = (s, .error (.aborted cause)) := by
  rw [queryParts, h]
  rfl

theorem drop_of_size {size : Nat} (h : s.partSize (b.usage (2 * part)) q.1 = .ok size) :
    (q :: rest).drop size = rest.drop (size - 1) := by
  obtain ⟨n, rfl⟩ := Nat.exists_eq_add_of_le'
    (MemoryPressure.one_le_of_batchSize (partSize_eq_ok_iff.mp h).1)
  rfl

/-- Otherwise the next part has the queries up to its size, and the other ones come behind. -/
theorem queryParts_of_size {size : Nat} (h : s.partSize (b.usage (2 * part)) q.1 = .ok size) :
    s.queryParts b threshold part (q :: rest) =
      andThen (s.queryPart b threshold part ((q :: rest).take size)) fun s answers =>
        let (s, more) := s.queryParts b threshold (part + 1) ((q :: rest).drop size)
        (s, more.map (answers ++ ·)) := by
  rw [queryParts, h, drop_of_size h]
  rfl

/-- A part fails and the batch with it, or its answers come before those of the other parts. -/
theorem queryParts_cases_of_size {size : Nat} {s' : VectorStore} {r : Except StoreError BatchAnswer}
    (hsize : s.partSize (b.usage (2 * part)) q.1 = .ok size)
    (h : s.queryParts b threshold part (q :: rest) = (s', r)) :
    (∃ cause, s.queryPart b threshold part ((q :: rest).take size) = (s', .error cause) ∧
      r = .error cause) ∨
    ∃ after answers more,
      s.queryPart b threshold part ((q :: rest).take size) = (after, .ok answers) ∧
      after.queryParts b threshold (part + 1) ((q :: rest).drop size) = (s', more) ∧
      r = more.map (answers ++ ·) := by
  rw [queryParts_of_size hsize] at h
  rcases hpart : s.queryPart b threshold part ((q :: rest).take size) with ⟨after, cause | answers⟩
  · rw [hpart] at h
    cases h
    exact .inl ⟨cause, rfl, rfl⟩
  · rw [hpart] at h
    cases h
    exact .inr ⟨after, answers, _, rfl, rfl, rfl⟩

/-- A batch by its parts: nothing is left, or the size of the next part cannot be computed, or the
queries behind the next part are left. -/
@[elab_as_elim]
theorem parts_induction (b : BatchConditions)
    {motive : VectorStore → Nat → List (Nat × Embedding) → Prop}
    (nil : ∀ s part, motive s part [])
    (abort : ∀ s part q rest cause, s.partSize (b.usage (2 * part)) q.1 = .error cause →
      motive s part (q :: rest))
    (size : ∀ s part q rest size, s.partSize (b.usage (2 * part)) q.1 = .ok size →
      (∀ s', motive s' (part + 1) ((q :: rest).drop size)) → motive s part (q :: rest))
    (s : VectorStore) (part : Nat) (queries : List (Nat × Embedding)) : motive s part queries := by
  induction s, part, queries using queryParts.induct with
  | case1 s part => exact nil s part
  | case2 s part q rest ih =>
    cases hsize : s.partSize (b.usage (2 * part)) q.1 with
    | error cause => exact abort s part q rest cause hsize
    | ok n =>
      refine size s part q rest n hsize fun s' => ?_
      rw [drop_of_size hsize]
      exact ih n s'

end Parts

/-- A relation between the states of a store before and after some queries. -/
structure KeptByQueries (R : VectorStore → VectorStore → Prop) : Prop where
  refl : ∀ s, R s s
  trans : ∀ {s s₁ s₂}, R s s₁ → R s₁ s₂ → R s s₂
  query : ∀ s c vector k threshold filter, R s (s.query c vector k threshold filter).1

namespace KeptByQueries

variable {R : VectorStore → VectorStore → Prop}

theorem queryAll (h : KeptByQueries R) (s : VectorStore) (conditions : Nat → Conditions)
    (threshold : Float32) (queries : List (Nat × Embedding)) :
    R s (s.queryAll conditions threshold queries).1 := by
  induction queries generalizing s with
  | nil => exact h.refl s
  | cons q rest ih =>
    obtain ⟨position, vector⟩ := q
    have hq := h.query s (conditions position) vector s.maxResults threshold []
    rw [VectorStore.queryAll]
    split
    · rename_i s₁ cause he
      rw [he] at hq
      exact hq
    · rename_i s₁ answer he
      rw [he] at hq
      exact h.trans hq (ih s₁)

theorem queryPart (h : KeptByQueries R) (s : VectorStore) (b : BatchConditions)
    (threshold : Float32) (part : Nat) (queries : List (Nat × Embedding)) :
    R s (s.queryPart b threshold part queries).1 := by
  unfold VectorStore.queryPart
  dsimp only
  split
  · split
    · exact h.queryAll ..
    · exact h.queryAll ..
  · exact h.refl s

theorem queryParts (h : KeptByQueries R) (s : VectorStore) (b : BatchConditions)
    (threshold : Float32) (part : Nat) (queries : List (Nat × Embedding)) :
    R s (s.queryParts b threshold part queries).1 := by
  induction s, part, queries using parts_induction b with
  | nil s part =>
    rw [VectorStore.queryParts]
    exact h.refl s
  | abort s part q rest cause hsize =>
    rw [queryParts_of_abort hsize]
    exact h.refl s
  | size s part q rest size hsize ih =>
    have hpart := h.queryPart s b threshold part ((q :: rest).take size)
    rw [queryParts_of_size hsize]
    rcases hfound : s.queryPart b threshold part ((q :: rest).take size) with
      ⟨after, cause | answers⟩
    · rw [hfound] at hpart
      exact hpart
    · rw [hfound] at hpart
      exact h.trans hpart (ih after)

/-- What queries keep is kept by a batch of them. -/
theorem batch (h : KeptByQueries R) (s : VectorStore) (b : BatchConditions) (inRuntime : Bool)
    (vectors : List Embedding) (threshold : Float32) :
    R s (s.batch b inRuntime vectors threshold).1 := by
  unfold VectorStore.batch
  split
  · exact h.queryAll ..
  · split
    · exact h.refl s
    · exact h.queryParts ..

end KeptByQueries

/-- Queries keep the limits. -/
theorem keptByQueries_limits : KeptByQueries fun s s' => s'.limits = s.limits where
  refl _ := rfl
  trans h₁ h₂ := h₂.trans h₁
  query s c vector k threshold filter := (s.query_keeps c vector k threshold filter).2

/-- The sizes of parts depend on the limits only. -/
theorem partSize_of_limits {s s' : VectorStore} (h : s'.limits = s.limits) :
    s'.partSize = s.partSize := by
  have hbase : s'.queryBatchSize = s.queryBatchSize := congrArg Limits.queryBatchSize h
  funext usage first
  rw [partSize, partSize, hbase]

/-- Nothing leaves its word in a batch of `n` vectors: there are permits for all queries that run at
the same time, and the end of every part can be computed. -/
def Fits (s : VectorStore) (b : BatchConditions) (n : Nat) : Prop :=
  ∀ part, ∀ first < n, s.permits (b.usage (2 * part + 1)) ∧
    (s.partSize (b.usage (2 * part)) first).isOk

theorem Fits.zero {s : VectorStore} {b : BatchConditions} : s.Fits b 0 :=
  fun _ _ h => absurd h (Nat.not_lt_zero _)

theorem Fits.of_limits {s s' : VectorStore} {b : BatchConditions} {n : Nat} (h : s.Fits b n)
    (hlimits : s'.limits = s.limits) : s'.Fits b n := by
  have hatOnce : s'.maxConcurrentQueries = s.maxConcurrentQueries :=
    congrArg Limits.maxConcurrentQueries hlimits
  intro part
  rw [partSize_of_limits hlimits, permits, hatOnce]
  exact h part

/-- A batch without vectors asks nothing. -/
theorem batch_nil (s : VectorStore) (b : BatchConditions) (threshold : Float32) :
    s.batch b false [] threshold = (s, .ok []) := by
  have hpositioned : positioned [] = [] := rfl
  have hparts : s.queryParts b threshold 0 [] = (s, .ok []) := by rw [queryParts]
  rw [batch, batchTogether, hpositioned, hparts]
  split
  · rfl
  · exact congrArg (fun answers => (s, Except.ok answers)) (List.mergeSort_nil ..)

/-- A batch of queries does not change the backend. -/
theorem batch_backend (s : VectorStore) (b : BatchConditions) (inRuntime : Bool)
    (vectors : List Embedding) (threshold : Float32) :
    (s.batch b inRuntime vectors threshold).1.backend = s.backend := by
  have hkept : KeptByQueries fun s s' => s'.backend = s.backend :=
    ⟨fun _ => rfl, fun h₁ h₂ => h₂.trans h₁,
      fun s c vector k threshold filter => (s.query_keeps c vector k threshold filter).1⟩
  exact hkept.batch ..

end VectorStore

end CodeClones
