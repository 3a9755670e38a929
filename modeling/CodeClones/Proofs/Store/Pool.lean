import CodeClones.Proofs.Store.Calls

/-!
# Places of a pool

A use of the backend takes a place of the pool and gives it back, whatever its outcome is. So
between calls as many places are free as at the beginning, and a call that nothing refuses finds
one.
-/

namespace CodeClones

namespace Pool

/-- Two pools in which equally many of equally many places are taken. -/
structure SameRoom (p p' : Pool) : Prop where
  maxConnections : p'.maxConnections = p.maxConnections
  inUse : p'.inUse = p.inUse

theorem SameRoom.refl (p : Pool) : SameRoom p p := ⟨rfl, rfl⟩

theorem SameRoom.trans {p p₁ p₂ : Pool} (h₁ : SameRoom p p₁) (h₂ : SameRoom p₁ p₂) :
    SameRoom p p₂ :=
  ⟨h₂.maxConnections.trans h₁.maxConnections, h₂.inUse.trans h₁.inUse⟩

/-- Whether a place is free. -/
def HasRoom (p : Pool) : Prop := p.inUse < p.maxConnections

theorem SameRoom.hasRoom {p p' : Pool} (h : SameRoom p p') (hp : p.HasRoom) : p'.HasRoom := by
  rw [HasRoom, h.maxConnections, h.inUse]
  exact hp

theorem hasRoom_make (maxConnections timeout : Nat) (reuse : Bool) :
    (make maxConnections timeout reuse).HasRoom :=
  Nat.le_max_right maxConnections 1

/-- A place that is reserved is one more taken. -/
theorem reserve?_some {p p' : Pool} {connection : Option ConnectionId}
    (h : p.reserve? = some (p', connection)) :
    p'.maxConnections = p.maxConnections ∧ p'.inUse = p.inUse + 1 := by
  unfold reserve? at h
  split at h
  · cases Option.some.inj h
    exact ⟨rfl, rfl⟩
  · cases h

/-- Whoever gets a connection has taken one place; otherwise none is taken. -/
theorem acquire_cases {p p' : Pool} {refusal : Option StoreError}
    {r : Except StoreError ConnectionId} (h : p.acquire refusal = (p', r)) :
    p'.maxConnections = p.maxConnections ∧
      ((∃ e, r = .error e ∧ p'.inUse = p.inUse) ∨
        ∃ connection, r = .ok connection ∧ p'.inUse = p.inUse + 1) := by
  unfold acquire at h
  split at h
  · cases h
    exact ⟨rfl, Or.inl ⟨_, rfl, rfl⟩⟩
  · rename_i hreserve
    obtain ⟨hmax, hin⟩ := reserve?_some hreserve
    cases h
    exact ⟨hmax, Or.inr ⟨_, rfl, hin⟩⟩
  · rename_i hreserve
    obtain ⟨hmax, hin⟩ := reserve?_some hreserve
    split at h
    · cases h
      refine ⟨hmax, Or.inl ⟨_, rfl, ?_⟩⟩
      rw [release, hin, Nat.add_sub_cancel]
    · cases h
      exact ⟨hmax, Or.inr ⟨_, rfl, hin⟩⟩

/-- Where a place is free, a connection is refused only if none can be made. -/
theorem refusal_of_hasRoom {p : Pool} (h : p.HasRoom) {refusal : Option StoreError}
    {cause : StoreError} (hrefused : (p.acquire refusal).2 = .error cause) :
    refusal = some cause := by
  have hreserve : p.reserve? =
      some ({ p with inUse := p.inUse + 1, idle := p.idle.tail }, p.idle.head?) := if_pos h
  rw [acquire, hreserve] at hrefused
  cases hidle : p.idle.head? with
  | some connection =>
    rw [hidle] at hrefused
    cases hrefused
  | none =>
    rw [hidle] at hrefused
    cases refusal with
    | none => cases hrefused
    | some e =>
      cases hrefused
      rfl

/-- Where a place is free and nothing is refused, a connection is given out. -/
theorem acquire_of_hasRoom {p : Pool} (h : p.HasRoom) :
    ∃ p' connection, p.acquire none = (p', .ok connection) := by
  rcases hacquire : p.acquire none with ⟨p', r⟩
  cases r with
  | ok connection => exact ⟨p', connection, rfl⟩
  | error cause => cases refusal_of_hasRoom h (congrArg Prod.snd hacquire)

end Pool

/-- Nothing is refused to a call. -/
structure Conditions.Calm (c : Conditions) : Prop where
  busy : c.busy = none
  refusal : ∀ operation, c.refusal operation = none

namespace VectorStore

variable {α : Type} {s : VectorStore} {c : Conditions} {operation : Operation}
  {use : VectorStore → VectorStore × Except StoreError α}

/-- The place that a use of the backend takes is given back. -/
theorem withConnection_sameRoom (huse : ∀ s, (use s).1.pool = s.pool) :
    s.pool.SameRoom (s.withConnection c operation use).1.pool := by
  unfold withConnection
  split
  · exact .refl _
  · cases hacquire : s.pool.acquire (c.refusal .connect) with
    | mk pool r =>
      obtain ⟨hmax, hcases⟩ := Pool.acquire_cases hacquire
      rcases hcases with ⟨e, rfl, hin⟩ | ⟨connection, rfl, hin⟩
      · exact ⟨hmax, hin⟩
      · -- a refused operation and one that is done leave the same pool
        have hback : s.pool.SameRoom (pool.release connection) :=
          ⟨hmax, by rw [Pool.release, hin, Nat.add_sub_cancel]⟩
        dsimp only
        split
        · exact hback
        · rw [huse]
          exact hback

/-- A use of the backend to which nothing is refused is done. -/
theorem withConnection_calm (hc : c.Calm) (hroom : s.pool.HasRoom) (operation : Operation)
    (use : VectorStore → VectorStore × Except StoreError α) :
    ∃ s₁, Alike s s₁ ∧ (s.withConnection c operation use).2 = (use s₁).2 := by
  obtain ⟨pool, connection, hacquire⟩ := Pool.acquire_of_hasRoom hroom
  refine ⟨{ s with pool, queries := s.queries + operation.queries }, ⟨rfl, rfl, rfl⟩, ?_⟩
  simp only [withConnection, hc.busy, hc.refusal, hacquire]

theorem change_sameRoom (s : VectorStore) (c : Conditions) (operation : Operation)
    (f : Backend → Backend × α) : s.pool.SameRoom (s.change c operation f).1.pool := by
  have h : s.pool.SameRoom (s.withConnection c operation fun s =>
      (({ s with backend := (f s.backend).1 } : VectorStore), .ok (f s.backend).2)).1.pool :=
    withConnection_sameRoom fun _ => rfl
  unfold change
  dsimp only
  split <;> exact h

/-- A change to which nothing is refused is made. -/
theorem change_calm {f : Backend → Backend × α} (hc : c.Calm) (hroom : s.pool.HasRoom) :
    (s.change c operation f).2 = .ok (f s.backend).2 := by
  obtain ⟨s₁, halike, h⟩ := withConnection_calm hc hroom operation fun s =>
    (({ s with backend := (f s.backend).1 } : VectorStore), .ok (f s.backend).2)
  have hanswer : (s.change c operation f).2 = .ok (f s₁.backend).2 := by
    unfold change
    dsimp only
    split <;> exact h
  rw [hanswer, halike.backend]

theorem ask_sameRoom (s : VectorStore) (c : Conditions) (vector : Embedding) (k : Nat)
    (threshold : Float32) (filter : Json.Object) :
    s.pool.SameRoom (s.ask c vector k threshold filter).1.pool :=
  withConnection_sameRoom fun _ => rfl

theorem count_sameRoom (s : VectorStore) (c : Conditions) :
    s.pool.SameRoom (s.count c).1.pool :=
  withConnection_sameRoom fun _ => rfl

/-- A store with a free place to which nothing is refused is described. -/
theorem exists_stats (hc : c.Calm) (hroom : s.pool.HasRoom) (usage : Float) :
    ∃ stats, (s.stats c usage).2 = .ok stats := by
  obtain ⟨s₁, _, h⟩ := s.withConnection_calm hc hroom .count fun s => (s, .ok s.backend.count)
  rw [stats, count]
  dsimp only
  rw [h]
  exact ⟨_, rfl⟩

/-- A question to the backend that is not refused is answered. -/
theorem ask_calm {vector : Embedding} {k : Nat} {threshold : Float32} {filter : Json.Object}
    (hc : c.Calm) (hroom : s.pool.HasRoom) :
    (s.ask c vector k threshold filter).2 = s.backend.query vector k threshold filter := by
  obtain ⟨s₁, halike, h⟩ := withConnection_calm hc hroom .query fun s =>
    (s, s.backend.query vector k threshold filter)
  rw [ask, h, halike.backend]

end VectorStore

end CodeClones
