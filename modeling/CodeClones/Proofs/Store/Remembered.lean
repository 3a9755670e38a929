import CodeClones.Proofs.Store.Cache
import CodeClones.Proofs.Store.Pool

/-!
# Remembered answers

What a store remembers is found again by the key of the query. As long as every remembered answer is
what the backend answers now, and different queries have different keys, a query gives what the
backend answers, whether it asks the backend or not, and leaves the store in such a state.
-/

namespace CodeClones

/-- What a store is asked for. -/
structure Query where
  vector : Embedding
  k : Nat
  threshold : Float32
  filter : Json.Object

/-- The key under which the answer to a query is remembered. -/
def Query.key (q : Query) : String := queryKey q.vector q.k q.threshold q.filter

/-- What a backend answers to a query. -/
def Backend.answer (b : Backend) (q : Query) : Except StoreError (List Match) :=
  b.query q.vector q.k q.threshold q.filter

/-- Different queries among some have different keys. -/
def KeysApart (asked : List Query) : Prop :=
  ∀ q ∈ asked, ∀ q' ∈ asked, q.key = q'.key → q = q'

/-- Two queries with different keys are told apart. -/
theorem KeysApart.of_pair {q q' : Query} (h : q.key ≠ q'.key) {asked : List Query}
    (hasked : ∀ a ∈ asked, a = q ∨ a = q') : KeysApart asked := by
  intro a ha a' ha' hkey
  rcases hasked a ha with rfl | rfl <;> rcases hasked a' ha' with rfl | rfl
  · rfl
  · exact absurd hkey h
  · exact absurd hkey.symm h
  · rfl

/-- Queries with keys of their own are told apart. -/
theorem KeysApart.of_nodup {asked : List Query} (h : (asked.map Query.key).Nodup) :
    KeysApart asked :=
  fun _ hq _ hq' he => List.inj_on_of_nodup_map h hq hq' he

/-- In which order the queries are listed makes no difference. -/
theorem KeysApart.perm {asked asked' : List Query} (h : KeysApart asked)
    (hperm : asked'.Perm asked) : KeysApart asked' :=
  fun q hq q' hq' => h q (hperm.mem_iff.mp hq) q' (hperm.mem_iff.mp hq')

namespace VectorStore

/-- Every remembered answer is as `P` says for its key. -/
def EveryAnswer (P : String → List Match → Prop) (s : VectorStore) : Prop :=
  ∀ cache, s.cache = some cache → cache.Every P

namespace EveryAnswer

variable {P Q : String → List Match → Prop} {s s' : VectorStore}

theorem of_cache (h : s.EveryAnswer P) (hcache : s'.cache = s.cache) : s'.EveryAnswer P := by
  rw [EveryAnswer, hcache]
  exact h

theorem mono (h : s.EveryAnswer P) (hPQ : ∀ key answer, P key answer → Q key answer) :
    s.EveryAnswer Q :=
  fun cache hcache => (h cache hcache).mono hPQ

theorem of_cleared {s₀ : VectorStore} (h : s.cache = s₀.cache.map Cache.clear) :
    s.EveryAnswer P := by
  intro cache hcache
  rw [h] at hcache
  obtain ⟨cache₀, _, rfl⟩ := Option.map_eq_some_iff.mp hcache
  exact cache₀.every_clear

theorem lookUp (h : s.EveryAnswer P) (now : Nat) (key : String) :
    (s.lookUp now key).1.EveryAnswer P := by
  unfold VectorStore.lookUp
  cases hcache : s.cache with
  | none => exact h
  | some cache =>
    intro cache' hcache'
    cases hcache'
    exact (h cache hcache).lookup now key

/-- A hit is a remembered answer. -/
theorem hit (h : s.EveryAnswer P) {now : Nat} {key : String} {answer : List Match}
    (hhit : (s.lookUp now key).2 = some answer) : s.cache.isSome ∧ P key answer := by
  unfold VectorStore.lookUp at hhit
  cases hcache : s.cache with
  | none =>
    rw [hcache] at hhit
    cases hhit
  | some cache =>
    rw [hcache] at hhit
    exact ⟨rfl, (h cache hcache).hit hhit⟩

theorem remember (h : s.EveryAnswer P) (now : Nat) {key : String} {answer : List Match}
    (hnew : s.cache.isSome → P key answer) : (s.remember now key answer).EveryAnswer P := by
  intro cache' hcache'
  obtain ⟨cache, hcache, rfl⟩ := Option.map_eq_some_iff.mp hcache'
  exact (h cache hcache).insert now (hnew (hcache ▸ rfl))

end EveryAnswer

theorem lookUp_isSome (s : VectorStore) (now : Nat) (key : String) :
    (s.lookUp now key).1.cache.isSome = s.cache.isSome := by
  unfold lookUp
  split
  · rfl
  · rename_i cache hcache
    rw [hcache]
    rfl

theorem lookUp_pool (s : VectorStore) (now : Nat) (key : String) :
    (s.lookUp now key).1.pool = s.pool := by
  unfold lookUp
  split <;> rfl

/-- A query finds a remembered answer, or it asks the backend and remembers what it answers. -/
theorem query_cases {s s' : VectorStore} {c : Conditions} {q : Query}
    {r : Except StoreError (List Match)}
    (h : s.query c q.vector q.k q.threshold q.filter = (s', r)) :
    ∃ key, (s.cache.isSome → key = q.key) ∧
      ((∃ hit, r = .ok hit ∧ s.lookUp c.now key = (s', some hit)) ∨
        ∃ s₁, s.lookUp c.now key = (s₁, none) ∧
          ((∃ e, r = .error e ∧
              s₁.ask c q.vector q.k q.threshold q.filter = (s', .error e)) ∨
            ∃ s₂ answer, r = .ok answer ∧
              s₁.ask c q.vector q.k q.threshold q.filter = (s₂, .ok answer) ∧
              s' = s₂.remember c.later key answer)) := by
  have hkey : s.cache.isSome →
      (if s.cache.isSome then queryKey q.vector q.k q.threshold q.filter else "") = q.key :=
    fun hsome => if_pos hsome
  unfold query at h
  dsimp only at h
  split at h
  · rename_i s₁ hit hlook
    cases h
    exact ⟨_, hkey, Or.inl ⟨hit, rfl, hlook⟩⟩
  · rename_i s₁ hlook
    refine ⟨_, hkey, Or.inr ⟨s₁, hlook, ?_⟩⟩
    split at h
    · rename_i s₂ e hask
      cases h
      exact Or.inl ⟨e, rfl, hask⟩
    · rename_i s₂ answer hask
      cases h
      exact Or.inr ⟨s₂, answer, rfl, hask, rfl⟩

/-- A query gives the place that it takes back. -/
theorem query_sameRoom {s s' : VectorStore} {c : Conditions} {q : Query}
    {r : Except StoreError (List Match)}
    (h : s.query c q.vector q.k q.threshold q.filter = (s', r)) : s.pool.SameRoom s'.pool := by
  obtain ⟨key, _, hcases⟩ := query_cases h
  have hpool := s.lookUp_pool c.now key
  rcases hcases with ⟨hit, _, hlook⟩ | ⟨s₁, hlook, hrest⟩
  · rw [hlook] at hpool
    exact hpool ▸ .refl _
  · have hroom := s₁.ask_sameRoom c q.vector q.k q.threshold q.filter
    rw [hlook] at hpool
    rw [show s.pool = s₁.pool from hpool.symm]
    rcases hrest with ⟨e, _, hask⟩ | ⟨s₂, answer, _, hask, rfl⟩ <;>
      · rw [hask] at hroom
        exact hroom

/-- A query leaves the cache switched on or off. -/
theorem query_isSome {s s' : VectorStore} {c : Conditions} {q : Query}
    {r : Except StoreError (List Match)}
    (h : s.query c q.vector q.k q.threshold q.filter = (s', r)) :
    s'.cache.isSome = s.cache.isSome := by
  obtain ⟨key, _, hcases⟩ := query_cases h
  have hsome := s.lookUp_isSome c.now key
  rcases hcases with ⟨hit, _, hlook⟩ | ⟨s₁, hlook, hrest⟩
  · rwa [hlook] at hsome
  · rw [hlook] at hsome
    rcases hrest with ⟨e, _, hask⟩ | ⟨s₂, answer, _, hask, rfl⟩
    · rw [(ask_cases hask).1.cache, hsome]
    · rw [remember, Option.isSome_map, (ask_cases hask).1.cache, hsome]

/-- What is remembered for some queries is what the backend answers. -/
def Truthful (asked : List Query) (s : VectorStore) : Prop :=
  s.EveryAnswer fun key answer => ∀ q ∈ asked, key = q.key → s.backend.answer q = .ok answer

section Sequential

variable {asked : List Query} {s s' : VectorStore} {c : Conditions} {q : Query}
  {r : Except StoreError (List Match)}

/-- A query gives nothing but what the backend answers, and nothing else is remembered after it. -/
theorem query_truthful (hs : s.Truthful asked) (hkeys : s.cache.isSome → KeysApart asked)
    (hq : q ∈ asked) (h : s.query c q.vector q.k q.threshold q.filter = (s', r)) :
    s'.Truthful asked ∧ ∀ hits, r = .ok hits → s.backend.answer q = .ok hits := by
  have hbackend : s'.backend = s.backend := by
    have hkeeps := (s.query_keeps c q.vector q.k q.threshold q.filter).1
    rwa [h] at hkeeps
  rw [Truthful, hbackend]
  obtain ⟨key, hkey, ⟨hit, rfl, hlook⟩ | ⟨s₁, hlook, hrest⟩⟩ := query_cases h
  · have hafter := hs.lookUp c.now key
    rw [hlook] at hafter
    refine ⟨hafter, fun hits hr => ?_⟩
    cases hr
    obtain ⟨hsome, hhit⟩ := hs.hit (congrArg Prod.snd hlook)
    exact hhit q hq (hkey hsome)
  · have hafter := hs.lookUp c.now key
    have hlooked := (s.lookUp_keeps c.now key).1
    have hsome := s.lookUp_isSome c.now key
    rw [hlook] at hafter hlooked hsome
    rcases hrest with ⟨e, rfl, hask⟩ | ⟨s₂, answer, rfl, hask, rfl⟩
    · exact ⟨hafter.of_cache (ask_cases hask).1.cache, fun hits hr => nomatch hr⟩
    · obtain ⟨halike, ⟨e, he⟩ | hanswer⟩ := ask_cases hask
      · cases he
      · rw [hlooked] at hanswer
        refine ⟨(hafter.of_cache halike.cache).remember c.later fun hs₂ q' hq' hk => ?_,
          fun hits hr => hr ▸ hanswer.symm⟩
        -- the key is that of the query just asked, so an equal key means the same query
        rw [halike.cache, hsome] at hs₂
        rw [hkeys hs₂ q' hq' q hq (hk.symm.trans (hkey hs₂))]
        exact hanswer.symm

/-- A query that is not refused gives what the backend answers. -/
theorem query_calm (hs : s.Truthful asked) (hkeys : s.cache.isSome → KeysApart asked)
    (hq : q ∈ asked) (hc : c.Calm) (hroom : s.pool.HasRoom)
    (h : s.query c q.vector q.k q.threshold q.filter = (s', r)) : r = s.backend.answer q := by
  obtain ⟨key, _, ⟨hit, rfl, _⟩ | ⟨s₁, hlook, hrest⟩⟩ := query_cases h
  · exact ((query_truthful hs hkeys hq h).2 hit rfl).symm
  · have hpool := s.lookUp_pool c.now key
    have hlooked := (s.lookUp_keeps c.now key).1
    rw [hlook] at hpool hlooked
    have hanswer : (s₁.ask c q.vector q.k q.threshold q.filter).2 = s.backend.answer q := by
      rw [ask_calm hc (hpool ▸ hroom), hlooked]
      rfl
    rcases hrest with ⟨e, rfl, hask⟩ | ⟨s₂, answer, rfl, hask, _⟩
    · rwa [hask] at hanswer
    · rwa [hask] at hanswer

end Sequential

end VectorStore

end CodeClones
