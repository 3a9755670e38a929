import CodeClones.Proofs.Finder.History
import CodeClones.Proofs.Store.Remembered

/-!
# States of one finder

A run changes the index, the remembered answers and the counters. However it ends, it keeps what
rows and answers are made by, the number of matches that a query gives, and the free places of the
pool: all states that calls lead to are states of one finder.
-/

namespace CodeClones

namespace VectorStore

/-- Two states of one store: rows are kept in the same collection, the limits are the same, answers
are remembered in both or in none, and as many connections are free. -/
structure Kin (s s' : VectorStore) : Prop where
  collection : s'.backend.collection? = s.backend.collection?
  limits : s'.limits = s.limits
  cached : s'.cache.isSome = s.cache.isSome
  room : s.pool.SameRoom s'.pool

theorem Kin.refl (s : VectorStore) : Kin s s := ⟨rfl, rfl, rfl, .refl _⟩

theorem Kin.trans {s s₁ s₂ : VectorStore} (h₁ : Kin s s₁) (h₂ : Kin s₁ s₂) : Kin s s₂ :=
  ⟨h₂.collection.trans h₁.collection, h₂.limits.trans h₁.limits, h₂.cached.trans h₁.cached,
    h₁.room.trans h₂.room⟩

/-- Queries give as many matches. -/
theorem Kin.maxResults {s s' : VectorStore} (h : Kin s s') : s'.maxResults = s.maxResults :=
  maxResults_of_limits h.limits

theorem Kin.rowOf {s s' : VectorStore} (h : Kin s s') : s'.backend.rowOf = s.backend.rowOf :=
  Backend.rowOf_of_collection? h.collection

theorem kin_change {α : Type} (s : VectorStore) (c : Conditions) (operation : Operation)
    {f : Backend → Backend × α} (hf : ∀ b, (f b).1.collection? = b.collection?) :
    Kin s (s.change c operation f).1 := by
  have hroom := s.change_sameRoom c operation f
  rcases h : s.change c operation f with ⟨s', r⟩
  rw [h] at hroom
  rcases change_cases h with ⟨_, _, halike⟩ | ⟨_, hbackend, hcache, hlimits⟩
  · exact ⟨by rw [halike.backend], halike.limits, by rw [halike.cache], hroom⟩
  · exact ⟨by rw [hbackend, hf], hlimits, by rw [hcache, Option.isSome_map], hroom⟩

theorem kin_upsert (s : VectorStore) (c : Conditions) (ids : List String)
    (vectors : List Embedding) (metadata : List Json.Object) :
    Kin s (s.upsert c ids vectors metadata).1 := by
  unfold upsert
  split
  · exact .refl s
  · split
    · exact .refl s
    · exact s.kin_change c .upsert fun b => b.collection?_upsert _

theorem kin_delete (s : VectorStore) (c : Conditions) (ids : List String) :
    Kin s (s.delete c ids).1 := by
  unfold delete
  split
  · exact .refl s
  · exact s.kin_change c .delete fun b => b.collection?_delete ids

theorem kin_clear (s : VectorStore) (c : Conditions) : Kin s (s.clear c).1 :=
  s.kin_change c .clear Backend.collection?_clear

theorem kin_stats (s : VectorStore) (c : Conditions) (usage : Float) :
    Kin s (s.stats c usage).1 :=
  ⟨by rw [stats_backend], (s.count_alike c).limits, congrArg Option.isSome (s.count_alike c).cache,
    s.count_sameRoom c⟩

theorem kin_query (s : VectorStore) (c : Conditions) (vector : Embedding) (k : Nat)
    (threshold : Float32) (filter : Json.Object) :
    Kin s (s.query c vector k threshold filter).1 := by
  obtain ⟨hbackend, hlimits⟩ := s.query_keeps c vector k threshold filter
  exact ⟨by rw [hbackend], hlimits, query_isSome (q := ⟨vector, k, threshold, filter⟩) rfl,
    query_sameRoom (q := ⟨vector, k, threshold, filter⟩) rfl⟩

theorem kin_batch (s : VectorStore) (b : BatchConditions) (inRuntime : Bool)
    (vectors : List Embedding) (threshold : Float32) :
    Kin s (s.batch b inRuntime vectors threshold).1 := by
  have hkept : KeptByQueries Kin := ⟨.refl, .trans, kin_query⟩
  exact hkept.batch ..

end VectorStore

namespace Finder

/-- Two states of one finder. -/
structure Kin (f g : Finder) : Prop where
  setup : g.setup = f.setup
  store : f.store.Kin g.store

theorem Kin.refl (f : Finder) : Kin f f := ⟨rfl, .refl _⟩

theorem Kin.trans {f g h : Finder} (hfg : Kin f g) (hgh : Kin g h) : Kin f h :=
  ⟨hgh.setup.trans hfg.setup, hfg.store.trans hgh.store⟩

theorem Kin.of_store {f g : Finder} (hsetup : g.setup = f.setup) (hstore : g.store = f.store) :
    Kin f g :=
  ⟨hsetup, hstore ▸ .refl _⟩

end Finder

namespace RunStep

open Finder

variable {α β : Type}

/-- However a step ends, it leads to a state of the same finder. -/
def Keeps (x : RunStep α) : Prop := ∀ f : Finder, f.Kin (x f).2

theorem Keeps.bind {x : RunStep α} {k : α → RunStep β} (hx : x.Keeps) (hk : ∀ a, (k a).Keeps) :
    (x >>= k).Keeps := by
  intro f
  have hfirst := hx f
  rcases h : x f with ⟨e | a, g⟩
  · rw [bind_of_error h]
    rwa [h] at hfirst
  · rw [bind_of_ok h]
    rw [h] at hfirst
    exact hfirst.trans (hk a g)

theorem Keeps.get_bind {k : Finder → RunStep β} (hk : ∀ f, (k f).Keeps) :
    ((get : RunStep Finder) >>= k).Keeps :=
  fun f => hk f f

theorem keeps_pure (a : α) : (pure a : RunStep α).Keeps := Kin.refl

end RunStep

namespace Finder

open RunStep

theorem keeps_failAt {α : Type} (fault : Fault) (stage : Stage) (reason : String) :
    (failAt fault stage reason : RunStep α).Keeps :=
  Kin.refl

theorem keeps_advance (next : Stage) : (advance next).Keeps := fun _ => .of_store rfl rfl

theorem keeps_accessState (c : RunConditions) (stage : Stage) (access : StateAccess) :
    (accessState c stage access).Keeps := by
  unfold accessState
  split
  · exact keeps_pure _
  · exact keeps_failAt _ _ _

theorem keeps_callStore {α : Type} {stage : Stage}
    {call : VectorStore → VectorStore × Except StoreError α}
    (h : ∀ s : VectorStore, s.Kin (call s).1) : (callStore stage call).Keeps := by
  intro f
  rcases hc : callStore stage call f with ⟨r, g⟩
  obtain ⟨s, answer, hs, rfl, _⟩ := callStore_cases hc
  have hkin := h f.store
  rw [hs] at hkin
  refine ⟨?_, hkin⟩
  simp only [setup, hkin.rowOf]

theorem keeps_clearAll (c : RunConditions) : (clearAll c).Keeps :=
  .get_bind fun _ => (keeps_callStore fun s => s.kin_clear _).bind fun _ =>
    (keeps_accessState _ _ _).bind fun _ _ => .of_store rfl rfl

theorem keeps_extractTargets (c : RunConditions) (files : List String) :
    (extractTargets c files).Keeps := by
  intro f
  obtain ⟨hsame, hstore, _⟩ := extractTargets_cases (rfl : extractTargets c files f = (_, _))
  exact .of_store hsame.setup hstore

theorem keeps_embedSymbols (symbols : List Symbol) : (embedSymbols symbols).Keeps := by
  intro f
  obtain ⟨hsame, hstore, _⟩ := embedSymbols_cases (rfl : embedSymbols symbols f = (_, _))
  exact .of_store hsame.setup hstore

theorem keeps_searchNeighbours (c : RunConditions) (symbols : List Symbol)
    (vectors : List Embedding) (threshold : Float32) :
    (searchNeighbours c symbols vectors threshold).Keeps :=
  (keeps_advance _).bind fun _ => (keeps_callStore fun s => s.kin_upsert ..).bind fun _ =>
    (keeps_advance _).bind fun _ => keeps_callStore fun s => s.kin_batch ..

theorem keeps_detect (c : RunConditions) (symbols : List Symbol) (threshold : Option Float32) :
    (detect c symbols threshold).Keeps := by
  refine .get_bind fun f => ?_
  have hsearch : (do
      let vectors ← embedSymbols (f.selected symbols)
      let answers ← searchNeighbours c (f.selected symbols) vectors
        (threshold.getD f.config.finder.thresholds.medium)
      advance .formattingResults
      pure (⟨duplicatesIn (f.selected symbols) answers f.config.finder.thresholds,
        (f.selected symbols).length, vectors.length⟩ : Detection) : RunStep Detection).Keeps :=
    (keeps_embedSymbols _).bind fun _ => (keeps_searchNeighbours _ _ _ _).bind fun _ =>
      (keeps_advance _).bind fun _ => keeps_pure _
  dsimp only
  split
  · exact (keeps_failAt _ _ _).bind fun _ => hsearch
  · exact hsearch

theorem keeps_commit (c : RunConditions) (records : List (String × FileRecord))
    (deleted : List String) : (commit c records deleted).Keeps := by
  intro f
  rcases h : commit c records deleted f with ⟨r, g⟩
  obtain ⟨rfl, _⟩ := commit_cases h
  exact .of_store rfl rfl

theorem keeps_describe (c : RunConditions) : (describe c).Keeps := by
  intro f
  have hkin := f.store.kin_stats c.stats c.usage
  rw [describe, get_bind, components]
  rcases hs : f.store.stats c.stats c.usage with ⟨s, answer⟩
  rw [hs] at hkin
  have hf : f.Kin { f with store := s } := by
    refine ⟨?_, hkin⟩
    simp only [setup, hkin.rowOf]
  cases answer <;> exact hf

theorem keeps_finishReport (c : RunConditions) (o : RunOptions) (d : Detection)
    (mode : AnalysisMode) (changedFiles : Option (List String)) :
    (finishReport c o d mode changedFiles).Keeps :=
  (keeps_describe c).bind fun _ => (keeps_advance _).bind fun _ => .get_bind fun _ => keeps_pure _

theorem keeps_indexFiles (c : RunConditions) (o : RunOptions) (files deleted : List String)
    (mode : AnalysisMode) (changedFiles : Option (List String)) :
    (indexFiles c o files deleted mode changedFiles).Keeps :=
  (keeps_extractTargets _ _).bind fun _ => (keeps_detect _ _ _).bind fun _ =>
    (keeps_commit _ _ _).bind fun _ => keeps_finishReport _ _ _ _ _

theorem keeps_purgeFrom (c : RunConditions) (position : Nat) (paths : List String) :
    (purgeFrom c position paths).Keeps := by
  induction paths generalizing position with
  | nil => exact keeps_pure _
  | cons path rest ih =>
    refine (keeps_accessState _ _ _).bind fun _ => .get_bind fun f => ?_
    cases f.fileState.get? path with
    | none => exact ih _
    | some record => exact (keeps_callStore fun s => s.kin_delete ..).bind fun _ => ih _

theorem keeps_runPlan (c : RunConditions) (o : RunOptions) (plan : Plan) :
    (runPlan c o plan).Keeps :=
  .get_bind fun _ => (keeps_purgeFrom _ _ _).bind fun _ => keeps_indexFiles _ _ _ _ _ _

theorem keeps_planChanged (c : RunConditions) : (planChanged c).Keeps := by
  intro f
  rcases h : planChanged c f with ⟨r, g⟩
  obtain ⟨rfl, _⟩ := planChanged_cases h
  exact .refl g

theorem keeps_running {α : Type} {work : RunStep α} (h : work.Keeps) : (running work).Keeps := by
  intro f
  have hwork := h { f with progress := Progress.advance {} .extractingSymbols }
  unfold running
  rcases hw : work { f with progress := Progress.advance {} .extractingSymbols } with ⟨e | a, g⟩
  · rw [hw] at hwork
    obtain ⟨progress, hfail⟩ := g.fail_eq e
    dsimp only
    rw [hfail]
    exact ⟨hwork.setup, hwork.store⟩
  · rw [hw] at hwork
    exact ⟨hwork.setup, hwork.store⟩

theorem keeps_analyze (c : RunConditions) (o : RunOptions) (top : String)
    (patterns : List String) : (analyze c o top patterns).Keeps := by
  refine keeps_running (.get_bind fun f => ?_)
  dsimp only
  split
  · refine (keeps_failAt _ _ _).bind fun _ => (keeps_clearAll c).bind fun _ => ?_
    split
    · exact keeps_failAt _ _ _
    · exact keeps_indexFiles _ _ _ _ _ _
  · refine (keeps_clearAll c).bind fun _ => ?_
    split
    · exact keeps_failAt _ _ _
    · exact keeps_indexFiles _ _ _ _ _ _

theorem keeps_analyzeChanges (c : RunConditions) (o : RunOptions) (files : Option (List String)) :
    (analyzeChanges c o files).Keeps := by
  refine .get_bind fun f => ?_
  cases files with
  | some files => exact keeps_running (keeps_runPlan _ _ _)
  | none =>
    dsimp only
    split
    · exact keeps_running ((keeps_planChanged c).bind fun _ => keeps_runPlan _ _ _)
    · exact keeps_analyze _ _ _ _

theorem keeps_findDuplicates (c : RunConditions) (symbols : List Symbol)
    (threshold : Option Float32) : (findDuplicates c symbols threshold).Keeps :=
  keeps_running <| (keeps_detect _ _ _).bind fun _ => (keeps_advance _).bind fun _ => keeps_pure _

end Finder

/-- A call leads to a state of the same finder. -/
theorem Call.kin_after (f : Finder) (call : Call) : f.Kin (call.after f) := by
  rw [after, run.eq_def]
  cases call with
  | full c o top patterns =>
    have h := Finder.keeps_analyze c o top patterns f
    simpa only [Prod.map_snd, id_eq] using h
  | changes c o files =>
    have h := Finder.keeps_analyzeChanges c o files f
    simpa only [Prod.map_snd, id_eq] using h
  | clear c =>
    have h := Finder.keeps_clearAll c f
    simpa only [Prod.map_snd, id_eq] using h

end CodeClones
