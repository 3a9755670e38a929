import CodeClones.Proofs.Cosine
import CodeClones.Proofs.Finder.Independence

/-!
# The order of the symbols of a search

A pair of two symbols may be met from either of them, and only from one if the other has better
matches. It is listed from the side that comes first. But the vectors of the two and their cosine
are the same from both sides, and which pairs are met at all is decided by all symbols together. So
a search lists the same duplicates in whatever order its symbols come, up to the order of the two
symbols of a duplicate.
-/

namespace CodeClones

/-- Lists in which every key occurs once, with the same keys and the same views under equal keys,
have the same views. -/
theorem filterMap_perm_of_key {α β κ : Type} {key : α → κ} {view : α → Option β} {xs ys : List α}
    (hxs : xs.Pairwise fun a b => key a ≠ key b) (hys : ys.Pairwise fun a b => key a ≠ key b)
    (hxy : ∀ x ∈ xs, ∃ y ∈ ys, key y = key x) (hyx : ∀ y ∈ ys, ∃ x ∈ xs, key x = key y)
    (hview : ∀ x ∈ xs, ∀ y ∈ ys, key x = key y → view x = view y) :
    (xs.filterMap view).Perm (ys.filterMap view) := by
  let keyed (a : α) : κ × Option β := (key a, view a)
  have hnodup : ∀ {zs : List α}, (zs.Pairwise fun a b => key a ≠ key b) → (zs.map keyed).Nodup :=
    fun h => h.map _ fun _ _ hne he => hne (congrArg Prod.fst he)
  have hperm : (xs.map keyed).Perm (ys.map keyed) := by
    refine (List.perm_ext_iff_of_nodup (hnodup hxs) (hnodup hys)).mpr fun e => ?_
    simp only [List.mem_map]
    constructor
    · rintro ⟨x, hx, rfl⟩
      obtain ⟨y, hy, hkey⟩ := hxy x hx
      exact ⟨y, hy, Prod.ext hkey (hview x hx y hy hkey.symm).symm⟩
    · rintro ⟨y, hy, rfl⟩
      obtain ⟨x, hx, hkey⟩ := hyx y hy
      exact ⟨x, hx, Prod.ext hkey (hview x hx y hy hkey)⟩
  have hviews := hperm.filterMap Prod.snd
  rwa [List.filterMap_map, List.filterMap_map] at hviews

/-- The duplicate with its symbols in ascending order of their identifiers. -/
def Duplicate.ordered (d : Duplicate) : Duplicate :=
  if d.b.id < d.a.id then { d with a := d.b, b := d.a } else d

/-- In order, it makes no difference from which symbol a duplicate was told. -/
theorem Duplicate.ordered_make_comm {a b : Symbol} (h : a.id ≠ b.id) (score : Float32)
    (t : Thresholds) : (make a b score t).ordered = (make b a score t).ordered := by
  have hfile : (a.filePath == b.filePath) = (b.filePath == a.filePath) := Bool.beq_comm
  have hswapped : ({ make a b score t with a := b, b := a } : Duplicate) = make b a score t := by
    rw [make, make, hfile]
  have hback : ({ make b a score t with a := a, b := b } : Duplicate) = make a b score t := by
    rw [make, make, hfile]
  change (if b.id < a.id then _ else _) = if a.id < b.id then _ else _
  rcases lt_trichotomy a.id b.id with hlt | he | hlt
  · rw [if_pos hlt, if_neg (String.lt_asymm hlt)]
    exact hback.symm
  · exact absurd he h
  · rw [if_pos hlt, if_neg (String.lt_asymm hlt)]
    exact hswapped

/-- Among symbols with identifiers of their own, the one with an identifier is found. -/
theorem find?_id_eq_some_iff {symbols : List Symbol} (hids : (symbols.map Symbol.id).Nodup)
    {id : String} {s : Symbol} :
    (symbols.reverse.find? fun s => s.id == id) = some s ↔ s ∈ symbols ∧ s.id = id := by
  have hiff : (symbols.reverse.find? fun s => s.id == id).map (fun s => s) = some s ↔
      ∃ x ∈ symbols, x.id = id ∧ x = s :=
    SortedMap.find?_reverse_eq_some_iff fun _ hx _ hy he => List.inj_on_of_nodup_map hids hx hy he
  rw [Option.map_id'] at hiff
  rw [hiff]
  constructor
  · rintro ⟨_, hs, hid, rfl⟩
    exact ⟨hs, hid⟩
  · rintro ⟨hs, hid⟩
    exact ⟨s, hs, hid, rfl⟩

/-- It is found in whatever order they are listed. -/
theorem find?_id_perm {symbols symbols' : List Symbol} (h : symbols'.Perm symbols)
    (hids : (symbols.map Symbol.id).Nodup) (id : String) :
    (symbols'.reverse.find? fun s => s.id == id) = symbols.reverse.find? fun s => s.id == id := by
  refine Option.ext fun s => ?_
  rw [find?_id_eq_some_iff hids, find?_id_eq_some_iff ((h.map _).nodup_iff.mpr hids), h.mem_iff]

/-- A match with the identifier of a symbol stands for it, if no other symbol has this identifier.
-/
theorem symbol?_eq_of_mem {symbols : List Symbol} (hids : (symbols.map Symbol.id).Nodup)
    {s : Symbol} {m : Match} (hs : s ∈ symbols) (hid : s.id = m.id) :
    m.symbol? symbols = some s := by
  rw [Match.symbol?, (find?_id_eq_some_iff hids).mpr ⟨hs, hid⟩]

section Answered

variable {symbols symbols' : List Symbol} {b : Backend} {k : Nat} {threshold : Float32}
  {vec : Symbol → Embedding} {t : Thresholds}

/-- Where every symbol has a vector of its own, positions do not matter. -/
theorem near_map_iff {s : Symbol} {m : Match} :
    Near symbols (symbols.map vec) b k threshold s m ↔
      s ∈ symbols ∧ ∃ hits, b.query (vec s) k threshold [] = .ok hits ∧ m ∈ hits := by
  constructor
  · rintro ⟨i, v, hits, hs, hv, hquery, hm⟩
    rw [List.getElem?_map, hs] at hv
    cases hv
    exact ⟨List.mem_of_getElem? hs, hits, hquery, hm⟩
  · rintro ⟨hs, hits, hquery, hm⟩
    obtain ⟨i, hi⟩ := List.mem_iff_getElem?.mp hs
    exact ⟨i, vec s, hits, hi, by rw [List.getElem?_map, hi]; rfl, hquery, hm⟩

/-- A near match is made of a record with its identifier, by its score. -/
theorem Near.exists_record {s : Symbol} {m : Match}
    (h : Near symbols (symbols.map vec) b k threshold s m) :
    ∃ records r, b.records = .ok records ∧ r ∈ records ∧
      r.match? (vec s) threshold [] = some m := by
  obtain ⟨-, hits, hquery, hm⟩ := near_map_iff.mp h
  rw [Backend.query] at hquery
  cases hrecords : b.records with
  | error e =>
    rw [hrecords] at hquery
    cases hquery
  | ok records =>
    rw [hrecords] at hquery
    cases hquery
    obtain ⟨r, hr, hmatch⟩ := exists_of_mem_rank hm
    exact ⟨records, r, rfl, hr, hmatch⟩

/-- A symbol has one near match under an identifier. -/
theorem Near.eq_of_id {s : Symbol} {m m' : Match}
    (h : Near symbols (symbols.map vec) b k threshold s m)
    (h' : Near symbols (symbols.map vec) b k threshold s m') (hid : m.id = m'.id) : m = m' := by
  obtain ⟨records, r, hrecords, hr, hmatch⟩ := h.exists_record
  obtain ⟨_, r', hrecords', hr', hmatch'⟩ := h'.exists_record
  cases hrecords.symm.trans hrecords'
  have hrecord : r.id = r'.id := by
    rw [← (Record.match?_eq_some hmatch).1, ← (Record.match?_eq_some hmatch').1, hid]
  obtain rfl := Backend.eq_of_mem_records hrecords hr hr' hrecord
  exact Option.some.inj (hmatch.symm.trans hmatch')

/-- Every symbol is stored with its vector. -/
def Backend.Holds (b : Backend) (vec : Symbol → Embedding) (symbols : List Symbol) : Prop :=
  ∀ s ∈ symbols, ∃ metadata, b.row? s.id = some (b.rowOf ⟨s.id, vec s, metadata⟩)

/-- The score of a symbol for another one is the cosine of their vectors. -/
theorem Near.score_eq {s s' : Symbol} {m : Match} (hb : b.Holds vec symbols)
    (h : Near symbols (symbols.map vec) b k threshold s m) (hs' : s' ∈ symbols)
    (hid : m.id = s'.id) : m.score = Embedding.cosine (vec s) (vec s') := by
  obtain ⟨records, r, hrecords, hr, hmatch⟩ := h.exists_record
  obtain ⟨hrid, -, hscore⟩ := Record.match?_eq_some hmatch
  obtain ⟨metadata, hrow⟩ := hb s' hs'
  rw [← hid, hrid, (Backend.mem_records_iff hrecords).mp hr] at hrow
  rw [hscore, Backend.vector_of_rowOf (Option.some.inj hrow).symm]

/-- A pair scores the same from whichever side it is met. -/
theorem Near.score_eq_of_pair (hids : (symbols.map Symbol.id).Nodup) (hb : b.Holds vec symbols)
    {s s' : Symbol} {m m' : Match} (h : Near symbols (symbols.map vec) b k threshold s m)
    (h' : Near symbols (symbols.map vec) b k threshold s' m')
    (hpair : pairOf (s, m) = pairOf (s', m')) : m.score = m'.score := by
  rcases orderedPair_eq_iff.mp hpair with ⟨hs, hm⟩ | ⟨hs, hm⟩
  · obtain rfl := List.inj_on_of_nodup_map hids h.mem h'.mem hs
    rw [h.eq_of_id h' hm]
  · rw [h.score_eq hb h'.mem hm, h'.score_eq hb h.mem hs.symm, Embedding.cosine_comm]

/-- The duplicate that a symbol and a match make, in order. -/
def duplicate? (symbols : List Symbol) (t : Thresholds) (p : Symbol × Match) : Option Duplicate :=
  (p.2.symbol? symbols).map fun other => (Duplicate.make p.1 other p.2.score t).ordered

/-- In order, the duplicates of a search are those of the pairs met first. -/
theorem duplicatesIn_perm (symbols : List Symbol) (answers : BatchAnswer) (t : Thresholds) :
    ((duplicatesIn symbols answers t).map Duplicate.ordered).Perm
      ((firstMet [] (met symbols answers)).filterMap (duplicate? symbols t)) := by
  have hview : duplicate? symbols t = fun p => (made? symbols t p).map Duplicate.ordered := by
    funext p
    rw [duplicate?, made?, Option.map_map]
    rfl
  rw [hview, ← List.map_filterMap]
  exact (duplicatesIn_perm_made symbols answers t).map _

/-- A pair makes the same duplicate from whichever side it is met. -/
theorem duplicate?_eq_of_pair (hids : (symbols.map Symbol.id).Nodup) (hb : b.Holds vec symbols)
    {s s' : Symbol} {m m' : Match} (h : Near symbols (symbols.map vec) b k threshold s m)
    (h' : Near symbols (symbols.map vec) b k threshold s' m') (hne : m.id ≠ s.id)
    (hpair : pairOf (s, m) = pairOf (s', m')) :
    duplicate? symbols t (s, m) = duplicate? symbols t (s', m') := by
  rcases orderedPair_eq_iff.mp hpair with ⟨hs, hm⟩ | ⟨hs, hm⟩
  · obtain rfl := List.inj_on_of_nodup_map hids h.mem h'.mem hs
    rw [h.eq_of_id h' hm]
  · have hother : m.symbol? symbols = some s' := symbol?_eq_of_mem hids h'.mem hm.symm
    have hother' : m'.symbol? symbols = some s := symbol?_eq_of_mem hids h.mem hs
    rw [duplicate?, duplicate?, hother, hother', h.score_eq_of_pair hids hb h' hpair]
    exact congrArg some (Duplicate.ordered_make_comm (fun he => hne (hm.trans he.symm)) _ t)

/-- Over one backend, answers for some symbols and answers for the same symbols in another order
make the same duplicates. -/
theorem duplicatesIn_order (h : symbols'.Perm symbols) (hids : (symbols.map Symbol.id).Nodup)
    (hb : b.Holds vec symbols) {answers answers' : BatchAnswer}
    (hanswers : b.answerAll k threshold (VectorStore.positioned (symbols.map vec)) = .ok answers)
    (hanswers' : b.answerAll k threshold (VectorStore.positioned (symbols'.map vec)) =
      .ok answers') :
    ((duplicatesIn symbols' answers' t).map Duplicate.ordered).Perm
      ((duplicatesIn symbols answers t).map Duplicate.ordered) := by
  have hmet : ∀ {l : List Symbol} {given : BatchAnswer}, l.Perm symbols →
      b.answerAll k threshold (VectorStore.positioned (l.map vec)) = .ok given →
        ∀ {s m}, (s, m) ∈ met l given ↔ Near symbols (symbols.map vec) b k threshold s m := by
    intro l given hl hgiven s m
    rw [mem_met_iff_near hgiven, near_map_iff, near_map_iff, hl.mem_iff]
  have hmet₀ := @hmet symbols answers (.refl _) hanswers
  have hmet₁ := @hmet symbols' answers' h hanswers'
  have hsame : duplicate? symbols' t = duplicate? symbols t := by
    funext p
    rw [duplicate?, duplicate?, Match.symbol?, Match.symbol?, find?_id_perm h hids]
  -- what is met in one order is met in the other one, so the same pairs are met first somewhere
  have hfirst : ∀ {l₁ l₂ : List (Symbol × Match)}, (∀ s m, (s, m) ∈ l₁ → (s, m) ∈ l₂) →
      ∀ p ∈ firstMet [] l₁, ∃ q ∈ firstMet [] l₂, pairOf q = pairOf p := by
    rintro l₁ l₂ hsub ⟨s, m⟩ hp
    obtain ⟨hmem, hne, hseen⟩ := mem_firstMet hp
    exact exists_firstMet (hsub s m hmem) hne hseen
  refine (duplicatesIn_perm ..).trans (List.Perm.trans ?_ (duplicatesIn_perm ..).symm)
  rw [hsame]
  refine filterMap_perm_of_key (pairwise_firstMet _ _) (pairwise_firstMet _ _)
    (hfirst fun s m hm => hmet₀.mpr (hmet₁.mp hm))
    (hfirst fun s m hm => hmet₁.mpr (hmet₀.mp hm)) ?_
  rintro ⟨s, m⟩ hp ⟨s', m'⟩ hq hpair
  obtain ⟨hmem, hne, -⟩ := mem_firstMet hp
  exact duplicate?_eq_of_pair hids hb (hmet₁.mp hmem) (hmet₀.mp (mem_firstMet hq).1) hne hpair

end Answered

/-- A backend that answers some queries answers any others. -/
theorem Backend.exists_answers {b : Backend} {k : Nat} {threshold : Float32}
    {queries queries' : List (Nat × Embedding)} {answers : BatchAnswer}
    (h : b.answerAll k threshold queries = .ok answers) (hnil : queries = [] → queries' = []) :
    ∃ answers', b.answerAll k threshold queries' = .ok answers' := by
  cases hrecords : b.records with
  | ok records => exact ⟨_, answerAll_of_records hrecords queries'⟩
  | error e =>
    by_cases hempty : queries = []
    · rw [hnil hempty]
      exact ⟨[], rfl⟩
    · rw [answerAll_of_unreadable hrecords hempty] at h
      cases h

namespace Finder

variable {f g g' : Finder} {c c' : RunConditions} {symbols symbols' : List Symbol}
  {threshold : Option Float32} {vectorOf : String → Embedding}

/-- The vector of a symbol, where every text has a vector of its own. -/
def vectorFor (f : Finder) (vectorOf : String → Embedding) (s : Symbol) : Embedding :=
  f.engine.finish (vectorOf s.canonicalText)

/-- What a search asks for its symbols. -/
def queriesFor (f : Finder) (vectorOf : String → Embedding) (symbols : List Symbol)
    (threshold : Option Float32) : List Query :=
  ((f.selected symbols).map (f.vectorFor vectorOf)).map fun v =>
    ⟨v, f.store.maxResults, f.cutoff threshold, []⟩

theorem queriesFor_perm (h : (f.selected symbols').Perm (f.selected symbols)) :
    (f.queriesFor vectorOf symbols' threshold).Perm (f.queriesFor vectorOf symbols threshold) :=
  (h.map _).map _

/-- A search over such a model succeeds only with the vectors of its symbols. -/
theorem Embeds.eq_map {vectors : List Embedding} (hmodel : Engine.Pointwise f.engine.model vectorOf)
    (h : f.Embeds symbols vectors) : vectors = (f.selected symbols).map (f.vectorFor vectorOf) := by
  rw [Engine.embed_eq_map hmodel h, List.map_map]
  rfl

/-- The rows after a search are told by its symbols, whatever order they came in. -/
theorem Stored.row?_eq {v : Symbol → Embedding} (h : Stored f symbols (symbols.map v) g)
    (id : String) : g.row? id = (((symbols.reverse.find? fun s => s.id == id).map fun s =>
      (⟨s.id, v s, s.toMetadata⟩ : Record)).map f.store.backend.rowOf).or (f.row? id) := by
  rw [h.rows id, lastWith_symbolRecords]

/-- Every symbol is stored with its vector. -/
theorem Stored.holds {v : Symbol → Embedding} (hids : (symbols.map Symbol.id).Nodup)
    (h : Stored f symbols (symbols.map v) g) : g.store.backend.Holds v symbols := by
  intro s hs
  have hrow : g.store.backend.row? s.id = _ := h.row?_eq s.id
  have hrowOf : g.store.backend.rowOf = f.store.backend.rowOf := congrArg Setup.rowOf h.setup
  refine ⟨s.toMetadata, ?_⟩
  rw [hrow, (find?_id_eq_some_iff hids).mpr ⟨hs, rfl⟩, hrowOf]
  rfl

/-- Two searches from one finder for the same symbols leave the same records. -/
theorem Stored.records_eq {v : Symbol → Embedding} (hids : (symbols.map Symbol.id).Nodup)
    (hperm : symbols'.Perm symbols) (h : Stored f symbols (symbols.map v) g)
    (h' : Stored f symbols' (symbols'.map v) g') :
    g'.store.backend.records = g.store.backend.records := by
  refine Backend.records_congr fun id => ?_
  change g'.row? id = g.row? id
  rw [h.row?_eq, h'.row?_eq, find?_id_perm hperm hids]

/-! ### Searches that succeed -/

/-- Nothing is refused to a search for `n` vectors, and nothing leaves its word. -/
structure Served (c : RunConditions) (n : Nat) (f : Finder) : Prop where
  model : ∀ texts earlier, ∃ raw, f.engine.model.answer (texts :: earlier) = .ok raw
  upsert : c.upsert.Calm
  search : c.search.Calm f.store n
  room : f.store.pool.HasRoom

theorem embedSymbols_of_ok {vectors : List Embedding}
    (h : (f.engine.embed (symbols.map Symbol.canonicalText)).2 = .ok vectors) :
    ∃ engine, embedSymbols symbols f = (.ok vectors,
      { f with engine, progress := f.progress.advance .generatingEmbeddings }) := by
  rcases he : f.engine.embed (symbols.map Symbol.canonicalText) with ⟨engine, answer⟩
  rw [he] at h
  cases h
  refine ⟨engine, ?_⟩
  rw [embedSymbols, RunStep.bind_of_ok (advance_apply ..), get_bind, he]
  rfl

theorem searchNeighbours_of_ok {vectors : List Embedding} {cutoff : Float32} {s s' : VectorStore}
    {answers : BatchAnswer}
    (hupsert : f.store.upsert c.upsert (symbols.map (·.id)) vectors
      (symbols.map Symbol.toMetadata) = (s, .ok ()))
    (hbatch : s.batch c.search false vectors cutoff = (s', .ok answers)) :
    ∃ g, searchNeighbours c symbols vectors cutoff f = (.ok answers, g) := by
  have hstored : callStore .buildingIndex (fun s : VectorStore => s.upsert c.upsert
      (symbols.map (·.id)) vectors (symbols.map Symbol.toMetadata))
      { f with progress := f.progress.advance .buildingIndex } = (.ok (), { f with
        store := s, progress := f.progress.advance .buildingIndex }) := by
    rw [callStore, get_bind, hupsert]
    rfl
  rw [searchNeighbours, RunStep.bind_of_ok (advance_apply ..), RunStep.bind_of_ok hstored,
    RunStep.bind_of_ok (advance_apply ..), callStore, get_bind, hbatch]
  exact ⟨_, rfl⟩

theorem detect_of_ok {vectors : List Embedding} {s s' : VectorStore} {answers : BatchAnswer}
    (hrange : inUnitRange (f.cutoff threshold)) (hembed : f.Embeds symbols vectors)
    (hupsert : f.store.upsert c.upsert ((f.selected symbols).map (·.id)) vectors
      ((f.selected symbols).map Symbol.toMetadata) = (s, .ok ()))
    (hbatch : s.batch c.search false vectors (f.cutoff threshold) = (s', .ok answers)) :
    ∃ d g, detect c symbols threshold f = (.ok d, g) := by
  obtain ⟨engine, hvectors⟩ := embedSymbols_of_ok hembed
  obtain ⟨g, hanswers⟩ := searchNeighbours_of_ok (f := { f with
    engine, progress := f.progress.advance .generatingEmbeddings }) hupsert hbatch
  rw [cutoff] at hanswers
  rw [detect, get_bind]
  dsimp only
  rw [if_neg (by simpa [cutoff] using hrange), RunStep.bind_of_ok hvectors,
    RunStep.bind_of_ok hanswers, RunStep.bind_of_ok (advance_apply ..)]
  exact ⟨_, _, rfl⟩

/-- A search succeeds if its threshold is within range, its symbols are embedded, and the store
takes their vectors and answers. -/
theorem findDuplicates_of_ok {vectors : List Embedding} {s s' : VectorStore}
    {answers : BatchAnswer} (hrange : inUnitRange (f.cutoff threshold))
    (hembed : f.Embeds symbols vectors)
    (hupsert : f.store.upsert c.upsert ((f.selected symbols).map (·.id)) vectors
      ((f.selected symbols).map Symbol.toMetadata) = (s, .ok ()))
    (hbatch : s.batch c.search false vectors (f.cutoff threshold) = (s', .ok answers)) :
    ∃ listed, (findDuplicates c symbols threshold f).1 = .ok listed := by
  obtain ⟨d, g, hdetect⟩ := detect_of_ok (f := { f with
    progress := Progress.advance {} .extractingSymbols }) hrange hembed hupsert hbatch
  rw [findDuplicates, running, RunStep.bind_of_ok hdetect, RunStep.bind_of_ok (advance_apply ..)]
  exact ⟨_, rfl⟩

/-- A store to which nothing is refused takes a vector for each symbol. -/
theorem upsert_of_calm {vectors : List Embedding} {conditions : Conditions} {s : VectorStore}
    (hlength : vectors.length = symbols.length) (hc : conditions.Calm) (hroom : s.pool.HasRoom) :
    ∃ s', s.upsert conditions (symbols.map (·.id)) vectors (symbols.map Symbol.toMetadata) =
      (s', .ok ()) := by
  have hanswer : (s.upsert conditions (symbols.map (·.id)) vectors
      (symbols.map Symbol.toMetadata)).2 = .ok () := by
    rw [VectorStore.upsert, if_neg (by simp [hlength])]
    split
    · rfl
    · rw [VectorStore.change_calm hc hroom]
  exact ⟨_, Prod.ext rfl hanswer⟩

/-- If a search succeeds, another one from the same finder for the same symbols to which nothing is
refused does so, too. -/
theorem findDuplicates_of_served {listed : List Duplicate}
    (hperm : (f.selected symbols').Perm (f.selected symbols))
    (hids : ((f.selected symbols).map Symbol.id).Nodup)
    (hmodel : Engine.Pointwise f.engine.model vectorOf)
    (hkeys : f.store.cache.isSome → KeysApart (f.queriesFor vectorOf symbols threshold))
    (h : findDuplicates c symbols threshold f = (.ok listed, g))
    (hc : f.Served c' (f.selected symbols).length) :
    ∃ listed', (findDuplicates c' symbols' threshold f).1 = .ok listed' := by
  obtain ⟨hrange, vectors, answers, hembed, hsearch, -⟩ := findDuplicates_searched h
  obtain rfl := hembed.eq_map hmodel
  have hanswers := hsearch.answered hkeys
  have hdimension := Engine.dimension_of_embed hmodel hembed
  obtain ⟨vectors', hembed'⟩ : ∃ vectors', f.Embeds symbols' vectors' := by
    refine Engine.embed_of_answers hmodel hc.model fun text ht => hdimension text ?_
    exact (hperm.map Symbol.canonicalText).mem_iff.mp ht
  obtain rfl := hembed'.eq_map hmodel
  have hlength : ((f.selected symbols').map (f.vectorFor vectorOf)).length =
      (f.selected symbols').length := List.length_map ..
  obtain ⟨s, hupsert⟩ := upsert_of_calm hlength hc.upsert hc.room
  rcases hbatch : s.batch c'.search false ((f.selected symbols').map (f.vectorFor vectorOf))
    (f.cutoff threshold) with ⟨s', r⟩
  -- the queries are the same as in the first search, and so are the records that they look at
  have hkin := f.store.kin_upsert c'.upsert ((f.selected symbols').map (·.id))
    ((f.selected symbols').map (f.vectorFor vectorOf))
    ((f.selected symbols').map Symbol.toMetadata)
  rw [hupsert] at hkin
  obtain ⟨htruthful, hcache⟩ :=
    VectorStore.truthful_of_upsert hupsert f.store.maxResults (f.cutoff threshold)
  obtain ⟨hqueried, hfaithful⟩ := VectorStore.batch_faithful htruthful
    (fun hsome => (hkeys (hcache ▸ hsome)).perm (queriesFor_perm hperm))
    (fun v hv => by rw [hkin.maxResults]; exact List.mem_map_of_mem hv) hbatch
  have hcalm := hc.search.of_limits hkin.limits
  rw [← hperm.length_eq, ← hlength] at hcalm
  have hr := hfaithful.of_calm ⟨hcalm, rfl, hkin.room.hasRoom hc.room⟩
  have hstored : Stored f (f.selected symbols') _ { f with store := s' } :=
    stored_of_asked hupsert hbatch rfl
  have hrecords : s.backend.records = g.store.backend.records := by
    rw [← hqueried.backend]
    exact Stored.records_eq hids hperm hsearch.stored hstored
  rw [Backend.answerAll_congr hrecords, hkin.maxResults] at hr
  have hnil : VectorStore.positioned ((f.selected symbols).map (f.vectorFor vectorOf)) = [] →
      VectorStore.positioned ((f.selected symbols').map (f.vectorFor vectorOf)) = [] := by
    intro hnil
    have hnone : f.selected symbols = [] := by simpa [VectorStore.positioned] using hnil
    rw [hnone, List.perm_nil] at hperm
    rw [hperm]
    rfl
  obtain ⟨answers', hanswers'⟩ := Backend.exists_answers hanswers hnil
  rw [hanswers'] at hr
  exact findDuplicates_of_ok hrange hembed' hupsert (hr ▸ hbatch)

/-- All accepted symbols are selected where there is room for them. -/
theorem selected_perm (hperm : symbols'.Perm symbols)
    (hroom : (f.filter.apply symbols).length ≤ f.config.finder.maxSymbols) :
    (f.selected symbols').Perm (f.selected symbols) := by
  have haccepted : (f.filter.apply symbols').Perm (f.filter.apply symbols) := hperm.filter _
  rw [selected, selected, List.take_of_length_le hroom,
    List.take_of_length_le (haccepted.length_eq ▸ hroom)]
  exact haccepted

theorem nodup_selected (h : (symbols.map Symbol.id).Nodup) :
    ((f.selected symbols).map Symbol.id).Nodup :=
  h.sublist (((List.take_sublist ..).trans List.filter_sublist).map _)

/-- A search lists the same duplicates in whatever order its symbols come, if these have identifiers
of their own and there is room for all accepted ones, the model gives every text a vector of its
own, and remembered answers can be told apart. Unless something is refused to it or leaves its word,
the second search succeeds if the first one did. -/
theorem findDuplicates_perm {listed : List Duplicate} (hperm : symbols'.Perm symbols)
    (hids : (symbols.map Symbol.id).Nodup)
    (hroom : (f.filter.apply symbols).length ≤ f.config.finder.maxSymbols)
    (hmodel : Engine.Pointwise f.engine.model vectorOf)
    (hkeys : f.store.cache.isSome → KeysApart (f.queriesFor vectorOf symbols threshold))
    (h : findDuplicates c symbols threshold f = (.ok listed, g)) :
    (∀ listed' g', findDuplicates c' symbols' threshold f = (.ok listed', g') →
        (listed'.map Duplicate.ordered).Perm (listed.map Duplicate.ordered)) ∧
      (f.Served c' (f.selected symbols).length →
        ∃ listed', (findDuplicates c' symbols' threshold f).1 = .ok listed') := by
  have hselected := selected_perm hperm hroom
  have hnodup : ((f.selected symbols).map Symbol.id).Nodup := nodup_selected hids
  refine ⟨fun listed' g' h' => ?_, findDuplicates_of_served hselected hnodup hmodel hkeys h⟩
  obtain ⟨-, vectors, answers, hembed, hsearch, rfl⟩ := findDuplicates_searched h
  obtain ⟨-, vectors', answers', hembed', hsearch', rfl⟩ := findDuplicates_searched h'
  obtain rfl := hembed.eq_map hmodel
  obtain rfl := hembed'.eq_map hmodel
  have hanswers' := hsearch'.answered fun hsome => (hkeys hsome).perm (queriesFor_perm hselected)
  rw [Backend.answerAll_congr (Stored.records_eq hnodup hselected hsearch.stored hsearch'.stored)]
    at hanswers'
  exact duplicatesIn_order hselected hnodup (hsearch.stored.holds hnodup)
    (hsearch.answered hkeys) hanswers'

/-- Three functions of one file. -/
def threeFunctions : List Symbol :=
  [.make "a" .function "a.py" 1 "def a(): pass", .make "b" .function "a.py" 2 "def b(): pass",
    .make "c" .function "a.py" 3 "def c(): pass"]

theorem nodup_threeFunctions : (threeFunctions.map Symbol.id).Nodup := by decide +kernel

/-- Vectors of which the second one lies between the other two, nearer to the first. -/
def direction (text : String) : Embedding :=
  if text = "name: a | type: function | content: def a(): pass" then [1, 0]
  else if text = "name: b | type: function | content: def b(): pass" then [4, 3]
  else [0, 1]

/-- A finder whose queries give two matches, one of them what is asked for. -/
def nearest : Finder where
  root := "/ws"
  config := {}
  extractor := { root := "/ws", parsers := .standard }
  filter := ⟨[.function], 1, []⟩
  engine := ⟨⟨"directions", 2, fun calls => .ok ((calls.headD []).map direction)⟩, 1, false, []⟩
  store := { VectorStore.make (.memory "memory" {}) {} with maxResults := 2 }
  fileState := {}

/-- The surroundings of a search in which nothing is refused. -/
def undisturbed : RunConditions :=
  { views := .still (.directory []), search := { usage := fun _ => 0, query := fun _ => {} } }

/-- Of the second and the third function only the third one has the other among its matches. Listed
backwards, the functions have the same duplicates. -/
theorem findDuplicates_threeFunctions : ∃ listed listed',
    (findDuplicates undisturbed threeFunctions (some 0.5) nearest).1 = .ok listed ∧
    (findDuplicates undisturbed threeFunctions.reverse (some 0.5) nearest).1 = .ok listed' ∧
    (listed'.map Duplicate.ordered).Perm (listed.map Duplicate.ordered) := by
  have hok : (findDuplicates undisturbed threeFunctions (some 0.5) nearest).1.isOk := by
    decide +kernel
  have hmodel : Engine.Pointwise nearest.engine.model direction := .of_answer fun _ => rfl
  have hkeys : KeysApart (nearest.queriesFor direction threeFunctions (some 0.5)) :=
    .of_nodup (by decide +kernel)
  have hserved : nearest.Served undisturbed (nearest.selected threeFunctions).length :=
    ⟨fun _ _ => ⟨_, rfl⟩, ⟨rfl, fun _ => rfl⟩,
      ⟨fun _ => ⟨rfl, fun _ => rfl⟩, rfl,
        VectorStore.fits_of_le (by decide) (by decide) (by decide +kernel) _⟩,
      Pool.hasRoom_make ..⟩
  rcases hrun : findDuplicates undisturbed threeFunctions (some 0.5) nearest with ⟨_ | listed, g⟩
  · rw [hrun] at hok
    cases hok
  obtain ⟨hsame, hsucceeds⟩ := @findDuplicates_perm _ _ _ undisturbed _ _ _ _ _
    (List.reverse_perm threeFunctions) nodup_threeFunctions (by decide) hmodel (fun _ => hkeys) hrun
  obtain ⟨listed', hlisted'⟩ := hsucceeds hserved
  exact ⟨listed, listed', rfl, hlisted', hsame listed' _ (Prod.ext hlisted' rfl)⟩

end Finder

end CodeClones
