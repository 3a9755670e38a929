import CodeClones.Proofs.Finder.Kin
import CodeClones.Proofs.Finder.Pairs
import CodeClones.Proofs.Store.Ranking

/-!
# What a search for duplicates lists

A search stores its symbols and then asks for the best matches of each one. It lists every pair of a
symbol and a match of another identifier once, as far as the match stands for a symbol.
-/

namespace CodeClones

/-- A match is among the best `k` of a symbol, with at least the given score. -/
def Near (symbols : List Symbol) (vectors : List Embedding) (b : Backend) (k : Nat)
    (threshold : Float32) (s : Symbol) (m : Match) : Prop :=
  ∃ (i : Nat) (v : Embedding) (hits : List Match), symbols[i]? = some s ∧ vectors[i]? = some v ∧
    b.query v k threshold [] = .ok hits ∧ m ∈ hits

/-- An identifier is that of one of some symbols, or its metadata can be restored. -/
def Known (symbols : List Symbol) (id : String) (metadata : Json.Object) : Prop :=
  (∃ s ∈ symbols, s.id = id) ∨ ∃ s, Symbol.ofMetadata metadata = .ok s

/-- A near match of another identifier that stands for a symbol stands for one with its own
identifier. -/
def RestoresIds (symbols : List Symbol) (vectors : List Embedding) (b : Backend) (k : Nat)
    (threshold : Float32) : Prop :=
  ∀ s m, Near symbols vectors b k threshold s m → m.id ≠ s.id →
    ∀ other, m.symbol? symbols = some other → other.id = m.id

/-- The duplicates that a search for symbols lists: the pairs of a symbol and a near match that is
known, without pairs of one identifier, each pair once, and in order. -/
structure ListsNear (symbols : List Symbol) (vectors : List Embedding) (b : Backend) (k : Nat)
    (threshold : Float32) (listed : List Duplicate) : Prop where
  distinct : ∀ d ∈ listed, d.a.id ≠ d.b.id
  once : listed.Pairwise fun d e => orderedPair d.a.id d.b.id ≠ orderedPair e.a.id e.b.id
  pairs : ∀ x y, (∃ d ∈ listed, orderedPair d.a.id d.b.id = orderedPair x y) ↔
    ∃ (s : Symbol) (m : Match), Near symbols vectors b k threshold s m ∧ m.id ≠ s.id ∧
      Known symbols m.id m.metadata ∧ orderedPair s.id m.id = orderedPair x y
  sides : ∀ d ∈ listed, d.a ∈ symbols ∧
    ∃ m : Match, Near symbols vectors b k threshold d.a m ∧ m.symbol? symbols = some d.b ∧
      m.id = d.b.id ∧ d.score = m.score
  sorted : listed.Pairwise fun d e => Duplicate.before d e
  /-- If there is room for all records, no known one that scores high enough is left out. -/
  complete : ∀ records, b.records = .ok records → records.length ≤ k →
    ∀ (i : Nat) (s : Symbol) (v : Embedding), symbols[i]? = some s → vectors[i]? = some v →
      ∀ r ∈ records, r.id ≠ s.id → Known symbols r.id r.metadata →
        threshold ≤ Embedding.cosine v r.vector →
          ∃ d ∈ listed, orderedPair d.a.id d.b.id = orderedPair s.id r.id

section Answered

variable {symbols : List Symbol} {vectors : List Embedding} {b : Backend} {k : Nat}
  {threshold : Float32} {answers : BatchAnswer}

/-- A match with the identifier of a symbol stands for a symbol with this identifier. -/
theorem exists_symbol?_of_mem {s : Symbol} {m : Match} (hs : s ∈ symbols) (hid : s.id = m.id) :
    ∃ other, m.symbol? symbols = some other ∧ other.id = m.id := by
  rw [Match.symbol?]
  cases hfind : symbols.reverse.find? fun s => s.id == m.id with
  | some found => exact ⟨found, rfl, by simpa using List.find?_some hfind⟩
  | none =>
    exact absurd (beq_iff_eq.mpr hid) (List.find?_eq_none.mp hfind s (List.mem_reverse.mpr hs))

theorem symbol?_id_of_mem {s other : Symbol} {m : Match} (hs : s ∈ symbols) (hid : s.id = m.id)
    (h : m.symbol? symbols = some other) : other.id = m.id := by
  obtain ⟨found, hfound, hsame⟩ := exists_symbol?_of_mem hs hid
  obtain rfl : found = other := Option.some.inj (hfound.symm.trans h)
  exact hsame

/-- Any other match stands for what its metadata says. -/
theorem symbol?_of_not_mem {m : Match} (h : ∀ s ∈ symbols, s.id ≠ m.id) :
    m.symbol? symbols = (Symbol.ofMetadata m.metadata).toOption := by
  have hfind : symbols.reverse.find? (fun s => s.id == m.id) = none :=
    List.find?_eq_none.mpr fun s hs hid => h s (List.mem_reverse.mp hs) (beq_iff_eq.mp hid)
  rw [Match.symbol?, hfind]

/-- A match stands for a symbol exactly if it is known. -/
theorem symbol?_isSome_iff {m : Match} :
    (m.symbol? symbols).isSome ↔ Known symbols m.id m.metadata := by
  by_cases hmem : ∃ s ∈ symbols, s.id = m.id
  · obtain ⟨s, hs, hid⟩ := hmem
    obtain ⟨other, hother, _⟩ := exists_symbol?_of_mem hs hid
    rw [hother]
    exact iff_of_true rfl (Or.inl ⟨s, hs, hid⟩)
  · rw [symbol?_of_not_mem fun s hs hid => hmem ⟨s, hs, hid⟩, Known, or_iff_right hmem]
    cases Symbol.ofMetadata m.metadata with
    | error e =>
      refine iff_of_false Bool.false_ne_true ?_
      rintro ⟨_, h⟩
      cases h
    | ok s => exact iff_of_true rfl ⟨s, rfl⟩

theorem Near.mem {s : Symbol} {m : Match} (h : Near symbols vectors b k threshold s m) :
    s ∈ symbols := by
  obtain ⟨_, _, _, hs, _⟩ := h
  exact List.mem_of_getElem? hs

/-- Two near matches with the same identifier have the same metadata. -/
theorem Near.metadata_eq {s s' : Symbol} {m m' : Match}
    (h : Near symbols vectors b k threshold s m) (h' : Near symbols vectors b k threshold s' m')
    (hid : m.id = m'.id) : m.metadata = m'.metadata := by
  obtain ⟨_, _, _, _, _, hquery, hmem⟩ := h
  obtain ⟨_, _, _, _, _, hquery', hmem'⟩ := h'
  obtain ⟨row, hrow, hmetadata⟩ := Backend.row?_of_mem_query hquery hmem
  obtain ⟨row', hrow', hmetadata'⟩ := Backend.row?_of_mem_query hquery' hmem'
  rw [hid, hrow'] at hrow
  cases hrow
  exact Except.ok.inj (hmetadata.symm.trans hmetadata')

/-- What a match stands for depends on its identifier and its metadata only. -/
theorem symbol?_congr {m m' : Match} (hid : m.id = m'.id) (hmetadata : m.metadata = m'.metadata) :
    m.symbol? symbols = m'.symbol? symbols := by
  rw [Match.symbol?, Match.symbol?, hid, hmetadata]

/-- Where the near pairs are listed, matches stand for symbols with their identifiers. -/
theorem ListsNear.restoresIds {listed : List Duplicate}
    (h : ListsNear symbols vectors b k threshold listed) :
    RestoresIds symbols vectors b k threshold := by
  intro s m hnear hne other hother
  by_cases hmem : ∃ s' ∈ symbols, s'.id = m.id
  · obtain ⟨s', hs', hid⟩ := hmem
    exact symbol?_id_of_mem hs' hid hother
  -- the pair is listed, with the match as its second side, since no symbol has its identifier
  have hknown : Known symbols m.id m.metadata := symbol?_isSome_iff.mp (by rw [hother]; rfl)
  obtain ⟨d, hd, hpair⟩ := (h.pairs s.id m.id).mpr ⟨s, m, hnear, hne, hknown, rfl⟩
  obtain ⟨ha, m', hnear', hstands, hid, _⟩ := h.sides d hd
  rcases orderedPair_eq_iff.mp hpair with ⟨_, hb⟩ | ⟨ha', _⟩
  · have hsame : m'.id = m.id := hid.trans hb
    rw [symbol?_congr hsame (hnear'.metadata_eq hnear hsame), hother] at hstands
    cases hstands
    exact hb
  · exact absurd ⟨d.a, ha, ha'⟩ hmem

/-- What is met in answers of the backend are the symbols with their near matches. -/
theorem mem_met_iff_near
    (h : b.answerAll k threshold (VectorStore.positioned vectors) = .ok answers) {s : Symbol}
    {m : Match} : (s, m) ∈ met symbols answers ↔ Near symbols vectors b k threshold s m := by
  rw [mem_met]
  constructor
  · rintro ⟨i, hits, hanswer, hs, hm⟩
    obtain ⟨v, hv, hquery⟩ := (Backend.mem_of_answerAll h i hits).mp hanswer
    exact ⟨i, v, hits, hs, VectorStore.mem_positioned.mp hv, hquery, hm⟩
  · rintro ⟨i, v, hits, hs, hv, hquery, hm⟩
    exact ⟨i, hits, (Backend.mem_of_answerAll h i hits).mpr
      ⟨v, VectorStore.mem_positioned.mpr hv, hquery⟩, hs, hm⟩

/-- With room for all records, one that scores high enough for a symbol is near to it. -/
theorem exists_near_of_record {records : List Record} (hrecords : b.records = .ok records)
    (hroom : records.length ≤ k) {i : Nat} {s : Symbol} {v : Embedding} (hs : symbols[i]? = some s)
    (hv : vectors[i]? = some v) {r : Record} (hr : r ∈ records)
    (hscore : threshold ≤ Embedding.cosine v r.vector) :
    ∃ m, Near symbols vectors b k threshold s m ∧ m.id = r.id ∧ m.metadata = r.metadata := by
  obtain ⟨m, hmatch, hid, hmetadata⟩ := Record.match?_of_le hscore
  have hquery : b.query v k threshold [] = .ok (rank records v k threshold []) := by
    rw [Backend.query, hrecords]
    rfl
  exact ⟨m, ⟨i, v, _, hs, hv, hquery, mem_rank_of_length_le hroom hr hmatch⟩, hid, hmetadata⟩

/-- A match that makes the same pair as a known one is known. -/
theorem Near.known_of_pair {s s' : Symbol} {m m' : Match}
    (h : Near symbols vectors b k threshold s m) (h' : Near symbols vectors b k threshold s' m')
    (hpair : pairOf (s', m') = pairOf (s, m)) (hknown : Known symbols m.id m.metadata) :
    Known symbols m'.id m'.metadata := by
  rcases orderedPair_eq_iff.mp hpair with ⟨_, hid⟩ | ⟨_, hid⟩
  · rw [hid, h'.metadata_eq h hid]
    exact hknown
  · exact Or.inl ⟨s, h.mem, hid.symm⟩

/-- Every near and known pair is listed, if near matches stand for symbols with their identifiers. -/
theorem exists_duplicate_of_near (hids : RestoresIds symbols vectors b k threshold)
    (h : b.answerAll k threshold (VectorStore.positioned vectors) = .ok answers) (t : Thresholds)
    {s : Symbol} {m : Match} (hnear : Near symbols vectors b k threshold s m) (hne : m.id ≠ s.id)
    (hknown : Known symbols m.id m.metadata) :
    ∃ d ∈ duplicatesIn symbols answers t, orderedPair d.a.id d.b.id = orderedPair s.id m.id := by
  obtain ⟨d, hd, hpair, -⟩ :=
    exists_duplicate_of_met t ((mem_met_iff_near h).mpr hnear) hne fun q hq hpair hdiffer => by
      have hnear' := (mem_met_iff_near h).mp hq
      obtain ⟨other, hother⟩ := Option.isSome_iff_exists.mp
        (symbol?_isSome_iff.mpr (hnear.known_of_pair hnear' hpair hknown))
      exact ⟨other, hother, hids _ _ hnear' hdiffer other hother⟩
  exact ⟨d, hd, hpair⟩

/-- A near match that is one of the symbols is listed with the symbol it is near to, from whichever
side the two are met first. -/
theorem exists_duplicate_of_mem
    (h : b.answerAll k threshold (VectorStore.positioned vectors) = .ok answers) (t : Thresholds)
    {s s' : Symbol} {m : Match} (hs : s ∈ symbols) (hs' : s' ∈ symbols)
    (hnear : Near symbols vectors b k threshold s m) (hid : m.id = s'.id) (hne : s.id ≠ s'.id) :
    ∃ d ∈ duplicatesIn symbols answers t, orderedPair d.a.id d.b.id = orderedPair s.id s'.id ∧
      ∃ (a : Symbol) (m' : Match), Near symbols vectors b k threshold a m' ∧
        pairOf (a, m') = pairOf (s, m) ∧ d.score = m'.score := by
  obtain ⟨d, hd, hpair, ⟨a, m'⟩, hmet, hsame, hscore⟩ := exists_duplicate_of_met t
    ((mem_met_iff_near h).mpr hnear) (fun he => hne (he.symm.trans hid)) (by
      rintro ⟨a, m'⟩ - hpair -
      rcases orderedPair_eq_iff.mp hpair with ⟨-, hb⟩ | ⟨-, hb⟩
      · exact exists_symbol?_of_mem hs' (hid.symm.trans hb.symm)
      · exact exists_symbol?_of_mem hs hb.symm)
  exact ⟨d, hd, hid ▸ hpair, a, m', (mem_met_iff_near h).mp hmet, hsame, hscore⟩

/-- The duplicates in answers of the backend are those of near and known matches, if these stand for
symbols with their identifiers. -/
theorem listsNear_of_answers (hids : RestoresIds symbols vectors b k threshold)
    (h : b.answerAll k threshold (VectorStore.positioned vectors) = .ok answers) (t : Thresholds) :
    ListsNear symbols vectors b k threshold (duplicatesIn symbols answers t) := by
  have hlisted : ∀ {d}, d ∈ duplicatesIn symbols answers t → ∃ m,
      Near symbols vectors b k threshold d.a m ∧ m.id ≠ d.a.id ∧ m.symbol? symbols = some d.b ∧
        m.id = d.b.id ∧ d.score = m.score := by
    intro d hd
    obtain ⟨m, hmem, hne, hother, hscore⟩ := met_of_mem_duplicatesIn hd
    have hnear := (mem_met_iff_near h).mp hmem
    exact ⟨m, hnear, hne, hother, (hids _ m hnear hne _ hother).symm, hscore⟩
  refine ⟨?distinct, ?once, ?pairs, ?sides, pairwise_before_duplicatesIn symbols answers t,
    ?complete⟩
  case distinct =>
    intro d hd
    obtain ⟨m, _, hne, _, hid, _⟩ := hlisted hd
    exact hid ▸ hne.symm
  case once =>
    exact pairwise_pair_duplicatesIn (fun p hp => hids _ _ ((mem_met_iff_near h).mp hp)) t
  case pairs =>
    intro x y
    constructor
    · rintro ⟨d, hd, hpair⟩
      obtain ⟨m, hnear, hne, hstands, hid, _⟩ := hlisted hd
      have hknown : Known symbols m.id m.metadata :=
        symbol?_isSome_iff.mp (by rw [hstands]; rfl)
      exact ⟨d.a, m, hnear, hne, hknown, hid ▸ hpair⟩
    · rintro ⟨s, m, hnear, hne, hknown, hpair⟩
      obtain ⟨d, hd, hd'⟩ := exists_duplicate_of_near hids h t hnear hne hknown
      exact ⟨d, hd, hd'.trans hpair⟩
  case sides =>
    intro d hd
    obtain ⟨m, hnear, _, hstands, hid, hscore⟩ := hlisted hd
    exact ⟨hnear.mem, m, hnear, hstands, hid, hscore⟩
  case complete =>
    intro records hrecords hroom i s v hs hv r hr hne hknown hscore
    obtain ⟨m, hnear, hid, hmetadata⟩ := exists_near_of_record hrecords hroom hs hv hr hscore
    rw [← hid] at hne hknown ⊢
    rw [← hmetadata] at hknown
    exact exists_duplicate_of_near hids h t hnear hne hknown

end Answered

/-- Where vectors were stored nothing is remembered that the backend does not answer. -/
theorem VectorStore.truthful_of_upsert {s s' : VectorStore} {c : Conditions} {ids : List String}
    {vectors : List Embedding} {metadata : List Json.Object}
    (h : s.upsert c ids vectors metadata = (s', .ok ())) (k : Nat) (threshold : Float32) :
    s'.Truthful (vectors.map fun v => ⟨v, k, threshold, []⟩) ∧
      s'.cache.isSome = s.cache.isSome := by
  rcases upsert_cases h with ⟨_, he, _⟩ | ⟨_, hlength, _, ⟨hempty, rfl⟩ | ⟨_, _, hcache, _⟩⟩
  · cases he
  · obtain rfl : vectors = [] := List.eq_nil_of_length_eq_zero (by rw [← hlength, hempty]; rfl)
    exact ⟨fun _ _ _ _ _ hq => (nomatch hq), rfl⟩
  · exact ⟨.of_cleared hcache, by rw [hcache, Option.isSome_map]⟩

/-- The answers of a backend are told by its records. -/
theorem Backend.answerAll_congr {b b' : Backend} (h : b'.records = b.records) :
    b'.answerAll = b.answerAll := by
  funext k threshold queries
  simp only [answerAll, query, h]

namespace Finder

/-- The vectors that a search stores for its symbols. -/
def Embeds (f : Finder) (symbols : List Symbol) (vectors : List Embedding) : Prop :=
  (f.engine.embed ((f.selected symbols).map Symbol.canonicalText)).2 = .ok vectors

/-- The backend that holds the symbols of a search. -/
def holding (f : Finder) (symbols : List Symbol) (vectors : List Embedding) : Backend :=
  f.store.backend.upsert (symbolRecords (f.selected symbols) vectors)

/-- The least score that a search asks for. -/
def cutoff (f : Finder) (threshold : Option Float32) : Float32 :=
  threshold.getD f.config.finder.thresholds.medium

theorem cutoff_of_setup {f g : Finder} (h : g.setup = f.setup) : g.cutoff = f.cutoff := by
  have hconfig : g.config = f.config := congrArg Setup.config h
  funext threshold
  rw [cutoff, cutoff, hconfig]

/-- A search that succeeds was given a threshold within range. -/
theorem inUnitRange_of_detect {f g : Finder} {c : RunConditions} {symbols : List Symbol}
    {threshold : Option Float32} {d : Detection}
    (h : detect c symbols threshold f = (.ok d, g)) : inUnitRange (f.cutoff threshold) := by
  rw [detect, get_bind] at h
  dsimp only at h
  split at h
  · rw [RunStep.bind_of_error (failAt_apply ..)] at h
    cases h
  · rename_i hrange
    simpa [cutoff] using hrange

/-- Queries for some vectors with different texts have different digests. -/
def QueriesDiffer (f : Finder) (cutoff : Float32) (vectors : List Embedding) : Prop :=
  ∀ v ∈ vectors, ∀ v' ∈ vectors,
    queryKey v f.store.maxResults cutoff [] = queryKey v' f.store.maxResults cutoff [] →
      queryText v f.store.maxResults cutoff [] = queryText v' f.store.maxResults cutoff []

theorem QueriesDiffer.of_nodup {f : Finder} {cutoff : Float32} {vectors : List Embedding}
    (h : (vectors.map fun v => queryKey v f.store.maxResults cutoff []).Nodup) :
    f.QueriesDiffer cutoff vectors := by
  intro v hv v' hv' hsame
  rw [List.inj_on_of_nodup_map h hv hv' hsame]

/-- Queries whose texts are told by their digests have keys of their own. -/
theorem QueriesDiffer.keysApart {f : Finder} {cutoff : Float32} {vectors : List Embedding}
    (h : f.QueriesDiffer cutoff vectors) :
    KeysApart (vectors.map fun v => ⟨v, f.store.maxResults, cutoff, []⟩) := by
  intro q hq q' hq' hkey
  obtain ⟨v, hv, rfl⟩ := List.mem_map.mp hq
  obtain ⟨v', hv', rfl⟩ := List.mem_map.mp hq'
  rw [vector_of_queryText (h v hv v' hv' hkey)]

/-- A search that succeeds was answered by the backend that holds its vectors. -/
theorem Searched.answered {f g : Finder} {c : RunConditions} {symbols : List Symbol}
    {vectors : List Embedding} {cutoff : Float32} {answers : BatchAnswer}
    (h : Searched c symbols vectors cutoff f g (.ok answers))
    (hkeys : f.store.cache.isSome →
      KeysApart (vectors.map fun v => ⟨v, f.store.maxResults, cutoff, []⟩)) :
    g.store.backend.answerAll f.store.maxResults cutoff (VectorStore.positioned vectors) =
      .ok answers := by
  obtain ⟨s, hupsert, hbatch⟩ := h.asked
  obtain ⟨htruthful, hcache⟩ :=
    VectorStore.truthful_of_upsert hupsert f.store.maxResults cutoff
  have hmax : s.maxResults = f.store.maxResults := by
    have hkin := f.store.kin_upsert c.upsert (symbols.map (·.id)) vectors
      (symbols.map Symbol.toMetadata)
    rw [hupsert] at hkin
    exact hkin.maxResults
  obtain ⟨hqueried, hfaithful⟩ := VectorStore.batch_faithful htruthful
    (fun hsome => hkeys (hcache ▸ hsome))
    (fun v hv => by rw [hmax]; exact List.mem_map_of_mem hv) hbatch
  have hanswers := hfaithful.of_ok answers rfl
  rwa [hmax, ← hqueried.backend] at hanswers

/-- A search that succeeds has stored the vectors of its symbols and lists what it was answered. -/
theorem findDuplicates_searched {f g : Finder} {c : RunConditions} {symbols : List Symbol}
    {threshold : Option Float32} {listed : List Duplicate}
    (h : findDuplicates c symbols threshold f = (.ok listed, g)) :
    inUnitRange (f.cutoff threshold) ∧ ∃ vectors answers, f.Embeds symbols vectors ∧
      Searched c (f.selected symbols) vectors (f.cutoff threshold) f g (.ok answers) ∧
        listed = duplicatesIn (f.selected symbols) answers f.config.finder.thresholds := by
  obtain ⟨d, f₁, hdetect, hk⟩ := RunStep.bind_ok (running_ok h)
  rw [RunStep.bind_of_ok (advance_apply ..)] at hk
  cases hk
  have hrange := inUnitRange_of_detect hdetect
  refine ⟨hrange, ?_⟩
  rcases detect_cases rfl hdetect with ⟨_, hr, _⟩ |
    ⟨vectors, answer, hembed, hsearch, ⟨_, hr, _⟩ | ⟨answers, rfl, _, hr⟩⟩
  · cases hr
  · cases hr
  · cases hr
    exact ⟨vectors, answers, hembed, ⟨hsearch.asked, hsearch.fileState, hsearch.stored.setup,
      hsearch.stored.length, hsearch.stored.rows⟩, rfl⟩

/-- A search that succeeds, and whose queries have different digests, lists the near pairs of its
selected symbols in the store that holds them exactly if near matches stand for symbols with their
identifiers. -/
theorem findDuplicates_listsNear {f g : Finder} {c : RunConditions} {symbols : List Symbol}
    {threshold : Option Float32} {listed : List Duplicate}
    (h : findDuplicates c symbols threshold f = (.ok listed, g))
    (hdiffer : ∀ vectors, f.Embeds symbols vectors → f.QueriesDiffer (f.cutoff threshold) vectors) :
    ∃ vectors, f.Embeds symbols vectors ∧ vectors.length = (f.selected symbols).length ∧
      (ListsNear (f.selected symbols) vectors (f.holding symbols vectors) f.store.maxResults
          (f.cutoff threshold) listed ↔
        RestoresIds (f.selected symbols) vectors (f.holding symbols vectors) f.store.maxResults
          (f.cutoff threshold)) := by
  obtain ⟨-, vectors, answers, hembed, hsearch, rfl⟩ := findDuplicates_searched h
  refine ⟨vectors, hembed, hsearch.stored.length, ListsNear.restoresIds,
    fun hids => listsNear_of_answers hids ?_ _⟩
  have hanswers := hsearch.answered fun _ => (hdiffer vectors hembed).keysApart
  have hrecords : g.store.backend.records = (f.holding symbols vectors).records := by
    refine Backend.records_congr fun id => ?_
    rw [holding, Backend.row?_upsert]
    exact hsearch.stored.rows id
  rwa [Backend.answerAll_congr hrecords] at hanswers

/-- Two functions of one file. -/
def twoFunctions : List Symbol :=
  [.make "f" .function "a.py" 1 "def f(x): return x",
    .make "g" .function "a.py" 2 "def g(x): return x"]

/-- A finder whose model gives every text the same vector, and whose store has one row. -/
def constant : Finder where
  root := "/ws"
  config := {}
  extractor := { root := "/ws", parsers := .standard }
  filter := ⟨[.function], 1, []⟩
  engine := ⟨⟨"constant", 2, fun calls => .ok ((calls.headD []).map fun _ => [1, 0])⟩, 1, false, []⟩
  store :=
    { VectorStore.make (.memory "memory" (SortedMap.insert {} "other" ([0, 1], []))) {} with
      enableAsync := false }
  fileState := {}

/-- A search for two functions lists what is near them. -/
theorem listsNear_twoFunctions : ∃ listed vectors, constant.Embeds twoFunctions vectors ∧
    ListsNear (constant.selected twoFunctions) vectors (constant.holding twoFunctions vectors)
      constant.store.maxResults (constant.cutoff (some 1)) listed := by
  have hok : (findDuplicates { views := .still (.directory [])
                               search := { usage := fun _ => 0, query := fun _ => {} } }
      twoFunctions (some 1) constant).1.isOk = true := by
    decide +kernel
  have hdiffer : ∀ vectors, constant.Embeds twoFunctions vectors →
      constant.QueriesDiffer (constant.cutoff (some 1)) vectors := by
    intro vectors hembed v hv v' hv' _
    have hpointwise : Engine.Pointwise constant.engine.model fun _ => [1, 0] :=
      .of_answer fun _ => rfl
    rw [Engine.embed_eq_map hpointwise hembed] at hv hv'
    obtain ⟨_, _, rfl⟩ := List.mem_map.mp hv
    obtain ⟨_, _, rfl⟩ := List.mem_map.mp hv'
    rfl
  have hids : ∀ vectors, RestoresIds (constant.selected twoFunctions) vectors
      (constant.holding twoFunctions vectors) constant.store.maxResults
      (constant.cutoff (some 1)) := by
    rintro vectors s m ⟨_, _, _, _, _, hquery, hmem⟩ _ other hother
    by_cases hmet : ∃ s' ∈ constant.selected twoFunctions, s'.id = m.id
    · obtain ⟨s', hs', hid⟩ := hmet
      exact symbol?_id_of_mem hs' hid hother
    rw [symbol?_of_not_mem fun s' hs' hid => hmet ⟨s', hs', hid⟩] at hother
    obtain ⟨row, hrow, hmetadata⟩ := Backend.row?_of_mem_query hquery hmem
    rw [holding, Backend.row?_upsert] at hrow
    cases hlast : Backend.lastWith (symbolRecords (constant.selected twoFunctions) vectors)
        m.id with
    | some r => exact absurd (mem_of_lastWith_symbolRecords hlast) hmet
    | none =>
      rw [hlast] at hrow
      change ((SortedMap.insert {} "other" (([0, 1] : Embedding), ([] : Json.Object))).get?
        m.id).map _ = some row at hrow
      rw [SortedMap.get?_insert] at hrow
      split at hrow
      · cases hrow
        rw [← Except.ok.inj hmetadata] at hother
        cases hother
      · cases hrow
  rcases hrun : findDuplicates { views := .still (.directory [])
                                 search := { usage := fun _ => 0, query := fun _ => {} } }
      twoFunctions (some 1) constant with ⟨_ | listed, g⟩
  · rw [hrun] at hok
    cases hok
  · obtain ⟨vectors, hembed, _, hlists⟩ := findDuplicates_listsNear hrun hdiffer
    exact ⟨listed, vectors, hembed, hlists.mpr (hids vectors)⟩

end Finder

end CodeClones
