import CodeClones.Proofs.Store.Contents
import CodeClones.Proofs.Store.Requests

/-!
# Stores as finite maps

A store whose backend refuses nothing gives to calls one after the other what a finite map gives,
whether its backend keeps the map in memory or in a database, and whether it remembers answers or
not, unless a number leaves its word in a batch. So two stores over backends of different kinds that
keep the same map cannot be told apart.
-/

namespace CodeClones

/-- A call that changes or tells what a store keeps. -/
inductive Access where
  | request (r : Request)
  | count

/-- What such a call gives. -/
inductive AccessReply where
  | reply (r : Reply)
  | counted (count : Nat)

/-- What a call does on a map alone; a batch asks for `k` matches of each vector. -/
def Request.onMap (k : Nat) (m : Contents) : Request → Contents × Except StoreError Reply
  | upsert ids vectors metadata =>
    if ids.length ≠ vectors.length ∨ ids.length ≠ metadata.length then
      (m, .error (.lengthMismatch ids.length vectors.length metadata.length))
    else (m.put (VectorStore.zipRecords ids vectors metadata), .ok .done)
  | delete ids => (m.remove ids, .ok (.removed (m.keys ∩ ids.toFinset).card))
  | clear => (∅, .ok .done)
  | query q => (m, .ok (.found (m.ranking q)))
  | batch vectors threshold =>
    (m, .ok (.foundAll ((VectorStore.positioned vectors).map fun (position, vector) =>
      (position, m.ranking ⟨vector, k, threshold, []⟩))))

/-- What is added by a call is read back as it was written. -/
def Request.Storable : Request → Prop
  | upsert _ vectors metadata =>
    (∀ v ∈ vectors, ∀ x ∈ v, x.isFinite) ∧ ∀ o ∈ metadata, writtenMetadata o = .ok o
  | _ => True

namespace Access

/-- Makes a call. -/
def run (w : RequestConditions) (s : VectorStore) :
    Access → VectorStore × Except StoreError AccessReply
  | request r =>
    let (s, answer) := r.run w s
    (s, answer.map .reply)
  | count =>
    let (s, answer) := s.count w.call
    (s, answer.map .counted)

/-- What a call does on a map alone. -/
def onMap (k : Nat) (m : Contents) : Access → Contents × Except StoreError AccessReply
  | request r => ((r.onMap k m).1, (r.onMap k m).2.map .reply)
  | count => (m, .ok (.counted m.keys.card))

/-- The number of vectors in a batch; other calls have none. -/
def batchLength : Access → Nat
  | request r => r.batchLength
  | count => 0

/-- What is added by a call is read back as it was written. -/
def Storable : Access → Prop
  | request r => r.Storable
  | count => True

/-- The queries of a call. -/
def queries (k : Nat) : Access → List Query
  | request r => r.queries k
  | count => []

end Access

/-- What a store gives to calls, each of which is made when the one before has returned. -/
def VectorStore.replies (s : VectorStore) :
    List (RequestConditions × Access) → List (Except StoreError AccessReply)
  | [] => []
  | (w, a) :: rest => (a.run w s).2 :: (a.run w s).1.replies rest

/-- A store after such calls. -/
def VectorStore.accessed (s : VectorStore) (history : List (RequestConditions × Access)) :
    VectorStore :=
  history.foldl (fun s (w, a) => (a.run w s).1) s

namespace Contents

/-- What a map gives to calls. -/
def replies (k : Nat) (m : Contents) : List Access → List (Except StoreError AccessReply)
  | [] => []
  | a :: rest => (a.onMap k m).2 :: replies k (a.onMap k m).1 rest

/-- A map after calls. -/
def accessed (k : Nat) (m : Contents) (calls : List Access) : Contents :=
  calls.foldl (fun m a => (a.onMap k m).1) m

end Contents

namespace Request

/-- The records that a call adds. -/
def added : Request → List Record
  | upsert ids vectors metadata => VectorStore.zipRecords ids vectors metadata
  | _ => []

/-- The records of a call can be read back if its vectors and its metadata can. -/
theorem Storable.of_mem_added {r : Request} (h : r.Storable) : ∀ e ∈ r.added, e.Storable := by
  cases r with
  | upsert ids vectors metadata =>
    intro e he
    obtain ⟨⟨⟨id, v⟩, o⟩, hm, rfl⟩ := List.mem_map.mp he
    obtain ⟨hiv, ho⟩ := List.of_mem_zip hm
    exact ⟨h.1 v (List.of_mem_zip hiv).2, h.2 o ho⟩
  | _ => exact fun _ he => absurd he List.not_mem_nil

/-- A call does to the rows of a backend what it does to the map that they are made of. -/
theorem madeBy_onBackend {f : Record → Row} {b : Backend} {m : Contents} (hb : b.MadeBy f m)
    {r : Request} (hr : ∀ e ∈ r.added, b.rowOf e = f e) (k : Nat) :
    (r.onBackend k b).1.MadeBy f (r.onMap k m).1 := by
  cases r with
  | upsert ids vectors metadata =>
    rw [onBackend, onMap]
    split
    · exact hb
    · split
      · rename_i hempty
        rw [List.isEmpty_iff.mp hempty]
        exact hb
      · exact hb.upsert hr
  | delete ids =>
    rw [onBackend, onMap]
    split
    · rename_i hempty
      rw [List.isEmpty_iff.mp hempty]
      exact hb
    · exact hb.delete ids
  | clear => exact b.madeBy_clear
  | query q => exact hb
  | batch vectors threshold => exact hb

end Request

/-- Where the backend keeps a map, a call gives on both the same. -/
theorem Request.reply_of_keeps (r : Request) {b : Backend} {m : Contents} (hb : b.Keeps m)
    (k : Nat) : (r.onBackend k b).2 = (r.onMap k m).2 := by
  cases r with
  | upsert ids vectors metadata =>
    rw [onBackend, onMap]
    split
    · rfl
    · split <;> rfl
  | delete ids =>
    rw [onBackend, onMap, ← (Backend.keeps_iff_madeBy.mp hb).delete_count]
    split
    · rename_i hempty
      rw [List.isEmpty_iff.mp hempty, Backend.delete, List.foldl_nil, Nat.sub_self]
    · rfl
  | clear => rfl
  | query q =>
    rw [onBackend, onMap, hb.answer]
    rfl
  | batch vectors threshold =>
    obtain ⟨records, hrecords, hlists⟩ := hb.records
    rw [onBackend, onMap, Backend.answerAll_of_records hrecords]
    have hanswers : (VectorStore.positioned vectors).map (fun (position, vector) =>
        (position, rank records vector k threshold [])) =
          (VectorStore.positioned vectors).map fun (position, vector) =>
            (position, m.ranking ⟨vector, k, threshold, []⟩) :=
      List.map_congr_left fun p _ =>
        congrArg (Prod.mk p.1) (hlists.rank_eq ⟨p.2, k, threshold, []⟩)
    rw [hanswers]
    rfl

/-- A call that is refused changes nothing. -/
theorem Request.onMap_of_error {r : Request} {k : Nat} {m : Contents} {e : StoreError}
    (h : (r.onMap k m).2 = .error e) : (r.onMap k m).1 = m := by
  cases r with
  | upsert ids vectors metadata =>
    rw [onMap] at h ⊢
    split
    · rfl
    · rename_i hlengths
      rw [if_neg hlengths] at h
      cases h
  | delete ids => cases h
  | clear => cases h
  | query q => cases h
  | batch vectors threshold => cases h

/-- To make a change twice is to make it once. -/
theorem Request.onMap_upsert_again (k : Nat) (m : Contents) (ids : List String)
    (vectors : List Embedding) (metadata : List Json.Object) :
    ((upsert ids vectors metadata).onMap k ((upsert ids vectors metadata).onMap k m).1).1 =
      ((upsert ids vectors metadata).onMap k m).1 := by
  by_cases hlengths : ids.length ≠ vectors.length ∨ ids.length ≠ metadata.length
  · simp only [onMap, if_pos hlengths]
  · simp only [onMap, if_neg hlengths, Contents.put_put]

/-- A store that keeps a map and is fit for calls. -/
structure Mirror (asked : List Query) (k : Nat) (s : VectorStore) (m : Contents) : Prop where
  keeps : s.backend.Keeps m
  ready : s.Ready asked
  maxResults : s.maxResults = k

section Sequential

variable {asked : List Query} {k : Nat} {s : VectorStore} {m : Contents}

/-- A request to which nothing is refused does to a store what it does to its map. -/
private theorem Request.run_of_mirror {w : RequestConditions} {r : Request}
    (hs : Mirror asked k s m) (hq : ∀ q ∈ r.queries k, q ∈ asked) (hr : r.Storable)
    (hw : w.Calm s r.batchLength) :
    Mirror asked k (r.run w s).1 (r.onMap k m).1 ∧ (r.run w s).1.limits = s.limits ∧
      (r.run w s).2 = (r.onMap k m).2 := by
  have hkeeps : (r.onBackend k s.backend).1.Keeps (r.onMap k m).1 :=
    Backend.keeps_iff_madeBy.mpr (Request.madeBy_onBackend (Backend.keeps_iff_madeBy.mp hs.keeps)
      (fun e he => s.backend.rowOf_eq (hr.of_mem_added e he)) k)
  have hreply := r.reply_of_keeps hs.keeps k
  rcases hrun : r.run w s with ⟨s', given⟩
  have hserved := Request.served hs.ready (hs.maxResults ▸ hq) hrun
  rw [hs.maxResults] at hserved
  have hgiven : given = (r.onMap k m).2 := by
    rw [hserved.reply.of_calm ⟨hw, hs.ready.room⟩, hreply]
  have hbackend : s'.backend.Keeps (r.onMap k m).1 := by
    rw [hserved.backend]
    cases given with
    | ok reply => exact hkeeps
    | error e =>
      rw [Request.onMap_of_error hgiven.symm]
      exact hs.keeps
  exact ⟨⟨hbackend, hserved.ready hs.ready, hserved.maxResults.trans hs.maxResults⟩,
    hserved.limits, hgiven⟩

/-- A call to which nothing is refused does to a store what it does to its map. -/
theorem Access.run_of_mirror {w : RequestConditions} {a : Access} (hs : Mirror asked k s m)
    (hq : ∀ q ∈ a.queries k, q ∈ asked) (ha : a.Storable) (hw : w.Calm s a.batchLength) :
    Mirror asked k (a.run w s).1 (a.onMap k m).1 ∧ (a.run w s).1.limits = s.limits ∧
      (a.run w s).2 = (a.onMap k m).2 := by
  cases a with
  | request r =>
    obtain ⟨hmirror, hlimits, hgiven⟩ := Request.run_of_mirror hs hq ha hw
    exact ⟨hmirror, hlimits, congrArg (Except.map AccessReply.reply) hgiven⟩
  | count =>
    have halike := s.count_alike w.call
    have hgiven : (s.count w.call).2 = .ok m.keys.card := by
      obtain ⟨s₁, hs₁, h⟩ := VectorStore.withConnection_calm hw.call hs.ready.room .count
        fun s => (s, .ok s.backend.count)
      rw [VectorStore.count, h, hs₁.backend, (Backend.keeps_iff_madeBy.mp hs.keeps).count]
    have hready : (s.count w.call).1.Ready asked := by
      refine ⟨?_, fun hsome => hs.ready.keys (halike.cache ▸ hsome),
        (s.count_sameRoom w.call).hasRoom hs.ready.room⟩
      rw [VectorStore.Truthful, halike.backend]
      exact VectorStore.EveryAnswer.of_cache hs.ready.truthful halike.cache
    refine ⟨⟨?_, hready, (VectorStore.maxResults_of_limits halike.limits).trans hs.maxResults⟩,
      halike.limits, congrArg (Except.map AccessReply.counted) hgiven⟩
    change (s.count w.call).1.backend.Keeps m
    rw [halike.backend]
    exact hs.keeps

/-- Calls one after the other, to which nothing is refused, do to a store what they do to its
map. -/
theorem VectorStore.replies_of_mirror {history : List (RequestConditions × Access)}
    (hs : Mirror asked k s m) (hq : ∀ p ∈ history, ∀ q ∈ p.2.queries k, q ∈ asked)
    (ha : ∀ p ∈ history, p.2.Storable) (hw : ∀ p ∈ history, p.1.Calm s p.2.batchLength) :
    Mirror asked k (s.accessed history) (m.accessed k (history.map Prod.snd)) ∧
      (s.accessed history).limits = s.limits ∧
        s.replies history = m.replies k (history.map Prod.snd) := by
  induction history generalizing s m with
  | nil => exact ⟨hs, rfl, rfl⟩
  | cons p rest ih =>
    obtain ⟨w, a⟩ := p
    obtain ⟨hmirror, hlimits, hreply⟩ := Access.run_of_mirror hs (hq _ (List.mem_cons_self ..))
      (ha _ (List.mem_cons_self ..)) (hw _ (List.mem_cons_self ..))
    obtain ⟨hlast, hlastLimits, hreplies⟩ := ih hmirror
      (fun p hp => hq p (List.mem_cons_of_mem _ hp)) (fun p hp => ha p (List.mem_cons_of_mem _ hp))
      fun p hp => (hw p (List.mem_cons_of_mem _ hp)).of_limits hlimits
    exact ⟨hlast, hlastLimits.trans hlimits, congrArg₂ List.cons hreply hreplies⟩

end Sequential

/-- What a store with a map has in common with the map, after calls to which nothing was refused. -/
structure VectorStore.Mirrors (s : VectorStore) (m : Contents)
    (history : List (RequestConditions × Access)) : Prop where
  /-- Every call gave what the map gives. -/
  replies : s.replies history = m.replies s.maxResults (history.map Prod.snd)
  /-- The rows are the entries of the map after the calls. -/
  keeps : (s.accessed history).backend.Keeps (m.accessed s.maxResults (history.map Prod.snd))
  /-- The order in which the backend lists its records makes no difference to their ranking. -/
  ranked : ∀ listed records : List Record, (s.accessed history).backend.records = .ok listed →
    records.Perm listed → ∀ q : Query, rank records q.vector q.k q.threshold q.filter =
      (m.accessed s.maxResults (history.map Prod.snd)).ranking q
  /-- To add records again changes nothing. -/
  again : ∀ (w w' : RequestConditions) (ids : List String) (vectors : List Embedding)
    (metadata : List Json.Object), w.Calm s 0 → w'.Calm s 0 →
    (Request.upsert ids vectors metadata).Storable → ∀ id,
      ((s.accessed history).accessed [(w, .request (.upsert ids vectors metadata)),
        (w', .request (.upsert ids vectors metadata))]).backend.row? id =
      ((s.accessed history).accessed
        [(w, .request (.upsert ids vectors metadata))]).backend.row? id

/-- Calls on a store that has just been opened give what its map gives. -/
private theorem VectorStore.mirrors_of_start {backend : Backend} {config : StoreConfig}
    {c : Conditions} {s : VectorStore} {m : Contents} (hstart : start backend config c = .ok s)
    (hkeeps : backend.Keeps m) {history : List (RequestConditions × Access)}
    (ha : ∀ a ∈ history.map Prod.snd, a.Storable)
    (hw : ∀ p ∈ history, p.1.Calm s p.2.batchLength)
    (hkeys : config.enableQueryCache = true →
      KeysApart ((history.map Prod.snd).flatMap (Access.queries s.maxResults))) :
    s.Mirrors m history := by
  have hs : Mirror ((history.map Prod.snd).flatMap (Access.queries s.maxResults)) s.maxResults
      s m := by
    refine ⟨?_, start_ready hstart hkeys, rfl⟩
    rw [(start_alike hstart).backend]
    exact hkeeps
  obtain ⟨hlast, hlimits, hreplies⟩ := replies_of_mirror hs
    (fun p hp q hq => List.mem_flatMap.mpr ⟨p.2, List.mem_map_of_mem hp, hq⟩)
    (fun p hp => ha p.2 (List.mem_map_of_mem hp)) hw
  refine ⟨hreplies, hlast.keeps, fun listed records hlisted hperm q => ?_,
    fun w w' ids vectors metadata hw hw' hr id => ?_⟩
  · obtain ⟨_, hrecords, hlists⟩ := hlast.keeps.records
    cases hlisted.symm.trans hrecords
    exact (hlists.perm hperm).rank_eq q
  · have hnone : ∀ q ∈ (Request.upsert ids vectors metadata).queries s.maxResults,
        q ∈ (history.map Prod.snd).flatMap (Access.queries s.maxResults) :=
      fun q hq => nomatch hq
    obtain ⟨honce, hagain, -⟩ := Request.run_of_mirror hlast hnone hr (hw.of_limits hlimits)
    have htwice := (Request.run_of_mirror honce hnone hr
      (hw'.of_limits (hagain.trans hlimits))).1.keeps
    rw [Request.onMap_upsert_again] at htwice
    exact (htwice id).trans (honce.keeps id).symm

/-- Two stores whose backends keep the same map give the same to the same calls, of whatever kinds
the backends are, namely what the map gives. -/
theorem VectorStore.replies_agree {backend backend' : Backend} {config : StoreConfig}
    {c c' : Conditions} {s s' : VectorStore} {m : Contents}
    (hstart : start backend config c = .ok s) (hstart' : start backend' config c' = .ok s')
    (hkeeps : backend.Keeps m) (hkeeps' : backend'.Keeps m)
    {history history' : List (RequestConditions × Access)}
    (hsame : history'.map Prod.snd = history.map Prod.snd)
    (ha : ∀ a ∈ history.map Prod.snd, a.Storable)
    (hw : ∀ p ∈ history ++ history', p.1.Calm s p.2.batchLength)
    (hkeys : config.enableQueryCache = true →
      KeysApart ((history.map Prod.snd).flatMap (Access.queries s.maxResults))) :
    s.Mirrors m history ∧ s'.Mirrors m history' ∧ s'.replies history' = s.replies history := by
  have hlimits : s'.limits = s.limits :=
    (start_alike hstart').limits.trans (start_alike hstart).limits.symm
  have hmax := maxResults_of_limits hlimits
  have h := mirrors_of_start hstart hkeeps ha (fun p hp => hw p (List.mem_append_left _ hp)) hkeys
  have h' := mirrors_of_start hstart' hkeeps' (hsame ▸ ha)
    (fun p hp => (hw p (List.mem_append_right _ hp)).of_limits hlimits) (by rwa [hsame, hmax])
  exact ⟨h, h', by rw [h'.replies, h.replies, hsame, hmax]⟩

/-- A store over a database that has just been opened. -/
def VectorStore.inDatabase : VectorStore := { inMemory with backend := .database {} "symbols" }

/-- Changes with repeated and missing identifiers, one of which is rejected, and a question. -/
private def changesAndQuestions : List (RequestConditions × Access) :=
  let calm : RequestConditions := { batch := { usage := fun _ => 0, query := fun _ => {} } }
  [.request (.upsert ["b", "a", "b"] [[0, 1], [1, 0], [1, 0]]
      [[], [("language", .string "rust")], []]),
    .request (.upsert ["c"] [] []), .request (.query .east),
    .request (.delete ["b", "b", "c"]), .count].map (calm, ·)

/-- Metadata with a text is read back as it was written. -/
private theorem written_rust : writtenMetadata [("language", .string "rust")] =
    .ok [("language", .string "rust")] := by
  have hread : (writtenMetadata [("language", .string "rust")]).toOption.map
      (List.map fun e => (e.1, e.2.asString?)) = some [("language", some "rust")] := by
    decide +kernel
  obtain ⟨o, ho, hentries⟩ := Option.map_eq_some_iff.mp hread
  obtain ⟨⟨key, value⟩, rfl, hentry⟩ := List.map_eq_singleton_iff.mp hentries
  obtain ⟨rfl, hstring⟩ := Prod.mk.inj hentry
  rw [eq_ok_of_toOption ho]
  cases value with
  | string text => cases hstring; rfl
  | _ => cases hstring

private theorem written_nothing : writtenMetadata [] = .ok [] := by
  have hread : (writtenMetadata []).toOption.map List.isEmpty = some true := by decide +kernel
  obtain ⟨o, ho, hempty⟩ := Option.map_eq_some_iff.mp hread
  rw [eq_ok_of_toOption ho, List.isEmpty_iff.mp hempty]

/-- A store in memory and one over a database give the same to the same calls. -/
theorem VectorStore.replies_agree_changesAndQuestions :
    inMemory.Mirrors ∅ changesAndQuestions ∧ inDatabase.Mirrors ∅ changesAndQuestions ∧
      inDatabase.replies changesAndQuestions = inMemory.replies changesAndQuestions := by
  have hkeys : KeysApart [.east] := by
    intro q hq q' hq' _
    rw [List.mem_singleton.mp hq, List.mem_singleton.mp hq']
  refine replies_agree start_inMemory (rfl : start (.database {} "symbols") {} {} = _)
    (Backend.keeps_memory "memory") (Backend.keeps_database rfl) rfl ?_ ?_ fun _ => hkeys
  · have hfinite : (1 : Float32).isFinite = true ∧ (0 : Float32).isFinite = true := by
      decide +kernel
    simp [changesAndQuestions, Access.Storable, Request.Storable, hfinite, written_nothing,
      written_rust]
  · have hcalm : RequestConditions.Calm
        { batch := { usage := fun _ => 0, query := fun _ => {} } } inMemory 0 :=
      ⟨⟨rfl, fun _ => rfl⟩, ⟨fun _ => ⟨rfl, fun _ => rfl⟩, rfl, .zero⟩, rfl⟩
    simp [changesAndQuestions, hcalm, Access.batchLength, Request.batchLength]

end CodeClones
