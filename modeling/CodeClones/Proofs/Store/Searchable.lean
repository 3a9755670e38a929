import CodeClones.Proofs.Json.Nesting
import CodeClones.Proofs.Store.Accesses

/-!
# Searching what was accepted

A database accepts records of any kind, and a search reads back all of them. A component that is no
finite number and metadata that nests too deep are accepted but not read back. As long as no such
record is stored, every search gives the ranking of all records; while one is stored, every search
fails, whatever else is stored and whatever is searched for.
-/

namespace CodeClones

/-- A record whose row can be read back. -/
structure Record.Readable (r : Record) : Prop where
  finite : ∀ x ∈ r.vector, x.isFinite
  nesting : (Json.Value.object r.metadata).nesting ≤ Json.maxNesting

/-- What is read back as metadata is lost only where the metadata nests too deep. -/
theorem exists_writtenMetadata_iff (o : Json.Object) :
    (∃ metadata, writtenMetadata o = .ok metadata) ↔
      (Json.Value.object o).nesting ≤ Json.maxNesting := by
  rw [← Json.Value.deepColumn?_eq_none_iff Json.maxNesting 0, writtenMetadata]
  cases (Json.Value.object o).deepColumn? Json.maxNesting 0 with
  | none => exact iff_of_true ⟨_, rfl⟩ rfl
  | some column =>
    refine iff_of_false (fun h => ?_) (Option.some_ne_none column)
    obtain ⟨metadata, hmetadata⟩ := h
    cases hmetadata

theorem Record.legible_toRow_iff (r : Record) : r.toRow.Legible ↔ r.Readable := by
  constructor
  · rintro ⟨vector, metadata, h⟩
    obtain ⟨hvector, hmetadata⟩ := Row.mk.inj h
    exact ⟨(map_writtenComponent_eq_iff.mp hvector).2,
      (exists_writtenMetadata_iff r.metadata).mp ⟨metadata, hmetadata⟩⟩
  · intro h
    obtain ⟨metadata, hmetadata⟩ := (exists_writtenMetadata_iff r.metadata).mpr h.nesting
    refine ⟨r.vector, metadata, ?_⟩
    rw [Record.toRow, hmetadata, map_writtenComponent_eq_iff.mpr ⟨rfl, h.finite⟩]

namespace Contents

/-- The map has an entry for the record. -/
def Holds (m : Contents) (r : Record) : Prop := m.lookup r.id = some (r.vector, r.metadata)

/-- The records that are read back: one for each entry of the map, with its metadata as it is read
from its text. -/
structure ReadAs (m : Contents) (records : List Record) : Prop where
  nodup : (records.map Record.id).Nodup
  sound : ∀ r ∈ records, ∃ metadata, m.lookup r.id = some (r.vector, metadata) ∧
    writtenMetadata metadata = .ok r.metadata
  complete : ∀ r, m.Holds r → ∃ metadata, writtenMetadata r.metadata = .ok metadata ∧
    ⟨r.id, r.vector, metadata⟩ ∈ records

end Contents

namespace Backend

variable {b : Backend} {m : Contents}

/-- The rows of a backend are those that a database makes of the entries of a map. -/
structure Wrote (b : Backend) (m : Contents) : Prop where
  rowOf : b.rowOf = Record.toRow
  rows : b.MadeBy Record.toRow m

/-- The row of an entry. -/
theorem Wrote.row?_of_holds (h : b.Wrote m) {r : Record} (hr : m.Holds r) :
    b.row? r.id = some r.toRow := by
  rw [h.rows r.id, hr]
  rfl

/-- Every row is that of an entry. -/
theorem Wrote.exists_holds (h : b.Wrote m) {id : String} {row : Row} (hrow : b.row? id = some row) :
    ∃ r : Record, m.Holds r ∧ r.id = id ∧ row = r.toRow := by
  rw [h.rows id, Option.map_eq_some_iff] at hrow
  obtain ⟨⟨vector, metadata⟩, hlookup, rfl⟩ := hrow
  exact ⟨⟨id, vector, metadata⟩, hlookup, rfl, rfl⟩

/-- If all entries can be read back, then they are what the backend reads. -/
theorem Wrote.records_of_readable (h : b.Wrote m) (hm : ∀ r, m.Holds r → r.Readable) :
    ∃ records, b.records = .ok records ∧ m.ReadAs records := by
  obtain ⟨records, hrecords⟩ := exists_records fun id row hrow => by
    obtain ⟨r, hr, -, rfl⟩ := h.exists_holds hrow
    exact r.legible_toRow_iff.mpr (hm r hr)
  refine ⟨records, hrecords, nodup_records hrecords, fun r hr => ?_, fun r hr => ?_⟩
  · obtain ⟨r', hr', hid, hrow⟩ := h.exists_holds ((mem_records_iff hrecords).mp hr)
    obtain ⟨hvector, hmetadata⟩ := Row.mk.inj hrow
    refine ⟨r'.metadata, ?_, hmetadata.symm⟩
    rw [← hid, hr', (map_writtenComponent_eq_iff.mp hvector.symm).1]
  · have hreadable := hm r hr
    obtain ⟨metadata, hmetadata⟩ := (exists_writtenMetadata_iff r.metadata).mpr hreadable.nesting
    refine ⟨metadata, hmetadata, (mem_records_iff hrecords).mpr ?_⟩
    rw [h.row?_of_holds hr, Record.toRow, hmetadata,
      map_writtenComponent_eq_iff.mpr ⟨rfl, hreadable.finite⟩]

/-- A single entry that cannot be read back makes the backend fail. -/
theorem Wrote.records_of_not_readable (h : b.Wrote m) {r : Record} (hr : m.Holds r)
    (hreadable : ¬r.Readable) : ∃ cause, b.records = .error (.json cause) :=
  records_of_not_legible (h.row?_of_holds hr) (r.legible_toRow_iff.not.mpr hreadable)

end Backend

namespace Request

theorem rowOf_onBackend (r : Request) (k : Nat) (b : Backend) :
    (r.onBackend k b).1.rowOf = b.rowOf := by
  cases r with
  | upsert ids vectors metadata =>
    rw [onBackend]
    split
    · rfl
    · split
      · rfl
      · exact b.rowOf_upsert _
  | delete ids =>
    rw [onBackend]
    split
    · rfl
    · exact b.rowOf_delete ids
  | clear => exact b.rowOf_clear
  | query q => rfl
  | batch vectors threshold => rfl

/-- A call does to the rows of a database what it does to the map that they are made of. -/
theorem wrote_onBackend {b : Backend} {m : Contents} (hb : b.Wrote m) (r : Request) (k : Nat) :
    (r.onBackend k b).1.Wrote (r.onMap k m).1 :=
  ⟨(r.rowOf_onBackend k b).trans hb.rowOf,
    madeBy_onBackend hb.rows (fun _ _ => congrFun hb.rowOf _) k⟩

/-- A call keeps a map readable if what it adds is. -/
theorem readable_onMap {r : Request} {m : Contents} (k : Nat)
    (hm : ∀ e, m.Holds e → e.Readable) (hr : ∀ e ∈ r.added, e.Readable) :
    ∀ e, (r.onMap k m).1.Holds e → e.Readable := by
  cases r with
  | upsert ids vectors metadata =>
    rw [onMap]
    split
    · exact hm
    · rintro ⟨id, vector, o⟩ he
      rw [Contents.Holds, Contents.lookup_put] at he
      cases hlast : Backend.lastWith (VectorStore.zipRecords ids vectors metadata) id with
      | none =>
        rw [hlast] at he
        exact hm ⟨id, vector, o⟩ he
      | some r =>
        rw [hlast] at he
        obtain ⟨hmem, rfl⟩ := Backend.lastWith_some hlast
        cases he
        exact hr r hmem
  | delete ids =>
    intro e he
    rw [Contents.Holds, onMap, Contents.lookup_remove] at he
    split at he
    · cases he
    · exact hm e he
  | clear =>
    intro e he
    rw [Contents.Holds, onMap, Finmap.lookup_empty] at he
    cases he
  | query q => exact hm
  | batch vectors threshold => exact hm

end Request

namespace VectorStore

/-- What is stored in a map after the calls that succeed. -/
def kept (s : VectorStore) (m : Contents) : List (RequestConditions × Request) → Contents
  | [] => m
  | (w, r) :: rest =>
    (r.run w s).1.kept (if (r.run w s).2.isOk then (r.onMap s.maxResults m).1 else m) rest

variable {asked : List Query} {s : VectorStore} {m : Contents}

/-- After any calls the rows are made of what is stored in the map. -/
theorem wrote_after {history : List (RequestConditions × Request)} (hs : s.Ready asked)
    (hq : ∀ p ∈ history, ∀ q ∈ p.2.queries s.maxResults, q ∈ asked) (h : s.backend.Wrote m) :
    (s.after history).backend.Wrote (s.kept m history) := by
  induction history generalizing s m with
  | nil => exact h
  | cons p rest ih =>
    obtain ⟨w, r⟩ := p
    have hserved := Request.served hs (hq _ (List.mem_cons_self ..))
      (show r.run w s = ((r.run w s).1, (r.run w s).2) from rfl)
    refine ih (s := (r.run w s).1) (hserved.ready hs) (fun p hp => ?_) ?_
    · rw [hserved.maxResults]
      exact hq p (List.mem_cons_of_mem _ hp)
    · rw [hserved.backend]
      split
      · exact Request.wrote_onBackend h r _
      · exact h

/-- Calls that add nothing but readable records keep a map readable. -/
theorem readable_kept {history : List (RequestConditions × Request)}
    (hm : ∀ r, m.Holds r → r.Readable) (hadded : ∀ p ∈ history, ∀ r ∈ p.2.added, r.Readable) :
    ∀ r, (s.kept m history).Holds r → r.Readable := by
  induction history generalizing s m with
  | nil => exact hm
  | cons p rest ih =>
    obtain ⟨w, r⟩ := p
    refine ih ?_ fun p hp => hadded p (List.mem_cons_of_mem _ hp)
    split
    · exact Request.readable_onMap _ hm (hadded _ (List.mem_cons_self ..))
    · exact hm

/-- After any calls on a store over a database, its rows are those of what is stored by the calls
that have succeeded. If all of it can be read back, every query to which nothing is refused gives
the ranking of all that is stored, each record once. If a single record cannot, every query fails,
with a fault in reading if nothing is refused. What can be read back stays so as long as nothing
else is added. -/
theorem query_after {backend : Backend} {config : StoreConfig} {c : Conditions}
    (hstart : start backend config c = .ok s) (hwrote : backend.Wrote m)
    (history : List (RequestConditions × Request)) (q : Query)
    (hkeys : config.enableQueryCache = true → KeysApart
      ((history.map Prod.snd ++ [Request.query q]).flatMap (Request.queries s.maxResults))) :
    (s.after history).backend.Wrote (s.kept m history) ∧
      ((∀ r, (s.kept m history).Holds r → r.Readable) →
        ∃ records, (s.kept m history).ReadAs records ∧
          ∀ w : RequestConditions, w.call.Calm → ((Request.query q).run w (s.after history)).2 =
            .ok (.found (rank records q.vector q.k q.threshold q.filter))) ∧
      (∀ r, (s.kept m history).Holds r → ¬r.Readable →
        (∀ w reply, ((Request.query q).run w (s.after history)).2 ≠ .ok reply) ∧
          ∃ cause, ∀ w : RequestConditions, w.call.Calm →
            ((Request.query q).run w (s.after history)).2 = .error (.json cause)) ∧
      ((∀ r, m.Holds r → r.Readable) → (∀ p ∈ history, ∀ r ∈ p.2.added, r.Readable) →
        ∀ r, (s.kept m history).Holds r → r.Readable) := by
  have hs := start_ready hstart hkeys
  obtain ⟨hready, hq⟩ := after_ready_for history (.query q) hs
  have hkept : (s.after history).backend.Wrote (s.kept m history) := by
    refine wrote_after hs (fun p hp q' hq' => ?_) ?_
    · exact List.mem_flatMap.mpr ⟨p.2, List.mem_append_left _ (List.mem_map_of_mem hp), hq'⟩
    · rw [(start_alike hstart).backend]
      exact hwrote
  have hreply : ∀ w : RequestConditions, Faithful
      (w.call.Calm ∧ (s.after history).pool.HasRoom)
      (((s.after history).backend.records.map fun records =>
        rank records q.vector q.k q.threshold q.filter).map Reply.found)
      ((Request.query q).run w (s.after history)).2 :=
    fun w => (Served.of_query hready (hq q (List.mem_singleton_self q)) rfl).reply
  refine ⟨hkept, fun hreadable => ?_, fun r hr hunread => ?_, readable_kept⟩
  · obtain ⟨records, hrecords, hread⟩ := hkept.records_of_readable hreadable
    refine ⟨records, hread, fun w hw => ?_⟩
    rw [(hreply w).of_calm ⟨hw, hready.room⟩, hrecords]
    rfl
  · obtain ⟨cause, hcause⟩ := hkept.records_of_not_readable hr hunread
    rw [hcause] at hreply
    exact ⟨fun w reply h => (nomatch (hreply w).of_ok reply h),
      cause, fun w hw => (hreply w).of_calm ⟨hw, hready.room⟩⟩

/-- A call to which nothing is refused. -/
private def unhindered : RequestConditions :=
  { batch := { usage := fun _ => 0, query := fun _ => {} } }

/-- A vector with a component that is not finite is stored beside another one. -/
private def infinityStored : List (RequestConditions × Request) :=
  [(unhindered, .upsert ["a", "b"] [[1, 0], [Float32.ofBits 0x7f800000, 0]] [[], []])]

/-- The same vector is stored and removed again. -/
private def infinityRemoved : List (RequestConditions × Request) :=
  infinityStored ++ [(unhindered, .delete ["b"])]

/-- Every query fails until the vector is removed. -/
theorem query_after_infinity :
    (∃ cause, ((Request.query .east).run unhindered (inDatabase.after infinityStored)).2 =
        .error (.json cause)) ∧
      ∃ records, ((Request.query .east).run unhindered (inDatabase.after infinityRemoved)).2 =
        .ok (.found (rank records Query.east.vector Query.east.k Query.east.threshold [])) := by
  have hstart : start (.database {} "symbols") {} {} = .ok inDatabase := rfl
  have hwrote : (Backend.database {} "symbols").Wrote ∅ :=
    ⟨rfl, Backend.madeBy_database rfl⟩
  have hcalm : unhindered.call.Calm := ⟨rfl, fun _ => rfl⟩
  have hkeys : KeysApart [Query.east] := by
    intro q hq q' hq' _
    rw [List.mem_singleton.mp hq, List.mem_singleton.mp hq']
  obtain ⟨-, -, hfails, -⟩ := query_after hstart hwrote infinityStored .east fun _ => hkeys
  obtain ⟨-, hfound, -⟩ := query_after hstart hwrote infinityRemoved .east fun _ => hkeys
  have hinfinite : ¬(Float32.ofBits 0x7f800000).isFinite := by decide +kernel
  refine ⟨?_, ?_⟩
  · obtain ⟨-, cause, hcause⟩ := hfails ⟨"b", [Float32.ofBits 0x7f800000, 0], []⟩ rfl
      fun h => hinfinite (h.finite _ (List.mem_cons_self ..))
    exact ⟨cause, hcause _ hcalm⟩
  · have hkept : inDatabase.kept ∅ infinityRemoved =
        (Contents.put ∅ [⟨"a", [1, 0], []⟩, ⟨"b", [Float32.ofBits 0x7f800000, 0], []⟩]).remove
          ["b"] := rfl
    have hreadable : ∀ r, (inDatabase.kept ∅ infinityRemoved).Holds r → r.Readable := by
      rintro ⟨id, vector, metadata⟩ hr
      rw [hkept, Contents.Holds, Contents.lookup_remove, Contents.lookup_put] at hr
      by_cases hb : id = "b"
      · simp [hb] at hr
      · by_cases ha : id = "a"
        · subst ha
          cases (show some (([1, 0] : Embedding), ([] : Json.Object)) = some (vector, metadata)
            from hr)
          exact ⟨by decide +kernel, by decide⟩
        · simp [hb, Ne.symm hb, Ne.symm ha, Backend.lastWith] at hr
    obtain ⟨records, -, hrecords⟩ := hfound hreadable
    exact ⟨records, hrecords _ hcalm⟩

end VectorStore

end CodeClones
