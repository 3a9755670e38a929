import CodeClones.Proofs.Store.Ranking
import CodeClones.Proofs.Store.Remembered
import Mathlib.Data.Finmap

/-!
# Backends as finite maps

What a backend keeps is a finite map from identifiers to vectors with metadata. As long as what is
written can be read back, both kinds of backends keep the same map through the same changes, and
their answers are told by the map alone: a ranking does not depend on the order in which the records
are listed.
-/

namespace CodeClones

/-- A finite map from identifiers to vectors with metadata. -/
abbrev Contents := Finmap fun _ : String => Embedding × Json.Object

/-- A record that is read back as it was written. -/
structure Record.Storable (r : Record) : Prop where
  finite : ∀ x ∈ r.vector, x.isFinite
  metadata : writtenMetadata r.metadata = .ok r.metadata

namespace Contents

variable {m : Contents}

/-- Adds records; of equal identifiers the last one counts. -/
def put (m : Contents) (records : List Record) : Contents :=
  records.foldl (fun m r => m.insert r.id (r.vector, r.metadata)) m

/-- Removes identifiers. -/
def remove (m : Contents) (ids : List String) : Contents := ids.foldl (fun m id => m.erase id) m

/-- A list of records that has each entry of the map once. -/
structure Lists (m : Contents) (records : List Record) : Prop where
  nodup : (records.map Record.id).Nodup
  mem_iff : ∀ r, r ∈ records ↔ m.lookup r.id = some (r.vector, r.metadata)

/-- The record of an entry. -/
private def recordOf (e : Sigma fun _ : String => Embedding × Json.Object) : Record :=
  ⟨e.1, e.2.1, e.2.2⟩

private theorem nodup_map_recordOf (entries : AList fun _ : String => Embedding × Json.Object) :
    ((entries.entries.map recordOf).map Record.id).Nodup := by
  rw [List.map_map]
  exact entries.nodupKeys

/-- The ranking of the entries for a query. -/
def ranking (m : Contents) (q : Query) : List Match :=
  m.liftOn (fun entries => rank (entries.entries.map recordOf) q.vector q.k q.threshold q.filter)
    fun entries _ h => rank_perm (h.map _) (nodup_map_recordOf entries) ..

/-- In whatever order the entries are listed, their ranking is the same. -/
theorem Lists.rank_eq {records : List Record} (h : m.Lists records) (q : Query) :
    rank records q.vector q.k q.threshold q.filter = m.ranking q := by
  induction m using Finmap.induction_on with
  | H entries =>
    refine rank_perm ?_ h.nodup ..
    have hnodup := nodup_map_recordOf entries
    refine (List.perm_ext_iff_of_nodup h.nodup.of_map hnodup.of_map).mpr fun r => ?_
    rw [h.mem_iff, Finmap.lookup_toFinmap, ← Option.mem_def, AList.mem_lookup_iff, List.mem_map]
    constructor
    · intro hm
      exact ⟨_, hm, rfl⟩
    · rintro ⟨e, hm, rfl⟩
      exact hm

theorem Lists.perm {records records' : List Record} (h : m.Lists records)
    (hperm : records'.Perm records) : m.Lists records' :=
  ⟨(hperm.map Record.id).nodup_iff.mpr h.nodup, fun r => hperm.mem_iff.trans (h.mem_iff r)⟩

/-- The last of equal identifiers counts, and other entries stay. -/
theorem lookup_put (m : Contents) (records : List Record) (id : String) :
    (m.put records).lookup id =
      ((Backend.lastWith records id).map fun r => (r.vector, r.metadata)).or (m.lookup id) := by
  rw [put, Backend.lastWith]
  induction records generalizing m with
  | nil => rfl
  | cons r records ih =>
    rw [List.foldl_cons, ih, List.reverse_cons, List.find?_append, Option.map_or, Option.or_assoc]
    by_cases hid : r.id = id
    · subst hid
      simp
    · simp [hid, Finmap.lookup_insert_of_ne _ (Ne.symm hid)]

/-- To add the same records again changes nothing. -/
theorem put_put (m : Contents) (records : List Record) :
    (m.put records).put records = m.put records := by
  refine Finmap.ext_lookup fun id => ?_
  rw [lookup_put (m.put records), lookup_put]
  cases Backend.lastWith records id <;> rfl

theorem lookup_remove (m : Contents) (ids : List String) (id : String) :
    (m.remove ids).lookup id = if id ∈ ids then none else m.lookup id := by
  rw [remove]
  induction ids generalizing m with
  | nil => simp
  | cons key ids ih =>
    rw [List.foldl_cons, ih]
    by_cases hid : id = key
    · subst hid
      simp
    · by_cases hmem : id ∈ ids
      · simp [hmem]
      · simp [hmem, hid, Finmap.lookup_erase_ne hid]

theorem keys_remove (m : Contents) (ids : List String) :
    (m.remove ids).keys = m.keys \ ids.toFinset := by
  ext id
  rw [Finset.mem_sdiff, List.mem_toFinset, Finmap.mem_keys, Finmap.mem_keys, ← Finmap.lookup_isSome,
    ← Finmap.lookup_isSome, lookup_remove]
  by_cases hmem : id ∈ ids
  · simp [hmem]
  · simp [hmem]

end Contents

namespace Backend

variable {b : Backend} {m : Contents}

theorem nodup_ids (b : Backend) : b.ids.Nodup := by
  cases b <;> exact SortedMap.nodup_keys _

theorem mem_ids_iff {id : String} : id ∈ b.ids ↔ (b.row? id).isSome := by
  cases b with
  | memory name stored =>
    rw [ids, row?, SortedMap.mem_keys_iff, Option.isSome_map]
  | database db collection => exact SortedMap.mem_keys_iff

/-- The rows of a backend are those that `f` makes of the entries of a map. -/
def MadeBy (f : Record → Row) (b : Backend) (m : Contents) : Prop :=
  ∀ id, b.row? id = (m.lookup id).map fun (vector, metadata) => f ⟨id, vector, metadata⟩

section MadeBy

variable {f : Record → Row}

theorem madeBy_database {db : Database} {collection : String} (h : db.rows collection = {}) :
    (database db collection).MadeBy f ∅ := by
  intro id
  rw [row?, h]
  rfl

/-- Records are added if their rows are those that `f` makes of them. -/
theorem MadeBy.upsert (h : b.MadeBy f m) {records : List Record}
    (hf : ∀ r ∈ records, b.rowOf r = f r) : (b.upsert records).MadeBy f (m.put records) := by
  intro id
  rw [row?_upsert, Contents.lookup_put, h id]
  cases hlast : lastWith records id with
  | none => rfl
  | some r =>
    obtain ⟨hmem, rfl⟩ := lastWith_some hlast
    exact congrArg some (hf r hmem)

theorem MadeBy.delete (h : b.MadeBy f m) (ids : List String) :
    (b.delete ids).1.MadeBy f (m.remove ids) := by
  intro id
  rw [row?_delete, Contents.lookup_remove, h id]
  split <;> rfl

theorem madeBy_clear (b : Backend) : b.clear.MadeBy f ∅ := by
  intro id
  rw [row?_clear, Finmap.lookup_empty]
  rfl

/-- The number of records is the size of the map. -/
theorem MadeBy.count (h : b.MadeBy f m) : b.count = m.keys.card := by
  rw [Backend.count, ← List.toFinset_card_of_nodup b.nodup_ids]
  refine congrArg Finset.card (Finset.ext fun id => ?_)
  rw [List.mem_toFinset, mem_ids_iff, h id, Option.isSome_map, Finmap.mem_keys,
    Finmap.lookup_isSome]

/-- The number of records that are removed is that of the listed identifiers that were there. -/
theorem MadeBy.delete_count (h : b.MadeBy f m) (ids : List String) :
    (b.delete ids).2 = (m.keys ∩ ids.toFinset).card := by
  change b.count - (b.delete ids).1.count = _
  have hsplit := Finset.card_sdiff_add_card_inter m.keys ids.toFinset
  rw [h.count, (h.delete ids).count, Contents.keys_remove]
  omega

end MadeBy

/-- The rows of a backend are the entries of a map. -/
def Keeps (b : Backend) (m : Contents) : Prop :=
  ∀ id, b.row? id = (m.lookup id).map fun (vector, metadata) => ⟨vector.map some, .ok metadata⟩

theorem keeps_iff_madeBy : b.Keeps m ↔ b.MadeBy (fun r => r.entry.2) m := Iff.rfl

theorem keeps_memory (name : String) : (memory name {}).Keeps ∅ := fun _ => rfl

theorem keeps_database {db : Database} {collection : String} (h : db.rows collection = {}) :
    (database db collection).Keeps ∅ :=
  keeps_iff_madeBy.mpr (madeBy_database h)

/-- A backend makes the same row of a record, whatever its kind is, if it can be read back. -/
theorem rowOf_eq (b : Backend) {r : Record} (h : r.Storable) :
    b.rowOf r = ⟨r.vector.map some, .ok r.metadata⟩ := by
  cases b with
  | memory name stored => rfl
  | database db collection =>
    rw [rowOf, Record.toRow, h.metadata]
    refine congrArg (Row.mk · (.ok r.metadata)) (List.map_congr_left fun x hx => ?_)
    rw [writtenComponent, if_pos (h.finite x hx)]

/-- The entries of the map are read off the rows. -/
theorem Keeps.lookup_eq_some_iff (h : b.Keeps m) {id : String} {vector : Embedding}
    {metadata : Json.Object} :
    m.lookup id = some (vector, metadata) ↔ b.row? id = some ⟨vector.map some, .ok metadata⟩ := by
  rw [h id, Option.map_eq_some_iff]
  constructor
  · intro hlookup
    exact ⟨_, hlookup, rfl⟩
  · rintro ⟨⟨v, o⟩, hlookup, hrow⟩
    obtain ⟨hv, ho⟩ := Row.mk.inj hrow
    cases ho
    rw [hlookup, List.map_injective_iff.mpr (Option.some_injective _) hv]

/-- The records that a backend reads are the entries of the map. -/
theorem Keeps.records (h : b.Keeps m) : ∃ records, b.records = .ok records ∧ m.Lists records := by
  obtain ⟨records, hrecords⟩ := exists_records fun id row hrow => by
    rw [h id, Option.map_eq_some_iff] at hrow
    obtain ⟨⟨vector, metadata⟩, -, rfl⟩ := hrow
    exact ⟨vector, metadata, rfl⟩
  refine ⟨records, hrecords, nodup_records hrecords, fun r => ?_⟩
  rw [mem_records_iff hrecords, h.lookup_eq_some_iff]

/-- A query gives the ranking of the map. -/
theorem Keeps.answer (h : b.Keeps m) (q : Query) : b.answer q = .ok (m.ranking q) := by
  obtain ⟨records, hrecords, hlists⟩ := h.records
  rw [Backend.answer, query, hrecords, ← hlists.rank_eq q]
  rfl

end Backend

end CodeClones
