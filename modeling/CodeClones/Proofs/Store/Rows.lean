import CodeClones.Proofs.SortedMap
import CodeClones.Store.Backend

/-!
# What a backend keeps

A backend is told by the row that it keeps under every identifier. Both kinds of backends change
their rows in the same way; they differ only in the row that they make of a record.
-/

namespace CodeClones

namespace Database

variable {db : Database} {collection id : String}

/-- The rows of a collection are those of the table with its name. -/
theorem get?_rows_eq_some_iff {row : Row} :
    (db.rows collection).get? id = some row ↔ ⟨collection, id, row⟩ ∈ db.table := by
  have hkeyed : ∀ r ∈ db.table.filter (·.collection == collection),
      ∀ r' ∈ db.table.filter (·.collection == collection), r.id = r'.id → r.row = r'.row := by
    intro r hr r' hr' hid
    obtain ⟨hr, hc⟩ := List.mem_filter.mp hr
    obtain ⟨hr', hc'⟩ := List.mem_filter.mp hr'
    have hkey : r.key = r'.key := Prod.ext ((beq_iff_eq.mp hc).trans (beq_iff_eq.mp hc').symm) hid
    rw [List.inj_on_of_nodup_map db.keyed hr hr' hkey]
  rw [rows, SortedMap.get?_foldl_insert, SortedMap.get?_empty, Option.or_none,
    SortedMap.find?_reverse_eq_some_iff hkeyed]
  constructor
  · rintro ⟨⟨c, i, r⟩, hr, rfl, rfl⟩
    obtain ⟨hr, hc⟩ := List.mem_filter.mp hr
    exact beq_iff_eq.mp hc ▸ hr
  · intro hr
    exact ⟨_, List.mem_filter.mpr ⟨hr, beq_self_eq_true _⟩, rfl, rfl⟩

/-- The rows that a condition tells are deleted, and no others. -/
theorem get?_rows_deleteWhere (condition : KeyedRow → Bool) :
    ((db.deleteWhere condition).rows collection).get? id =
      ((db.rows collection).get? id).filter fun row => !condition ⟨collection, id, row⟩ := by
  refine Option.ext fun row => ?_
  rw [get?_rows_eq_some_iff, Option.filter_eq_some_iff, get?_rows_eq_some_iff, deleteWhere,
    List.mem_filter]

/-- A row is inserted into its collection, and no other collection changes. -/
theorem rows_put (new : KeyedRow) : (db.put new).rows collection =
    if collection = new.collection then (db.rows collection).insert new.id new.row
    else db.rows collection := by
  refine SortedMap.ext_get? fun id => Option.ext fun row => ?_
  rw [get?_rows_eq_some_iff, put, List.mem_cons, ← get?_rows_eq_some_iff, get?_rows_deleteWhere]
  obtain ⟨c, i, r⟩ := new
  by_cases hc : collection = c
  · subst hc
    by_cases hi : id = i
    · simp [KeyedRow.key, SortedMap.get?_insert, hi, eq_comm]
    · simp [KeyedRow.key, SortedMap.get?_insert, hi]
  · simp [KeyedRow.key, hc]

/-- To delete the row of an identifier is to erase it from its collection. -/
@[simp] theorem rows_deleteWhere_key (db : Database) (collection id : String) :
    (db.deleteWhere fun r => r.collection == collection && r.id == id).rows collection =
      (db.rows collection).erase id := by
  refine SortedMap.ext_get? fun key => ?_
  rw [get?_rows_deleteWhere, SortedMap.get?_erase]
  cases (db.rows collection).get? key with
  | none => simp
  | some row => by_cases hkey : key = id <;> simp [Option.filter, hkey]

/-- Nothing is left of a collection whose rows are all deleted. -/
@[simp] theorem rows_deleteWhere_collection (db : Database) (collection : String) :
    (db.deleteWhere fun r => r.collection == collection).rows collection = {} := by
  refine SortedMap.ext_get? fun key => ?_
  rw [get?_rows_deleteWhere, SortedMap.get?_empty]
  cases (db.rows collection).get? key <;> simp [Option.filter]

/-- A condition deletes nothing of a collection that it tells no row of. -/
theorem rows_deleteWhere_of_not {condition : KeyedRow → Bool}
    (h : ∀ r, r.collection = collection → condition r = false) :
    (db.deleteWhere condition).rows collection = db.rows collection := by
  refine SortedMap.ext_get? fun id => ?_
  rw [get?_rows_deleteWhere]
  cases (db.rows collection).get? id with
  | none => rfl
  | some row => simp [Option.filter, h ⟨collection, id, row⟩ rfl]

/-- To insert rows into a collection is to insert them into its map. -/
theorem rows_foldl_put (records : List Record) :
    (records.foldl (fun db r => db.put ⟨collection, r.id, r.toRow⟩) db).rows collection =
      records.foldl (fun m r => m.insert r.id r.toRow) (db.rows collection) := by
  induction records generalizing db with
  | nil => rfl
  | cons r records ih => rw [List.foldl_cons, List.foldl_cons, ih, rows_put, if_pos rfl]

end Database

namespace Backend

/-- The row under an identifier. -/
def row? (b : Backend) (id : String) : Option Row :=
  match b with
  | memory _ stored =>
    (stored.get? id).map fun (vector, metadata) => ⟨vector.map some, .ok metadata⟩
  | database db collection => (db.rows collection).get? id

/-- The row that the backend makes of a record. -/
def rowOf : Backend → Record → Row
  | memory .. => fun r => ⟨r.vector.map some, .ok r.metadata⟩
  | database .. => Record.toRow

/-- The collection that the rows of a backend are kept in, unless they are kept in memory. -/
def collection? : Backend → Option String
  | memory .. => none
  | database _ collection => some collection

/-- The last of some records that has an identifier. -/
def lastWith (records : List Record) (id : String) : Option Record :=
  records.reverse.find? fun r => r.id == id

theorem lastWith_eq_none_iff {records : List Record} {id : String} :
    lastWith records id = none ↔ ∀ r ∈ records, r.id ≠ id := by
  simp [lastWith, List.find?_eq_none]

theorem lastWith_some {records : List Record} {id : String} {r : Record}
    (h : lastWith records id = some r) : r ∈ records ∧ r.id = id :=
  ⟨List.mem_reverse.mp (List.mem_of_find?_eq_some h), by simpa using List.find?_some h⟩

/-- The last of equal identifiers counts, and other rows stay. -/
theorem row?_upsert (b : Backend) (records : List Record) (id : String) :
    (b.upsert records).row? id = ((lastWith records id).map b.rowOf).or (b.row? id) := by
  cases b with
  | memory name stored =>
    simp only [upsert, row?, rowOf, lastWith]
    rw [SortedMap.get?_foldl_insert Record.id fun r : Record => (r.vector, r.metadata),
      Option.map_or, Option.map_map]
    rfl
  | database db collection =>
    simp only [upsert, row?, rowOf, lastWith, Database.rows_foldl_put]
    exact SortedMap.get?_foldl_insert Record.id Record.toRow _ _ _

@[simp] theorem rowOf_upsert (b : Backend) (records : List Record) :
    (b.upsert records).rowOf = b.rowOf := by
  cases b <;> rfl

@[simp] theorem collection?_upsert (b : Backend) (records : List Record) :
    (b.upsert records).collection? = b.collection? := by
  cases b <;> rfl

private theorem row?_erase (b : Backend) (key id : String) :
    (b.erase key).row? id = if id = key then none else b.row? id := by
  cases b with
  | memory name stored =>
    simp only [erase, row?, SortedMap.get?_erase]
    split <;> rfl
  | database db collection =>
    simp only [erase, row?, Database.rows_deleteWhere_key, SortedMap.get?_erase]

private theorem rowOf_erase (b : Backend) (key : String) : (b.erase key).rowOf = b.rowOf := by
  cases b <;> rfl

/-- Exactly the listed rows are removed. -/
theorem row?_delete (b : Backend) (ids : List String) (id : String) :
    (b.delete ids).1.row? id = if id ∈ ids then none else b.row? id := by
  simp only [delete]
  induction ids generalizing b with
  | nil => simp
  | cons key ids ih =>
    rw [List.foldl_cons, ih, row?_erase]
    by_cases h : id ∈ ids
    · simp [h]
    · simp [h]

@[simp] theorem rowOf_delete (b : Backend) (ids : List String) :
    (b.delete ids).1.rowOf = b.rowOf := by
  simp only [delete]
  induction ids generalizing b with
  | nil => rfl
  | cons key ids ih => rw [List.foldl_cons, ih, rowOf_erase]

@[simp] theorem collection?_delete (b : Backend) (ids : List String) :
    (b.delete ids).1.collection? = b.collection? := by
  simp only [delete]
  induction ids generalizing b with
  | nil => rfl
  | cons key ids ih =>
    rw [List.foldl_cons, ih]
    cases b <;> rfl

@[simp] theorem row?_clear (b : Backend) (id : String) : b.clear.row? id = none := by
  cases b with
  | memory name stored => rfl
  | database db collection => simp [clear, row?]

@[simp] theorem rowOf_clear (b : Backend) : b.clear.rowOf = b.rowOf := by
  cases b <;> rfl

@[simp] theorem collection?_clear (b : Backend) : b.clear.collection? = b.collection? := by
  cases b <;> rfl

/-- Backends with the same collection, or both without one, make the same rows. -/
theorem rowOf_of_collection? {b b' : Backend} (h : b'.collection? = b.collection?) :
    b'.rowOf = b.rowOf := by
  cases b <;> cases b' <;> first | rfl | cases h

end Backend

end CodeClones
