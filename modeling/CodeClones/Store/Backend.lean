import CodeClones.Json.Reader
import CodeClones.Json.Writer
import CodeClones.SortedMap
import CodeClones.Store.Ranking

/-!
# Backends

A backend keeps records under their identifiers. One keeps them in memory, the other one as rows of a
database: there a component of a vector that is no finite number is lost, metadata is kept as text,
which cannot be read back where it nests too deep, and the rows of all collections share one table.
-/

namespace CodeClones

/-- A stored vector as a row of a database. -/
structure Row where
  /-- The components; those that are no finite numbers are missing. -/
  vector : List (Option Float32)
  /-- The metadata as read from its text, or the column at which the text nests too deep. -/
  metadata : Except Nat Json.Object

/-- A row with the collection that it belongs to and its identifier there. -/
structure KeyedRow where
  collection : String
  id : String
  row : Row

/-- Collection and identifier tell a row of a table. -/
def KeyedRow.key (r : KeyedRow) : String × String := (r.collection, r.id)

/-- The rows of all collections in one table. -/
structure Database where
  table : List KeyedRow
  /-- No two rows have the same key. -/
  keyed : (table.map KeyedRow.key).Nodup

/-- What a component is read as after it was written. -/
def writtenComponent (x : Float32) : Option Float32 := if x.isFinite then some x else none

/-- What metadata is read as after it was written, or the column at which its text nests too deep to
be read on. -/
def writtenMetadata (metadata : Json.Object) : Except Nat Json.Object :=
  let written := Json.Value.object metadata
  match written.deepColumn? Json.maxNesting 0 with
  | some column => .error column
  | none => .ok (((Json.Value.ofText? written.compact).bind Json.Value.asObject?).getD [])

/-- The row of a record. -/
def Record.toRow (r : Record) : Row := ⟨r.vector.map writtenComponent, writtenMetadata r.metadata⟩

/-- The column behind the first missing component in the text of a vector that starts at `column`. -/
def missingColumn? (column : Nat) : List (Option Float32) → Option Nat
  | [] => none
  | none :: _ => some (column + 4)
  | some x :: rest => missingColumn? (column + (Json.singleText x).length + 1) rest

/-- The record of a row. -/
def Row.toRecord (id : String) (r : Row) : Except StoreError Record :=
  match missingColumn? 1 r.vector, r.metadata with
  | some column, _ => .error (.json (.missingComponent column))
  | none, .error column => .error (.json (.nestedTooDeep column))
  | none, .ok metadata => .ok ⟨id, r.vector.filterMap fun x => x, metadata⟩

namespace Database

instance : EmptyCollection Database := ⟨⟨[], List.nodup_nil⟩⟩

/-- The rows of a collection, by their identifiers. -/
def rows (db : Database) (collection : String) : SortedMap Row :=
  (db.table.filter fun r => r.collection == collection).foldl (fun m r => m.insert r.id r.row) {}

/-- Deletes the rows that a condition tells. -/
def deleteWhere (db : Database) (condition : KeyedRow → Bool) : Database where
  table := db.table.filter fun r => !condition r
  keyed := db.keyed.sublist (List.filter_sublist.map _)

/-- Inserts a row, in place of the one with the same key if there is one. -/
def put (db : Database) (new : KeyedRow) : Database where
  table := new :: (db.deleteWhere fun r => r.key == new.key).table
  keyed := by
    refine List.nodup_cons.mpr ⟨fun hmem => ?_, (db.deleteWhere _).keyed⟩
    obtain ⟨r, hr, hkey⟩ := List.mem_map.mp hmem
    simpa [hkey] using (List.mem_filter.mp hr).2

end Database

/-- Records by identifiers. -/
inductive Backend where
  /-- In memory, under the name of the backend. -/
  | memory (name : String) (stored : SortedMap (Embedding × Json.Object))
  /-- In a collection of a database. -/
  | database (db : Database) (collection : String)

namespace Backend

/-- The name of a backend. -/
def name : Backend → String
  | memory name _ => name
  | database .. => "sqlite"

/-- Adds records; of equal identifiers the last one counts. -/
def upsert (b : Backend) (records : List Record) : Backend :=
  match b with
  | memory name stored =>
    memory name (records.foldl (fun m r => m.insert r.id (r.vector, r.metadata)) stored)
  | database db collection =>
    database (records.foldl (fun db r => db.put ⟨collection, r.id, r.toRow⟩) db) collection

/-- The records, in ascending order of their identifiers. -/
def records : Backend → Except StoreError (List Record)
  | memory _ stored => .ok (stored.entries.map fun (id, vector, metadata) => ⟨id, vector, metadata⟩)
  | database db collection =>
    (db.rows collection).entries.mapM fun (id, row) => row.toRecord id

/-- The best matches among all records. -/
def query (b : Backend) (vector : Embedding) (k : Nat) (threshold : Float32)
    (filter : Json.Object) : Except StoreError (List Match) :=
  b.records.map fun records => rank records vector k threshold filter

/-- The identifiers that are in use. -/
def ids : Backend → List String
  | memory _ stored => stored.keys
  | database db collection => (db.rows collection).keys

/-- The number of records. -/
def count (b : Backend) : Nat := b.ids.length

/-- Removes the record of an identifier. -/
def erase (b : Backend) (id : String) : Backend :=
  match b with
  | memory name stored => memory name (stored.erase id)
  | database db collection =>
    database (db.deleteWhere fun r => r.collection == collection && r.id == id) collection

/-- Removes the records of some identifiers, and tells how many there were. -/
def delete (b : Backend) (ids : List String) : Backend × Nat :=
  let left := ids.foldl erase b
  (left, b.count - left.count)

/-- Removes all records. -/
def clear : Backend → Backend
  | memory name _ => memory name {}
  | database db collection =>
    database (db.deleteWhere fun r => r.collection == collection) collection

end Backend

end CodeClones
