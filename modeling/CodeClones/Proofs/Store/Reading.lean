import CodeClones.Proofs.Store.Rows
import Mathlib.Data.Set.List

/-!
# Reading rows

A backend reads all its rows or none of them. A row can be read if no component of its vector is
missing and its metadata does not nest too deep; then it is the row of the record that is read. A
single row that cannot be read makes every reading fail.
-/

namespace CodeClones

theorem eq_ok_of_toOption {ε α : Type} {x : Except ε α} {a : α}
    (h : x.toOption = some a) : x = .ok a := by
  cases x with
  | error e => cases h
  | ok b => exact congrArg Except.ok (Option.some.inj h)

section Traversal

variable {α β ε : Type} {read : α → Except ε β} {xs : List α}

/-- A reader that takes back what `write` makes of every item reads the lists that are written. -/
theorem mapM_eq_ok_iff {write : β → α} (h : ∀ x y, read x = .ok y ↔ x = write y) {ys : List β} :
    xs.mapM read = .ok ys ↔ xs = ys.map write := by
  constructor
  · intro hread
    induction xs generalizing ys with
    | nil =>
      cases hread
      rfl
    | cons x xs ih =>
      rw [List.mapM_cons] at hread
      cases hx : read x with
      | error e =>
        rw [hx] at hread
        cases hread
      | ok y =>
        cases hxs : xs.mapM read with
        | error e =>
          rw [hx, hxs] at hread
          cases hread
        | ok ys =>
          rw [hx, hxs] at hread
          cases hread
          rw [List.map_cons, ← (h x y).mp hx, ← ih hxs]
  · rintro rfl
    induction ys with
    | nil => rfl
    | cons y ys ih =>
      rw [List.map_cons, List.mapM_cons, (h _ y).mpr rfl, ih]
      rfl

/-- What a traversal fails with is what one of its items fails with. -/
theorem exists_of_mapM_eq_error {e : ε} (h : xs.mapM read = .error e) :
    ∃ x ∈ xs, read x = .error e := by
  induction xs with
  | nil => cases h
  | cons x xs ih =>
    rw [List.mapM_cons] at h
    cases hx : read x with
    | error e' =>
      rw [hx] at h
      cases h
      exact ⟨x, List.mem_cons_self .., hx⟩
    | ok y =>
      cases hxs : xs.mapM read with
      | error e' =>
        rw [hx, hxs] at h
        cases h
        obtain ⟨x', hx', hfail⟩ := ih hxs
        exact ⟨x', List.mem_cons_of_mem _ hx', hfail⟩
      | ok ys =>
        rw [hx, hxs] at h
        cases h

end Traversal

/-- A vector is read back exactly if its components are finite. -/
theorem map_writtenComponent_eq_iff {v vector : Embedding} :
    v.map writtenComponent = vector.map some ↔ vector = v ∧ ∀ x ∈ v, x.isFinite := by
  induction v generalizing vector with
  | nil => simp
  | cons x v ih =>
    cases vector with
    | nil => simp
    | cons y vector =>
      rw [List.map_cons, List.map_cons, List.cons.injEq, ih, List.forall_mem_cons, List.cons.injEq,
        writtenComponent]
      split
      · rename_i hx
        rw [Option.some.injEq, eq_comm, and_assoc]
        simp only [hx, true_and]
      · rename_i hx
        simp [hx]

/-- The row that a record is read from, and its identifier. -/
def Record.entry (r : Record) : String × Row := (r.id, ⟨r.vector.map some, .ok r.metadata⟩)

theorem Record.entry_injective : Function.Injective Record.entry := by
  intro r r' h
  obtain ⟨hid, hrow⟩ := Prod.mk.inj h
  obtain ⟨hvector, hmetadata⟩ := Row.mk.inj hrow
  cases r
  cases r'
  cases hid
  cases List.map_injective_iff.mpr (Option.some_injective _) hvector
  cases hmetadata
  rfl

namespace Row

/-- Nothing of the row is missing. -/
def Legible (row : Row) : Prop :=
  ∃ (vector : Embedding) (metadata : Json.Object), row = ⟨vector.map some, .ok metadata⟩

/-- A row without missing components has all that its record has. -/
private theorem eq_map_some_of_missingColumn? {column : Nat} {components : List (Option Float32)}
    (h : missingColumn? column components = none) :
    components = (components.filterMap fun x => x).map some := by
  induction components generalizing column with
  | nil => rfl
  | cons component rest ih =>
    cases component with
    | none => cases h
    | some x => exact congrArg (some x :: ·) (ih h)

private theorem missingColumn?_map_some (column : Nat) (vector : Embedding) :
    missingColumn? column (vector.map some) = none := by
  induction vector generalizing column with
  | nil => rfl
  | cons x vector ih => exact ih _

/-- A record is read from its row, and from no other one. -/
theorem toRecord_eq_ok_iff {id : String} {row : Row} {r : Record} :
    row.toRecord id = .ok r ↔ (id, row) = r.entry := by
  constructor
  · intro h
    unfold toRecord at h
    split at h
    · cases h
    · cases h
    · rename_i metadata hcomplete hmetadata
      cases h
      rw [Record.entry, ← hmetadata]
      exact congrArg (fun vector => (id, Row.mk vector row.metadata))
        (eq_map_some_of_missingColumn? hcomplete)
  · intro h
    obtain ⟨rfl, rfl⟩ := Prod.mk.inj h
    simp only [toRecord, missingColumn?_map_some, List.filterMap_map]
    exact congrArg (fun vector => Except.ok (Record.mk r.id vector r.metadata)) List.filterMap_some

/-- A row that cannot be read is at fault itself. -/
theorem json_of_toRecord {id : String} {row : Row} {e : StoreError}
    (h : row.toRecord id = .error e) : ∃ cause, e = .json cause := by
  unfold toRecord at h
  split at h
  · cases h
    exact ⟨_, rfl⟩
  · cases h
    exact ⟨_, rfl⟩
  · cases h

end Row

namespace Backend

/-- The rows of a backend, in the order in which it reads them. -/
private def rowMap : Backend → SortedMap Row
  | memory _ stored =>
    { entries := stored.entries.map fun (id, vector, metadata) =>
        (id, ⟨vector.map some, .ok metadata⟩)
      ascending := List.pairwise_map.mpr stored.ascending }
  | database db collection => db.rows collection

private theorem get?_rowMap (b : Backend) (id : String) : b.rowMap.get? id = b.row? id := by
  cases b with
  | memory name stored =>
    refine Option.ext fun row => ?_
    rw [SortedMap.get?_eq_some_iff, row?, Option.map_eq_some_iff, rowMap, List.mem_map]
    constructor
    · rintro ⟨⟨key, vector, metadata⟩, he, h⟩
      obtain ⟨rfl, rfl⟩ := Prod.mk.inj h
      exact ⟨_, SortedMap.get?_eq_some_iff.mpr he, rfl⟩
    · rintro ⟨⟨vector, metadata⟩, hget, rfl⟩
      exact ⟨_, SortedMap.get?_eq_some_iff.mp hget, rfl⟩
  | database db collection => rfl

private theorem records_eq_mapM (b : Backend) :
    b.records = b.rowMap.entries.mapM fun e => e.2.toRecord e.1 := by
  cases b with
  | memory name stored =>
    refine ((mapM_eq_ok_iff fun e r => Row.toRecord_eq_ok_iff).mpr ?_).symm
    rw [rowMap, List.map_map]
    rfl
  | database db collection => rfl

/-- What is read are the records whose entries the rows are. -/
private theorem records_eq_ok_iff {b : Backend} {records : List Record} :
    b.records = .ok records ↔ b.rowMap.entries = records.map Record.entry := by
  rw [records_eq_mapM]
  exact mapM_eq_ok_iff fun e r => Row.toRecord_eq_ok_iff

/-- The records that a backend reads are told by its rows. -/
theorem records_congr {b b' : Backend} (h : ∀ id, b'.row? id = b.row? id) :
    b'.records = b.records := by
  have hmap : b'.rowMap = b.rowMap := SortedMap.ext_get? fun id => by
    rw [get?_rowMap, get?_rowMap, h id]
  rw [records_eq_mapM, records_eq_mapM, hmap]

/-- The records that are read are those of the rows. -/
theorem mem_records_iff {b : Backend} {records : List Record} (h : b.records = .ok records)
    {r : Record} : r ∈ records ↔ b.row? r.id = some ⟨r.vector.map some, .ok r.metadata⟩ := by
  rw [← get?_rowMap, SortedMap.get?_eq_some_iff, records_eq_ok_iff.mp h]
  exact (List.mem_map_of_injective Record.entry_injective).symm

/-- Every record is read once. -/
theorem nodup_records {b : Backend} {records : List Record} (h : b.records = .ok records) :
    (records.map Record.id).Nodup := by
  have hkeys := b.rowMap.nodup_keys
  rwa [SortedMap.keys, records_eq_ok_iff.mp h, List.map_map] at hkeys

/-- A backend whose rows can all be read reads them. -/
theorem exists_records {b : Backend} (h : ∀ id row, b.row? id = some row → row.Legible) :
    ∃ records, b.records = .ok records := by
  have hrange : b.rowMap.entries ∈ Set.range (List.map Record.entry) := by
    rw [Set.range_list_map]
    rintro ⟨id, row⟩ he
    rw [← SortedMap.get?_eq_some_iff, get?_rowMap] at he
    obtain ⟨vector, metadata, rfl⟩ := h id row he
    exact ⟨⟨id, vector, metadata⟩, rfl⟩
  obtain ⟨records, hrecords⟩ := hrange
  exact ⟨records, records_eq_ok_iff.mpr hrecords.symm⟩

/-- A row that cannot be read makes the backend fail. -/
theorem records_of_not_legible {b : Backend} {id : String} {row : Row} (h : b.row? id = some row)
    (hrow : ¬row.Legible) : ∃ cause, b.records = .error (.json cause) := by
  cases hrecords : b.records with
  | ok records =>
    rw [← get?_rowMap, SortedMap.get?_eq_some_iff, records_eq_ok_iff.mp hrecords] at h
    obtain ⟨r, _, he⟩ := List.mem_map.mp h
    exact absurd ⟨r.vector, r.metadata, (Prod.mk.inj he).2.symm⟩ hrow
  | error e =>
    rw [records_eq_mapM] at hrecords
    obtain ⟨e', _, hfault⟩ := exists_of_mapM_eq_error hrecords
    obtain ⟨cause, rfl⟩ := Row.json_of_toRecord hfault
    exact ⟨cause, rfl⟩

end Backend

end CodeClones
