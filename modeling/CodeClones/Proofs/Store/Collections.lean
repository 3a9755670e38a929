import CodeClones.Proofs.Store.Remembered
import CodeClones.Proofs.Store.Rows

/-!
# Collections of one database

All collections of a database share one table, where the same identifier may stand in several of
them. A call over a connection to a collection is told by the rows of this collection alone, and
leaves the rows of all others as they are. So calls over connections to different collections, in
whatever order they come, give what those of each collection give alone.
-/

namespace CodeClones

/-- A call over a connection to a backend. -/
inductive ConnectionCall where
  | upsert (records : List Record)
  | delete (ids : List String)
  | clear
  | count
  | query (q : Query)

/-- What such a call gives. -/
inductive ConnectionReply where
  | done
  | removed (count : Nat)
  | counted (count : Nat)
  | found (hits : Except StoreError (List Match))

namespace ConnectionCall

/-- Makes a call. -/
def run (b : Backend) : ConnectionCall → Backend × ConnectionReply
  | upsert records => (b.upsert records, .done)
  | delete ids => ((b.delete ids).1, .removed (b.delete ids).2)
  | clear => (b.clear, .done)
  | count => (b, .counted b.count)
  | query q => (b, .found (b.answer q))

/-- What a call does to the rows of a collection, and what it gives, told by these rows alone. -/
def onRows (rows : SortedMap Row) : ConnectionCall → SortedMap Row × ConnectionReply
  | upsert records => (records.foldl (fun m r => m.insert r.id r.toRow) rows, .done)
  | delete ids =>
    (ids.foldl SortedMap.erase rows,
      .removed (rows.keys.length - (ids.foldl SortedMap.erase rows).keys.length))
  | clear => ({}, .done)
  | count => (rows, .counted rows.keys.length)
  | query q =>
    (rows, .found ((rows.entries.mapM fun (id, row) => Row.toRecord id row).map fun records =>
      rank records q.vector q.k q.threshold q.filter))

end ConnectionCall

namespace Database

variable {db : Database} {collection : String}

/-- Makes a call over a connection to a collection. -/
def call (db : Database) (collection : String) (c : ConnectionCall) : Database × ConnectionReply :=
  match c.run (.database db collection) with
  | (.database db _, reply) => (db, reply)
  | (.memory .., reply) => (db, reply)

/-- What calls give, each over a connection to the collection that it comes with. -/
def replies (db : Database) :
    List (String × ConnectionCall) → List (String × ConnectionReply)
  | [] => []
  | (collection, c) :: rest =>
    (collection, (db.call collection c).2) :: (db.call collection c).1.replies rest

/-- A database after such calls. -/
def after (db : Database) (calls : List (String × ConnectionCall)) : Database :=
  calls.foldl (fun db (collection, c) => (db.call collection c).1) db

/-! ## One call -/

/-- Nothing changes in other collections than the named one. -/
def SameElsewhere (collection : String) (db db' : Database) : Prop :=
  ∀ other, other ≠ collection → db'.rows other = db.rows other

theorem SameElsewhere.refl : SameElsewhere collection db db := fun _ _ => rfl

theorem SameElsewhere.trans {db₁ db₂ : Database} (h₁ : SameElsewhere collection db db₁)
    (h₂ : SameElsewhere collection db₁ db₂) : SameElsewhere collection db db₂ :=
  fun other hother => (h₂ other hother).trans (h₁ other hother)

theorem sameElsewhere_put (id : String) (row : Row) :
    SameElsewhere collection db (db.put ⟨collection, id, row⟩) := by
  intro other hother
  rw [rows_put, if_neg hother]

theorem sameElsewhere_foldl_put (records : List Record) :
    SameElsewhere collection db
      (records.foldl (fun db r => db.put ⟨collection, r.id, r.toRow⟩) db) := by
  induction records generalizing db with
  | nil => exact .refl
  | cons r records ih => exact (sameElsewhere_put r.id r.toRow).trans ih

/-- Where a condition tells rows of one collection only, nothing else is deleted. -/
theorem sameElsewhere_deleteWhere {condition : KeyedRow → Bool}
    (h : ∀ r, condition r → r.collection = collection) :
    SameElsewhere collection db (db.deleteWhere condition) := by
  intro other hother
  refine rows_deleteWhere_of_not fun r hr => ?_
  rw [Bool.eq_false_iff]
  intro hcondition
  exact hother (hr.symm.trans (h r hcondition))

/-- To delete identifiers is to erase them from their collection. -/
private theorem foldl_erase (db : Database) (collection : String) (ids : List String) :
    ∃ db', ids.foldl Backend.erase (.database db collection) = .database db' collection ∧
      db'.rows collection = ids.foldl SortedMap.erase (db.rows collection) ∧
        SameElsewhere collection db db' := by
  induction ids generalizing db with
  | nil => exact ⟨db, rfl, rfl, .refl⟩
  | cons id ids ih =>
    obtain ⟨db', hdb', hrows, hothers⟩ :=
      ih (db.deleteWhere fun r => r.collection == collection && r.id == id)
    refine ⟨db', hdb', ?_, .trans (sameElsewhere_deleteWhere fun r hr => ?_) hothers⟩
    · rw [hrows, rows_deleteWhere_key, List.foldl_cons]
    · exact beq_iff_eq.mp (Bool.and_eq_true_iff.mp hr).1

/-- A call gives what the rows of its collection tell and changes these rows only. -/
theorem call_tells (db : Database) (collection : String) (c : ConnectionCall) :
    (db.call collection c).2 = (c.onRows (db.rows collection)).2 ∧
      (db.call collection c).1.rows collection = (c.onRows (db.rows collection)).1 ∧
        SameElsewhere collection db (db.call collection c).1 := by
  cases c with
  | upsert records =>
    exact ⟨rfl, rows_foldl_put records, sameElsewhere_foldl_put records⟩
  | delete ids =>
    obtain ⟨db', hdb', hrows, hothers⟩ := foldl_erase db collection ids
    have hcall : db.call collection (.delete ids) =
        (db', .removed ((db.rows collection).keys.length - (db'.rows collection).keys.length)) := by
      simp only [call, ConnectionCall.run, Backend.delete, hdb', Backend.count, Backend.ids]
    rw [hcall, hrows]
    exact ⟨rfl, rfl, hothers⟩
  | clear =>
    exact ⟨rfl, rows_deleteWhere_collection db collection,
      sameElsewhere_deleteWhere fun r hr => beq_iff_eq.mp hr⟩
  | count => exact ⟨rfl, rfl, .refl⟩
  | query q => exact ⟨rfl, rfl, .refl⟩

/-! ## Calls in any order -/

/-- Calls over connections to any collections, in any order, give to one collection what its own
calls give to it alone, whatever else the database holds. -/
theorem replies_of_collection {alone : Database} (h : alone.rows collection = db.rows collection)
    (calls : List (String × ConnectionCall)) :
    (db.replies calls).filter (·.1 = collection) =
        alone.replies (calls.filter (·.1 = collection)) ∧
      (db.after calls).rows collection =
        (alone.after (calls.filter (·.1 = collection))).rows collection := by
  induction calls generalizing db alone with
  | nil => exact ⟨rfl, h.symm⟩
  | cons p calls ih =>
    obtain ⟨name, c⟩ := p
    obtain ⟨hreply, hrows, hothers⟩ := db.call_tells name c
    by_cases hname : name = collection
    · subst hname
      obtain ⟨hreply', hrows', -⟩ := alone.call_tells name c
      rw [h] at hreply' hrows'
      obtain ⟨hreplies, hlast⟩ := ih (hrows'.trans hrows.symm)
      rw [List.filter_cons_of_pos (by simp), replies, List.filter_cons_of_pos (by simp), replies,
        hreplies, hreply, hreply']
      exact ⟨rfl, hlast⟩
    · obtain ⟨hreplies, hlast⟩ := ih (h.trans (hothers collection (Ne.symm hname)).symm)
      rw [List.filter_cons_of_neg (by simpa using hname), replies,
        List.filter_cons_of_neg (by simpa using hname)]
      exact ⟨hreplies, hlast⟩

/-- A database with a row of another collection, which cannot be read. -/
private def withOther : Database := ({} : Database).put ⟨"other", "a", ⟨[none], .ok []⟩⟩

/-- Calls over two connections that use the same identifier. -/
private def sameIdentifier : List (String × ConnectionCall) := [
  ("symbols", .upsert [⟨"a", [1, 0], []⟩]), ("other", .query ⟨[1, 0], 5, 0, []⟩),
  ("other", .upsert [⟨"a", [0, 1], []⟩]), ("symbols", .count), ("other", .clear),
  ("symbols", .delete ["a", "b"])]

/-- The row and the clearance of the other collection make no difference. -/
theorem replies_of_collection_sameIdentifier :
    ({} : Database).rows "symbols" = withOther.rows "symbols" ∧
      (withOther.replies sameIdentifier).filter (·.1 = "symbols") =
          ({} : Database).replies (sameIdentifier.filter (·.1 = "symbols")) ∧
        (withOther.after sameIdentifier).rows "symbols" =
            (({} : Database).after (sameIdentifier.filter (·.1 = "symbols"))).rows "symbols" ∧
          ({} : Database).replies (sameIdentifier.filter (·.1 = "symbols")) =
            [("symbols", .done), ("symbols", .counted 1), ("symbols", .removed 1)] := by
  have hrows : ({} : Database).rows "symbols" = withOther.rows "symbols" := by
    rw [withOther, rows_put, if_neg (by decide)]
  obtain ⟨hreplies, hlast⟩ := replies_of_collection hrows sameIdentifier
  exact ⟨hrows, hreplies, hlast, rfl⟩

end Database

end CodeClones
