/-!
# Maps in ascending order

A map from texts to values is a list of entries with ascending keys. `get?` is the view of a map:
every operation is told by what it does to `get?`.
-/

namespace CodeClones

/-- A map from texts to values. -/
structure SortedMap (α : Type) where
  entries : List (String × α)
  /-- Every key comes before the keys behind it. -/
  ascending : entries.Pairwise fun a b => a.1 < b.1
  deriving Repr

namespace SortedMap

/-- The map without entries. -/
def empty : SortedMap α := ⟨[], List.Pairwise.nil⟩

instance : EmptyCollection (SortedMap α) := ⟨empty⟩

/-- The value under a key. -/
def get? (m : SortedMap α) (key : String) : Option α := m.entries.lookup key

/-- Whether a key has a value. -/
def contains (m : SortedMap α) (key : String) : Bool := (m.get? key).isSome

/-- The keys in ascending order. -/
def keys (m : SortedMap α) : List String := m.entries.map (·.1)

/-- The number of keys. -/
def size (m : SortedMap α) : Nat := m.entries.length

/-- Puts an entry in its place among entries with ascending keys. -/
def insertEntry (key : String) (value : α) : List (String × α) → List (String × α)
  | [] => [(key, value)]
  | (k, v) :: rest =>
    if key = k then (key, value) :: rest
    else if key < k then (key, value) :: (k, v) :: rest
    else (k, v) :: insertEntry key value rest

/-- Only the new entry joins the others. -/
theorem mem_insertEntry {key : String} {value : α} {entries : List (String × α)}
    {e : String × α} (h : e ∈ insertEntry key value entries) : e = (key, value) ∨ e ∈ entries := by
  induction entries with
  | nil => exact Or.inl (List.mem_singleton.mp h)
  | cons first rest ih =>
    obtain ⟨k, v⟩ := first
    rw [insertEntry] at h
    split at h
    · rcases List.mem_cons.mp h with h | h
      · exact Or.inl h
      · exact Or.inr (List.mem_cons_of_mem _ h)
    · split at h
      · exact List.mem_cons.mp h
      · rcases List.mem_cons.mp h with h | h
        · exact Or.inr (h ▸ List.mem_cons_self ..)
        · exact (ih h).imp id (List.mem_cons_of_mem _)

/-- An entry put in its place keeps the keys ascending. -/
theorem insertEntry_ascending (key : String) (value : α) {entries : List (String × α)}
    (h : entries.Pairwise fun a b => a.1 < b.1) :
    (insertEntry key value entries).Pairwise fun a b => a.1 < b.1 := by
  induction entries with
  | nil => exact List.pairwise_singleton _ _
  | cons first rest ih =>
    obtain ⟨k, v⟩ := first
    obtain ⟨hk, hrest⟩ := List.pairwise_cons.mp h
    rw [insertEntry]
    split
    · rename_i he
      exact List.pairwise_cons.mpr ⟨fun e hm => he ▸ hk e hm, hrest⟩
    · rename_i hne
      split
      · rename_i hlt
        refine List.pairwise_cons.mpr ⟨fun e hm => ?_, h⟩
        rcases List.mem_cons.mp hm with rfl | hm
        · exact hlt
        · exact String.lt_trans hlt (hk e hm)
      · rename_i hnlt
        refine List.pairwise_cons.mpr ⟨fun e hm => ?_, ih hrest⟩
        rcases mem_insertEntry hm with rfl | hm
        · exact Decidable.byContradiction fun hge =>
            hne (String.le_antisymm (String.not_lt.mp hge) (String.not_lt.mp hnlt))
        · exact hk e hm

/-- Sets the value under a key. -/
def insert (m : SortedMap α) (key : String) (value : α) : SortedMap α where
  entries := insertEntry key value m.entries
  ascending := insertEntry_ascending key value m.ascending

/-- Removes a key. -/
def erase (m : SortedMap α) (key : String) : SortedMap α where
  entries := m.entries.filter fun (k, _) => k != key
  ascending := m.ascending.filter _

end SortedMap

end CodeClones
