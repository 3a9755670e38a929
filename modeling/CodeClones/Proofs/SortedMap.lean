import CodeClones.SortedMap
import Mathlib.Data.List.Sort
import Mathlib.Data.String.Basic

/-!
# Laws of maps in ascending order

Every operation is told by what it does to `get?`, and `get?` determines the map, since its entries
stand in ascending order of their keys.
-/

namespace CodeClones.SortedMap

variable {α β : Type}

/-- Keys in ascending order are pairwise different. -/
theorem nodup_keys (m : SortedMap α) : m.keys.Nodup :=
  List.Pairwise.map _ (fun _ _ h he => absurd (he ▸ h) (String.lt_irrefl _)) m.ascending

/-- The keys stand in ascending order. -/
theorem ascending_keys (m : SortedMap α) : m.keys.Pairwise (· < ·) :=
  List.pairwise_map.mpr m.ascending

private theorem lookup_eq_some_iff {entries : List (String × α)} {key : String} {value : α}
    (h : (entries.map (·.1)).Nodup) :
    entries.lookup key = some value ↔ (key, value) ∈ entries := by
  induction entries with
  | nil => simp
  | cons e rest ih =>
    obtain ⟨k, v⟩ := e
    obtain ⟨hk, hrest⟩ := List.nodup_cons.mp h
    rw [List.lookup_cons, List.mem_cons]
    by_cases he : key = k
    · subst he
      have hnot : (key, value) ∉ rest := fun hm => hk (List.mem_map.mpr ⟨_, hm, rfl⟩)
      simp only [beq_self_eq_true, Option.some.injEq, Prod.mk.injEq, true_and, hnot, or_false,
        eq_comm]
    · have hb : (key == k) = false := beq_eq_false_iff_ne.mpr he
      rw [hb, ih hrest]
      simp [he]

/-- A value stands under a key exactly if the two are an entry. -/
theorem get?_eq_some_iff {m : SortedMap α} {key : String} {value : α} :
    m.get? key = some value ↔ (key, value) ∈ m.entries :=
  lookup_eq_some_iff m.nodup_keys

/-- The keys are those that have a value. -/
theorem mem_keys_iff {m : SortedMap α} {key : String} :
    key ∈ m.keys ↔ (m.get? key).isSome := by
  rw [Option.isSome_iff_exists, keys, List.mem_map]
  constructor
  · rintro ⟨⟨k, v⟩, hm, rfl⟩
    exact ⟨v, get?_eq_some_iff.mpr hm⟩
  · rintro ⟨v, hv⟩
    exact ⟨(key, v), get?_eq_some_iff.mp hv, rfl⟩

/-- Maps with equal values under all keys are equal. -/
theorem ext_get? {m n : SortedMap α} (h : ∀ key, m.get? key = n.get? key) : m = n := by
  have hmem : ∀ e, e ∈ m.entries ↔ e ∈ n.entries := by
    intro ⟨key, value⟩
    rw [← get?_eq_some_iff, h key, get?_eq_some_iff]
  have hperm : m.entries.Perm n.entries :=
    (List.perm_ext_iff_of_nodup m.nodup_keys.of_map n.nodup_keys.of_map).mpr hmem
  have he : m.entries = n.entries := hperm.eq_of_pairwise
    (fun _ _ _ _ hab hba => absurd hba (String.lt_asymm hab)) m.ascending n.ascending
  cases m
  cases n
  simpa using he

/-- Maps that have values under the same keys have the same keys. -/
theorem keys_congr {m : SortedMap α} {n : SortedMap β}
    (h : ∀ key, (m.get? key).isSome = (n.get? key).isSome) : m.keys = n.keys := by
  have hmem : ∀ key, key ∈ m.keys ↔ key ∈ n.keys := by
    intro key
    rw [mem_keys_iff, mem_keys_iff, h key]
  exact ((List.perm_ext_iff_of_nodup m.nodup_keys n.nodup_keys).mpr hmem).eq_of_pairwise
    (fun _ _ _ _ hab hba => absurd hba (String.lt_asymm hab)) m.ascending_keys n.ascending_keys

@[simp] theorem get?_empty (key : String) : ({} : SortedMap α).get? key = none := rfl

theorem lookup_insertEntry (key : String) (value : α) (entries : List (String × α))
    (k : String) :
    (insertEntry key value entries).lookup k =
      if k = key then some value else entries.lookup k := by
  induction entries with
  | nil =>
    by_cases h : k = key
    · simp [insertEntry, h]
    · simp [insertEntry, h]
  | cons e rest ih =>
    obtain ⟨k', v⟩ := e
    rw [insertEntry]
    by_cases he : key = k'
    · subst he
      by_cases h : k = key
      · simp [h]
      · simp [h, List.lookup_cons, beq_eq_false_iff_ne.mpr h]
    · by_cases hlt : key < k'
      · by_cases h : k = key
        · simp [he, hlt, h]
        · simp [he, hlt, h, List.lookup_cons (a := k) (k := key), beq_eq_false_iff_ne.mpr h]
      · simp only [he, hlt, if_false, List.lookup_cons, ih]
        by_cases h : k = key
        · subst h
          simp [beq_eq_false_iff_ne.mpr he]
        · simp [h]

/-- Setting a value changes nothing under other keys. -/
theorem get?_insert (m : SortedMap α) (key : String) (value : α) (k : String) :
    (m.insert key value).get? k = if k = key then some value else m.get? k :=
  lookup_insertEntry key value m.entries k

/-- Removing a key changes nothing under other keys. -/
theorem get?_erase (m : SortedMap α) (key k : String) :
    (m.erase key).get? k = if k = key then none else m.get? k := by
  apply Option.ext
  intro v
  by_cases h : k = key
  · simp [get?_eq_some_iff, erase, h]
  · simp only [h, if_false, get?_eq_some_iff, erase, List.mem_filter, bne_iff_ne, ne_eq,
      not_false_eq_true, and_true]

/-- After many insertions the last one under a key counts. -/
theorem get?_foldl_insert (key : β → String) (value : β → α) (xs : List β) (m : SortedMap α)
    (k : String) :
    (xs.foldl (fun m x => m.insert (key x) (value x)) m).get? k =
      ((xs.reverse.find? fun x => key x == k).map value).or (m.get? k) := by
  induction xs generalizing m with
  | nil => rfl
  | cons x xs ih =>
    rw [List.foldl_cons, ih, get?_insert, List.reverse_cons, List.find?_append, Option.map_or,
      Option.or_assoc]
    by_cases h : k = key x
    · simp [h]
    · simp [h, beq_eq_false_iff_ne.mpr (Ne.symm h)]

/-- Where equal keys have equal values, any element with a key tells what stands under it. -/
theorem find?_reverse_eq_some_iff {key : β → String} {value : β → α} {xs : List β}
    (h : ∀ x ∈ xs, ∀ y ∈ xs, key x = key y → value x = value y) {k : String} {v : α} :
    (xs.reverse.find? fun x => key x == k).map value = some v ↔
      ∃ x ∈ xs, key x = k ∧ value x = v := by
  rw [Option.map_eq_some_iff]
  constructor
  · rintro ⟨x, hx, hv⟩
    exact ⟨x, List.mem_reverse.mp (List.mem_of_find?_eq_some hx), by simpa using List.find?_some hx,
      hv⟩
  · rintro ⟨x, hx, hk, hv⟩
    have hsome : (xs.reverse.find? fun x => key x == k).isSome :=
      List.find?_isSome.mpr ⟨x, List.mem_reverse.mpr hx, beq_iff_eq.mpr hk⟩
    obtain ⟨y, hy⟩ := Option.isSome_iff_exists.mp hsome
    have hky : key y = k := by simpa using List.find?_some hy
    have hy' : y ∈ xs := List.mem_reverse.mp (List.mem_of_find?_eq_some hy)
    exact ⟨y, hy, (h y hy' x hx (hky.trans hk.symm)).trans hv⟩

/-- After many removals exactly the removed keys are gone. -/
theorem get?_foldl_erase (keys : List String) (m : SortedMap α) (k : String) :
    (keys.foldl erase m).get? k = if k ∈ keys then none else m.get? k := by
  induction keys generalizing m with
  | nil => simp
  | cons key keys ih =>
    rw [List.foldl_cons, ih, get?_erase]
    by_cases h : k ∈ keys
    · simp [h]
    · simp [h]

end CodeClones.SortedMap
