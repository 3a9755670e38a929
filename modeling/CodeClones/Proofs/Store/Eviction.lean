import CodeClones.Store.Cache
import Mathlib.Data.List.Nodup
import Mathlib.Data.Prod.Lex
import Mathlib.Data.String.Basic

/-!
# Room for a new entry

The entries of a cache stand in one line: first by their uses, then by the time when they were
stored, then by their keys. A full cache makes room for a new key by giving up the front of the
line. As no two entries have the same key, the line does not depend on how the entries are listed.
-/

namespace CodeClones

variable {α : Type}

/-- The place of an entry in the line. -/
def CacheEntry.place (e : CacheEntry α) : ℕ ×ₗ ℕ ×ₗ String :=
  toLex (e.uses, toLex (e.storedAt, e.key))

theorem CacheEntry.before_iff {a b : CacheEntry α} : a.before b ↔ a.place ≤ b.place := by
  simp only [before, place, Prod.Lex.toLex_le_toLex, Bool.or_eq_true, Bool.and_eq_true,
    decide_eq_true_eq, beq_iff_eq]

/-- The place of an entry tells its key. -/
theorem CacheEntry.key_eq_of_place {a b : CacheEntry α} (h : a.place = b.place) : a.key = b.key :=
  congrArg (fun p : ℕ ×ₗ ℕ ×ₗ String => (ofLex (ofLex p).2).2) h

namespace Cache

variable {c : Cache α} {now : Nat} {key : String} {results : α}

/-- The keys of the entries. -/
def keys (c : Cache α) : List String := c.entries.map CacheEntry.key

/-- No two entries have the same key. -/
def Keyed (c : Cache α) : Prop := c.keys.Nodup

theorem Keyed.eq_of_key (h : c.Keyed) {a b : CacheEntry α} (ha : a ∈ c.entries)
    (hb : b ∈ c.entries) (hkey : a.key = b.key) : a = b :=
  List.inj_on_of_nodup_map h ha hb hkey

theorem mem_keys_iff : key ∈ c.keys ↔ ∃ e ∈ c.entries, e.key = key := List.mem_map

theorem find?_isNone_iff : (c.find? key).isNone ↔ key ∉ c.keys := by
  rw [find?, Option.isNone_iff_eq_none, List.find?_eq_none, mem_keys_iff]
  simp only [beq_iff_eq, not_exists, not_and]

/-- The entry under a key is found. -/
theorem Keyed.find?_eq_some_iff (h : c.Keyed) {e : CacheEntry α} :
    c.find? key = some e ↔ e ∈ c.entries ∧ e.key = key := by
  constructor
  · intro hfind
    exact ⟨List.mem_of_find?_eq_some hfind, by simpa using List.find?_some hfind⟩
  · rintro ⟨he, rfl⟩
    have hsome : (c.find? e.key).isSome := List.find?_isSome.mpr ⟨e, he, beq_self_eq_true _⟩
    obtain ⟨e', he'⟩ := Option.isSome_iff_exists.mp hsome
    have hkey : e'.key = e.key := by simpa using List.find?_some he'
    rw [he', h.eq_of_key (List.mem_of_find?_eq_some he') he hkey]

/-! ### The line -/

/-- The entries in the order in which they make room. -/
def line (c : Cache α) : List (CacheEntry α) := c.entries.mergeSort CacheEntry.before

/-- The entries that make room next. -/
def victims (c : Cache α) : List (CacheEntry α) := c.line.take c.quarter

theorem line_perm (c : Cache α) : c.line.Perm c.entries := List.mergeSort_perm ..

theorem pairwise_line (c : Cache α) : c.line.Pairwise fun a b => a.place ≤ b.place := by
  have hsorted : c.line.Pairwise fun a b => a.before b := by
    refine List.pairwise_mergeSort (fun a b d hab hbd => ?_) (fun a b => ?_) c.entries
    · exact CacheEntry.before_iff.mpr
        ((CacheEntry.before_iff.mp hab).trans (CacheEntry.before_iff.mp hbd))
    · rw [Bool.or_eq_true, CacheEntry.before_iff, CacheEntry.before_iff]
      exact le_total a.place b.place
  exact hsorted.imp fun h => CacheEntry.before_iff.mp h

/-- In whatever order the entries are listed, they make room in the same order. -/
theorem Keyed.line_eq_of_perm (h : c.Keyed) {c' : Cache α} (hperm : c'.entries.Perm c.entries) :
    c'.line = c.line := by
  have hlines : c'.line.Perm c.line := (c'.line_perm.trans hperm).trans c.line_perm.symm
  refine hlines.eq_of_pairwise (fun a b ha hb hab hba => ?_) c'.pairwise_line c.pairwise_line
  have hkey := CacheEntry.key_eq_of_place (le_antisymm hab hba)
  exact h.eq_of_key (c.line_perm.mem_iff.mp (hlines.mem_iff.mp ha)) (c.line_perm.mem_iff.mp hb) hkey

/-- Every fourth entry makes room, but at least one. -/
theorem length_victims (h : c.entries ≠ []) : c.victims.length = max 1 (c.entries.length / 4) := by
  have hpos := List.length_pos_iff.mpr h
  rw [victims, List.length_take, c.line_perm.length_eq, quarter]
  omega

/-- Of entries in two parts, those without a key of the first part are the second part. -/
private theorem filter_perm_of_parts {entries front rest : List (CacheEntry α)}
    (hparts : (front ++ rest).Perm entries) (hnodup : (entries.map CacheEntry.key).Nodup) :
    (entries.filter fun e => !(front.map CacheEntry.key).contains e.key).Perm rest := by
  have hdisjoint : (front.map CacheEntry.key).Disjoint (rest.map CacheEntry.key) := by
    have := (hparts.map CacheEntry.key).nodup_iff.mpr hnodup
    rw [List.map_append] at this
    exact this.disjoint
  have hgone : (front.filter fun e => !(front.map CacheEntry.key).contains e.key) = [] := by
    refine List.filter_eq_nil_iff.mpr fun e he => ?_
    simpa using ⟨e, he, rfl⟩
  have hkept : (rest.filter fun e => !(front.map CacheEntry.key).contains e.key) = rest := by
    refine List.filter_eq_self.mpr fun e he => ?_
    rw [Bool.not_eq_true', List.contains_eq_mem, decide_eq_false_iff_not]
    exact fun hmem => hdisjoint hmem (List.mem_map_of_mem he)
  have hfilter := (hparts.filter fun e => !(front.map CacheEntry.key).contains e.key).symm
  rwa [List.filter_append, hgone, hkept, List.nil_append] at hfilter

/-- The entries that stay are those behind the front of the line. -/
theorem Keyed.makeRoom_entries_perm (h : c.Keyed) :
    c.makeRoom.entries.Perm (c.line.drop c.quarter) := by
  have hparts : (c.victims ++ c.line.drop c.quarter).Perm c.entries := by
    rw [victims, List.take_append_drop]
    exact c.line_perm
  exact filter_perm_of_parts hparts h

/-- The victims are the least of all entries: nothing that stays is at or before one of them. -/
theorem Keyed.place_lt (h : c.Keyed) {v e : CacheEntry α} (hv : v ∈ c.victims)
    (he : e ∈ c.makeRoom.entries) : v.place < e.place := by
  have hsplit : (c.victims ++ c.line.drop c.quarter).Pairwise fun a b => a.place ≤ b.place := by
    rw [victims, List.take_append_drop]
    exact c.pairwise_line
  have hle : v.place ≤ e.place :=
    (List.pairwise_append.mp hsplit).2.2 v hv e (h.makeRoom_entries_perm.mem_iff.mp he)
  have hne : v.place ≠ e.place := by
    intro heq
    have hkey := CacheEntry.key_eq_of_place heq
    have hstays := (List.mem_filter.mp he).2
    simp only [List.contains_eq_mem, Bool.not_eq_true', decide_eq_false_iff_not] at hstays
    exact hstays (hkey ▸ List.mem_map_of_mem hv)
  exact lt_of_le_of_ne hle hne

theorem Keyed.entries_perm_makeRoom (h : c.Keyed) :
    c.entries.Perm (c.victims ++ c.makeRoom.entries) := by
  refine (c.line_perm.symm.trans ?_).trans (h.makeRoom_entries_perm.symm.append_left c.victims)
  rw [victims, List.take_append_drop]

/-! ### The ways in which an answer is stored -/

/-- Whether a cache has no place for another entry. -/
def Full (c : Cache α) : Prop := c.maxEntries ≤ c.entries.length

instance : Decidable c.Full := inferInstanceAs (Decidable (_ ≤ _))

theorem drop_eq_self (h : key ∉ c.keys) : c.drop key = c := by
  have hall : ∀ e ∈ c.entries, (e.key != key) = true := fun e he =>
    bne_iff_ne.mpr fun hkey => h (mem_keys_iff.mpr ⟨e, he, hkey⟩)
  rw [drop, List.filter_eq_self.mpr hall]

theorem keys_makeRoom_subset : c.makeRoom.keys ⊆ c.keys :=
  List.map_subset _ (List.filter_subset_self _)

/-- A new key takes the place of the least used entries of a full cache. -/
theorem insert_of_full (hkey : key ∉ c.keys) (hfull : c.Full) :
    c.insert now key results =
      { c with
        entries := ⟨key, results, now, 0⟩ :: c.makeRoom.entries
        evictions := c.evictions + c.victims.length } := by
  have hcond : ((c.find? key).isNone && decide (c.maxEntries ≤ c.entries.length)) = true := by
    rw [find?_isNone_iff.mpr hkey, Bool.true_and]
    exact decide_eq_true hfull
  unfold insert
  dsimp only
  rw [if_pos hcond, drop_eq_self fun hmem => hkey (keys_makeRoom_subset hmem)]
  simp only [makeRoom, victims, line, List.length_map]

/-- A new key joins the entries of a cache that has room. -/
theorem insert_of_not_full (hkey : key ∉ c.keys) (hroom : ¬c.Full) :
    c.insert now key results = { c with entries := ⟨key, results, now, 0⟩ :: c.entries } := by
  have hcond : ¬((c.find? key).isNone && decide (c.maxEntries ≤ c.entries.length)) = true := by
    rw [Bool.and_eq_true, decide_eq_true_eq]
    exact fun h => hroom h.2
  unfold insert
  dsimp only
  rw [if_neg hcond, drop_eq_self hkey]

/-- A key that is in use keeps its place and loses its answer. -/
theorem insert_of_mem_keys (hkey : key ∈ c.keys) :
    c.insert now key results =
      { c with entries := ⟨key, results, now, 0⟩ :: c.entries.filter (·.key != key) } := by
  have hcond : ¬((c.find? key).isNone && decide (c.maxEntries ≤ c.entries.length)) = true := by
    rw [Bool.and_eq_true, find?_isNone_iff]
    exact fun h => h.1 hkey
  unfold insert
  dsimp only
  rw [if_neg hcond]
  rfl

end Cache

end CodeClones
