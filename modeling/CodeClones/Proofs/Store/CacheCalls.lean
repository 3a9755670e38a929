import CodeClones.Proofs.Store.Eviction

/-!
# Calls on a cache

In every state that calls can lead to, no two entries have the same key, and there are no more
entries than the cache has room for. In such a state a new key displaces exactly the least used
quarter of the entries of a full cache, however they are listed, and nothing about the others
changes.
-/

namespace CodeClones

/-- A call on a cache, with the time when it is made. -/
inductive CacheCall (α : Type) where
  | insert (now : Nat) (key : String) (results : α)
  | get (now : Nat) (key : String)
  | clear

/-- An entry that was used once more. -/
def CacheEntry.use {α : Type} (e : CacheEntry α) : CacheEntry α := { e with uses := e.uses + 1 }

namespace Cache

variable {α : Type} {c : Cache α} {now : Nat} {key : String} {results : α}

/-- A cache after a call. -/
def call (c : Cache α) : CacheCall α → Cache α
  | .insert now key results => c.insert now key results
  | .get now key => (c.lookup now key).1
  | .clear => c.clear

/-- A cache after some calls. -/
def after (c : Cache α) (calls : List (CacheCall α)) : Cache α := calls.foldl call c

@[simp] theorem after_nil (c : Cache α) : c.after [] = c := rfl

@[simp] theorem after_cons (c : Cache α) (x : CacheCall α) (calls : List (CacheCall α)) :
    c.after (x :: calls) = (c.call x).after calls := rfl

theorem after_append (c : Cache α) (calls more : List (CacheCall α)) :
    c.after (calls ++ more) = (c.after calls).after more := List.foldl_append

/-- A look finds no entry, or a fresh one whose uses it counts, or one that it gives up. -/
theorem Keyed.lookup_cases (h : c.Keyed) (now : Nat) (key : String) :
    (key ∉ c.keys ∧ c.lookup now key = ({ c with misses := c.misses + 1 }, none)) ∨
      ∃ e ∈ c.entries, e.key = key ∧
        ((now - e.storedAt ≤ c.timeToLive ∧ c.lookup now key =
            ({ c with
                entries := c.entries.map fun e' => if e'.key == key then e'.use else e'
                hits := c.hits + 1 },
              some e.results)) ∨
          (c.timeToLive < now - e.storedAt ∧
            c.lookup now key = ({ c.drop key with misses := c.misses + 1 }, none))) := by
  by_cases hkey : key ∈ c.keys
  · obtain ⟨e, he, rfl⟩ := mem_keys_iff.mp hkey
    refine Or.inr ⟨e, he, rfl, ?_⟩
    rw [lookup, h.find?_eq_some_iff.mpr ⟨he, rfl⟩]
    by_cases hfresh : now - e.storedAt ≤ c.timeToLive
    · exact Or.inl ⟨hfresh, if_pos (decide_eq_true hfresh)⟩
    · exact Or.inr ⟨Nat.lt_of_not_le hfresh, if_neg fun h => hfresh (of_decide_eq_true h)⟩
  · have hnone : c.find? key = none := Option.isNone_iff_eq_none.mp (find?_isNone_iff.mpr hkey)
    rw [lookup, hnone]
    exact Or.inl ⟨hkey, rfl⟩

/-! ### What every call keeps -/

/-- A cache whose keys differ and which has room for what it holds. -/
structure Orderly (c : Cache α) : Prop where
  keyed : c.Keyed
  within : c.entries.length ≤ c.maxEntries
  pos : 1 ≤ c.maxEntries

theorem orderly_make (maxEntries timeToLive : Nat) :
    (make maxEntries timeToLive : Cache α).Orderly where
  keyed := List.nodup_nil
  within := Nat.zero_le _
  pos := le_max_right maxEntries 1

theorem keys_map_use (c : Cache α) (key : String) :
    (c.entries.map fun e => if e.key == key then e.use else e).map CacheEntry.key = c.keys := by
  rw [List.map_map]
  refine List.map_congr_left fun e _ => ?_
  rw [Function.comp_apply]
  split <;> rfl

theorem Keyed.drop (h : c.Keyed) (key : String) : (c.drop key).Keyed :=
  List.Nodup.sublist (List.filter_sublist.map _) h

theorem Keyed.makeRoom (h : c.Keyed) : c.makeRoom.Keyed :=
  List.Nodup.sublist (List.filter_sublist.map _) h

/-- What makes room and what stays are all entries. -/
theorem Keyed.length_makeRoom (h : c.Keyed) :
    c.victims.length + c.makeRoom.entries.length = c.entries.length := by
  rw [h.entries_perm_makeRoom.length_eq, List.length_append]

/-- There is one entry under a key in use. -/
theorem Keyed.filter_key_eq (h : c.Keyed) {e : CacheEntry α} (he : e ∈ c.entries) :
    (c.entries.filter fun e' => e'.key == e.key) = [e] := by
  have hmem : ∀ e', e' ∈ c.entries.filter (fun e' => e'.key == e.key) ↔ e' ∈ [e] := by
    intro e'
    rw [List.mem_filter, List.mem_singleton, beq_iff_eq]
    constructor
    · exact fun h' => h.eq_of_key h'.1 he h'.2
    · rintro rfl
      exact ⟨he, rfl⟩
  exact List.perm_singleton.mp ((List.perm_ext_iff_of_nodup (h.of_map.filter _)
    (List.nodup_singleton e)).mpr hmem)

theorem Keyed.length_drop (h : c.Keyed) (hkey : key ∈ c.keys) :
    (c.drop key).entries.length + 1 = c.entries.length := by
  obtain ⟨e, he, rfl⟩ := mem_keys_iff.mp hkey
  have hsplit := List.length_eq_length_filter_add (l := c.entries) (fun e' => e'.key == e.key)
  have hdrop : (c.drop e.key).entries = c.entries.filter fun e' => !(e'.key == e.key) := rfl
  rw [hdrop, hsplit, h.filter_key_eq he, List.length_singleton, Nat.add_comm]

/-- A new entry under a key that no other entry has. -/
private theorem Keyed.cons (h : c.Keyed) (hkey : key ∉ c.keys) :
    ((⟨key, results, now, 0⟩ :: c.entries).map CacheEntry.key).Nodup :=
  List.nodup_cons.mpr ⟨hkey, h⟩

theorem Orderly.insert (h : c.Orderly) (now : Nat) (key : String) (results : α) :
    (c.insert now key results).Orderly := by
  by_cases hkey : key ∈ c.keys
  · rw [insert_of_mem_keys hkey]
    have hgone : key ∉ (c.drop key).keys := by
      intro hmem
      obtain ⟨e, he, hk⟩ := mem_keys_iff.mp hmem
      exact bne_iff_ne.mp (List.mem_filter.mp he).2 hk
    have hlength := h.keyed.length_drop hkey
    refine ⟨(h.keyed.drop key).cons hgone, ?_, h.pos⟩
    exact hlength.trans_le h.within
  · by_cases hfull : c.Full
    · rw [insert_of_full hkey hfull]
      refine ⟨h.keyed.makeRoom.cons fun hmem => hkey (keys_makeRoom_subset hmem), ?_, h.pos⟩
      have hne : c.entries ≠ [] := List.ne_nil_of_length_pos (h.pos.trans hfull)
      have hlength := h.keyed.length_makeRoom
      have hvictims := length_victims hne
      have hwithin := h.within
      change c.makeRoom.entries.length + 1 ≤ c.maxEntries
      omega
    · rw [insert_of_not_full hkey hfull]
      exact ⟨h.keyed.cons hkey, Nat.lt_of_not_le hfull, h.pos⟩

theorem Orderly.lookup (h : c.Orderly) (now : Nat) (key : String) :
    (c.lookup now key).1.Orderly := by
  rcases h.keyed.lookup_cases now key with ⟨-, hlook⟩ | ⟨e, -, -, ⟨-, hlook⟩ | ⟨-, hlook⟩⟩ <;>
    rw [hlook]
  · exact ⟨h.keyed, h.within, h.pos⟩
  · refine ⟨?_, ?_, h.pos⟩
    · rw [Keyed, keys, keys_map_use]
      exact h.keyed
    · change (c.entries.map _).length ≤ c.maxEntries
      rw [List.length_map]
      exact h.within
  · exact ⟨h.keyed.drop key, (List.length_filter_le ..).trans h.within, h.pos⟩

theorem Orderly.call (h : c.Orderly) (x : CacheCall α) : (c.call x).Orderly := by
  cases x with
  | insert now key results => exact h.insert now key results
  | get now key => exact h.lookup now key
  | clear => exact ⟨List.nodup_nil, Nat.zero_le _, h.pos⟩

theorem Orderly.after (h : c.Orderly) (calls : List (CacheCall α)) : (c.after calls).Orderly := by
  induction calls generalizing c with
  | nil => exact h
  | cons x calls ih => exact ih (h.call x)

/-! ### Room for a new key -/

/-- Entries are divided into the least used quarter and the others. -/
structure Divides (entries removed kept : List (CacheEntry α)) : Prop where
  parts : entries.Perm (removed ++ kept)
  length : removed.length = max 1 (entries.length / 4)
  least : ∀ v ∈ removed, ∀ e ∈ kept, v.place < e.place

theorem Orderly.divides (h : c.Orderly) (hfull : c.Full) :
    Divides c.entries c.victims c.makeRoom.entries where
  parts := h.keyed.entries_perm_makeRoom
  length := length_victims (List.ne_nil_of_length_pos (h.pos.trans hfull))
  least _ hv _ he := h.keyed.place_lt hv he

/-- The order in which the entries are listed makes no difference to which of them stay. -/
theorem Keyed.makeRoom_perm (h : c.Keyed) {c' : Cache α} (hperm : c'.entries.Perm c.entries) :
    c'.makeRoom.entries.Perm c.makeRoom.entries := by
  have h' : c'.Keyed := (hperm.map CacheEntry.key).nodup_iff.mpr h
  have hquarter : c'.quarter = c.quarter := by rw [quarter, quarter, hperm.length_eq]
  have hline := h.line_eq_of_perm hperm
  have hkept := h'.makeRoom_entries_perm
  rw [hline, hquarter] at hkept
  exact hkept.trans h.makeRoom_entries_perm.symm

/-- However the entries are listed, the same ones stay when a new key joins a full cache. -/
theorem Keyed.insert_perm_of_full (h : c.Keyed) (hkey : key ∉ c.keys) (hfull : c.Full)
    {c' : Cache α} (hperm : c'.entries.Perm c.entries) (hmax : c'.maxEntries = c.maxEntries) :
    (c'.insert now key results).entries.Perm (⟨key, results, now, 0⟩ :: c.makeRoom.entries) := by
  have hkey' : key ∉ c'.keys := fun hmem => hkey ((hperm.map CacheEntry.key).mem_iff.mp hmem)
  have hfull' : c'.Full := (hmax.trans_le hfull).trans hperm.length_eq.ge
  rw [insert_of_full hkey' hfull']
  exact (h.makeRoom_perm hperm).cons _

/-- A state that calls on a new cache lead to. -/
def Reached (c : Cache α) : Prop :=
  ∃ maxEntries timeToLive calls, c = (make maxEntries timeToLive).after calls

theorem Reached.orderly (h : c.Reached) : c.Orderly := by
  obtain ⟨maxEntries, timeToLive, calls, rfl⟩ := h
  exact (orderly_make maxEntries timeToLive).after calls

/-- A new key makes a full cache give up the least used quarter of its entries, however they are
listed, and keep the others as they are; a key that is in use makes it give up nothing but the older
answer. -/
theorem insert_displaces (h : c.Reached) (now : Nat) (key : String) (results : α) :
    (key ∉ c.keys → c.Full →
      ∃ removed kept, Divides c.entries removed kept ∧
        c.insert now key results =
          { c with
            entries := ⟨key, results, now, 0⟩ :: kept
            evictions := c.evictions + removed.length } ∧
        ∀ listing : List (CacheEntry α), listing.Perm c.entries →
          (({ c with entries := listing } : Cache α).insert now key results).entries.Perm
            (⟨key, results, now, 0⟩ :: kept)) ∧
    (key ∈ c.keys →
      c.insert now key results =
          { c with entries := ⟨key, results, now, 0⟩ :: c.entries.filter (·.key != key) } ∧
        (c.insert now key results).entries.length = c.entries.length) := by
  constructor
  · intro hkey hfull
    exact ⟨c.victims, c.makeRoom.entries, h.orderly.divides hfull, insert_of_full hkey hfull,
      fun listing hperm => h.orderly.keyed.insert_perm_of_full hkey hfull hperm rfl⟩
  · intro hkey
    rw [insert_of_mem_keys hkey]
    exact ⟨rfl, h.orderly.keyed.length_drop hkey⟩

/-- A full cache of four entries, all of which but one were used. -/
def fourEntries : Cache Nat :=
  (make 4 60).after [.insert 1 "a" 10, .insert 2 "b" 20, .insert 3 "c" 30, .insert 4 "d" 40,
    .get 5 "a", .get 6 "b", .get 7 "d"]

/-- A fifth key displaces the entry that was not used, and a key of the four displaces none. -/
theorem insert_displaces_fourEntries :
    (fourEntries.Reached ∧ "e" ∉ fourEntries.keys ∧ fourEntries.Full ∧ "b" ∈ fourEntries.keys) ∧
      (∃ kept, Divides fourEntries.entries [⟨"c", 30, 3, 0⟩] kept ∧
        fourEntries.insert 8 "e" 50 =
          { fourEntries with entries := ⟨"e", 50, 8, 0⟩ :: kept, evictions := 1 }) ∧
      (fourEntries.insert 8 "b" 50).entries.length = fourEntries.entries.length := by
  have hreached : fourEntries.Reached := ⟨4, 60, _, rfl⟩
  have hkey : "e" ∉ fourEntries.keys := by decide
  have hfull : fourEntries.Full := by decide
  have hused : "b" ∈ fourEntries.keys := by decide
  obtain ⟨removed, kept, hdivides, hinsert, -⟩ :=
    (insert_displaces hreached 8 "e" 50).1 hkey hfull
  have hlength := ((insert_displaces hreached 8 "b" 50).2 hused).2
  obtain ⟨v, rfl⟩ : ∃ v, removed = [v] := List.length_eq_one_iff.mp hdivides.length
  have hentries : fourEntries.entries =
      [⟨"d", 40, 4, 1⟩, ⟨"c", 30, 3, 0⟩, ⟨"b", 20, 2, 1⟩, ⟨"a", 10, 1, 1⟩] := rfl
  have hleast : ∀ e ∈ fourEntries.entries, ¬e.place < (⟨"c", 30, 3, 0⟩ : CacheEntry Nat).place := by
    rw [hentries]
    decide
  have hc : (⟨"c", 30, 3, 0⟩ : CacheEntry Nat) ∈ [v] ++ kept := by
    rw [← hdivides.parts.mem_iff, hentries]
    simp
  -- no entry stands before the one that was not used, so that it does not stay
  have hv : v = ⟨"c", 30, 3, 0⟩ := by
    rcases List.mem_append.mp hc with hc | hc
    · exact (List.mem_singleton.mp hc).symm
    · have hmem : v ∈ fourEntries.entries := hdivides.parts.mem_iff.mpr (by simp)
      exact absurd (hdivides.least v (List.mem_singleton_self v) _ hc) (hleast v hmem)
  subst hv
  exact ⟨⟨hreached, hkey, hfull, hused⟩, ⟨kept, hdivides, hinsert⟩, hlength⟩

end Cache

end CodeClones
