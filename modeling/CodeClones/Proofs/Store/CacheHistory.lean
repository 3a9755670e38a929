import CodeClones.Proofs.Store.CacheCalls
import Mathlib.Data.List.Induction

/-!
# What a cache remembers of its history

An answer stays in a cache from the call that stored it until a call stores another one under its
key, makes room of it, finds it too old, or clears the cache. So what a cache gives for a key is
told by its history alone, and its counters account for every entry that there ever was.
-/

namespace CodeClones

variable {α : Type}

namespace CacheCall

/-- A call stores an answer under a key. -/
def Stores (key : String) : CacheCall α → Prop
  | insert _ other _ => other = key
  | _ => False

/-- Whether a call looks for an answer. -/
def isGet : CacheCall α → Bool
  | get .. => true
  | _ => false

end CacheCall

namespace Cache

variable {c : Cache α} {key : String} {storedAt : Nat} {answer : α}

/-- A call takes away the answer under a key that was stored at some time: it makes room of it for
another key, finds it too old, or clears the cache. -/
def Takes (c : Cache α) (key : String) (storedAt : Nat) : CacheCall α → Prop
  | .insert _ other _ => other ∉ c.keys ∧ c.Full ∧ key ∈ c.victims.map CacheEntry.key
  | .get now other => other = key ∧ c.timeToLive < now - storedAt
  | .clear => True

/-- An answer was stored under a key, and no later call stored another one under it or took it
away. -/
def Lasts (c : Cache α) (calls : List (CacheCall α)) (key : String) (storedAt : Nat) (answer : α) :
    Prop :=
  ∃ earlier later, calls = earlier ++ .insert storedAt key answer :: later ∧
    ∀ between x rest, later = between ++ x :: rest → ¬x.Stores key ∧
      ¬(c.after (earlier ++ .insert storedAt key answer :: between)).Takes key storedAt x

/-- An answer is in a cache. -/
def Has (c : Cache α) (key : String) (storedAt : Nat) (answer : α) : Prop :=
  ∃ e ∈ c.entries, e.key = key ∧ e.storedAt = storedAt ∧ e.results = answer

/-! ### One call -/

theorem has_cons {e : CacheEntry α} {entries : List (CacheEntry α)}
    (hc : c.entries = e :: entries) :
    c.Has key storedAt answer ↔ (e.key = key ∧ e.storedAt = storedAt ∧ e.results = answer) ∨
      ({ c with entries } : Cache α).Has key storedAt answer := by
  simp only [Has, hc, List.exists_mem_cons_iff]

theorem has_filter {c' : Cache α} {p : String → Bool}
    (hc : c'.entries = c.entries.filter fun e => p e.key) :
    c'.Has key storedAt answer ↔ c.Has key storedAt answer ∧ p key := by
  simp only [Has, hc, List.mem_filter]
  constructor
  · rintro ⟨e, ⟨he, hp⟩, rfl, hrest⟩
    exact ⟨⟨e, he, rfl, hrest⟩, hp⟩
  · rintro ⟨⟨e, he, rfl, hrest⟩, hp⟩
    exact ⟨e, ⟨he, hp⟩, rfl, hrest⟩

theorem has_map {c' : Cache α} {f : CacheEntry α → CacheEntry α}
    (hc : c'.entries = c.entries.map f) (hkey : ∀ e, (f e).key = e.key)
    (hstoredAt : ∀ e, (f e).storedAt = e.storedAt) (hresults : ∀ e, (f e).results = e.results) :
    c'.Has key storedAt answer ↔ c.Has key storedAt answer := by
  simp only [Has, hc, List.mem_map, exists_exists_and_eq_and, hkey, hstoredAt, hresults]

theorem Has.mem_keys (h : c.Has key storedAt answer) : key ∈ c.keys := by
  obtain ⟨e, he, hkey, -⟩ := h
  exact mem_keys_iff.mpr ⟨e, he, hkey⟩

/-- The answer under the key of an entry is that of the entry. -/
theorem Keyed.has_iff (h : c.Keyed) {e : CacheEntry α} (he : e ∈ c.entries) :
    c.Has e.key storedAt answer ↔ e.storedAt = storedAt ∧ e.results = answer := by
  constructor
  · rintro ⟨e', he', hkey, hrest⟩
    rwa [← h.eq_of_key he' he hkey]
  · exact fun hrest => ⟨e, he, rfl, hrest⟩

theorem has_insert (c : Cache α) (now : Nat) (other : String) (results : α) :
    (c.insert now other results).Has key storedAt answer ↔
      (other = key ∧ now = storedAt ∧ results = answer) ∨
        c.Has key storedAt answer ∧ other ≠ key ∧
          ¬(other ∉ c.keys ∧ c.Full ∧ key ∈ c.victims.map CacheEntry.key) := by
  by_cases hused : other ∈ c.keys
  · have hgone : ∀ k, (k != other) = true ↔ other ≠ k := fun k => by rw [bne_iff_ne, ne_comm]
    rw [insert_of_mem_keys hused, has_cons rfl, has_filter (p := (· != other)) rfl, hgone]
    simp [hused]
  · have hother : c.Has key storedAt answer → other ≠ key :=
      fun hhas he => hused (he ▸ hhas.mem_keys)
    by_cases hfull : c.Full
    · rw [insert_of_full hused hfull, has_cons rfl,
        has_filter (p := fun k => !(c.victims.map CacheEntry.key).contains k) rfl]
      simp only [hused, hfull, not_false_eq_true, true_and, List.contains_eq_mem,
        Bool.not_eq_true', decide_eq_false_iff_not]
      tauto
    · rw [insert_of_not_full hused hfull, has_cons rfl]
      simp only [hfull, false_and, and_false, not_false_eq_true, and_true]
      tauto

theorem has_lookup (h : c.Keyed) (now : Nat) (other : String) :
    (c.lookup now other).1.Has key storedAt answer ↔
      c.Has key storedAt answer ∧ ¬(other = key ∧ c.timeToLive < now - storedAt) := by
  -- an answer under the key that is looked for is that of the entry that is found
  have htime : ∀ {e : CacheEntry α}, e ∈ c.entries → c.Has key storedAt answer → e.key = key →
      e.storedAt = storedAt := by
    rintro e he hhas rfl
    exact ((h.has_iff he).mp hhas).1
  rcases h.lookup_cases now other with ⟨hunused, hlook⟩ |
    ⟨e, he, rfl, ⟨hfresh, hlook⟩ | ⟨hold, hlook⟩⟩ <;> rw [hlook]
  · exact ⟨fun hhas => ⟨hhas, fun hlate => hunused (hlate.1 ▸ Has.mem_keys hhas)⟩, And.left⟩
  · rw [has_map rfl (fun e' => by split <;> rfl) (fun e' => by split <;> rfl)
      fun e' => by split <;> rfl]
    refine ⟨fun hhas => ⟨hhas, ?_⟩, And.left⟩
    rintro ⟨hkey, hlate⟩
    rw [htime he hhas hkey] at hfresh
    exact absurd hfresh (Nat.not_le_of_lt hlate)
  · rw [has_filter (p := (· != e.key)) rfl, bne_iff_ne]
    refine and_congr_right fun hhas => ⟨fun hne hlate => hne hlate.1.symm, fun hnot hkey => ?_⟩
    exact hnot ⟨hkey.symm, htime he hhas hkey.symm ▸ hold⟩

/-- After a call an answer is in a cache if the call stored it, or if it was there and the call
neither stored another one under its key nor took it away. -/
theorem Keyed.has_call (h : c.Keyed) (x : CacheCall α) :
    (c.call x).Has key storedAt answer ↔ x = .insert storedAt key answer ∨
      c.Has key storedAt answer ∧ ¬x.Stores key ∧ ¬c.Takes key storedAt x := by
  cases x with
  | insert now other results =>
    rw [call, has_insert, CacheCall.insert.injEq]
    refine or_congr ?_ Iff.rfl
    tauto
  | get now other =>
    rw [call, has_lookup h]
    simp only [CacheCall.Stores, Takes, reduceCtorEq, not_false_eq_true, true_and, false_or]
  | clear =>
    simp [call, clear, Has, Takes]

/-- An answer lasts as long as no call stores another one under its key or takes it away. -/
theorem lasts_append_singleton (c : Cache α) (calls : List (CacheCall α)) (x : CacheCall α) :
    c.Lasts (calls ++ [x]) key storedAt answer ↔ x = .insert storedAt key answer ∨
      c.Lasts calls key storedAt answer ∧ ¬x.Stores key ∧
        ¬(c.after calls).Takes key storedAt x := by
  constructor
  · rintro ⟨earlier, later, hcalls, hlasts⟩
    rcases List.eq_nil_or_concat later with rfl | ⟨later, y, rfl⟩
    · exact Or.inl (List.append_inj_right' hcalls rfl |> List.singleton_inj.mp)
    · rw [List.concat_eq_append, ← List.cons_append, ← List.append_assoc] at hcalls
      obtain ⟨rfl, hxy⟩ := List.append_inj' hcalls rfl
      cases hxy
      refine Or.inr ⟨⟨earlier, later, rfl, fun between y rest he => ?_⟩, ?_⟩
      · exact hlasts between y (rest ++ [x]) (by rw [List.concat_eq_append, he]; simp)
      · exact hlasts later x [] (by rw [List.concat_eq_append])
  · rintro (rfl | ⟨⟨earlier, later, rfl, hlasts⟩, hkept⟩)
    · exact ⟨calls, [], rfl, fun between x rest he => absurd he (by simp)⟩
    · refine ⟨earlier, later ++ [x], by simp, fun between y rest he => ?_⟩
      rcases List.eq_nil_or_concat rest with rfl | ⟨rest, z, rfl⟩
      · obtain ⟨rfl, hxy⟩ := List.append_inj' he rfl
        cases hxy
        exact hkept
      · rw [List.concat_eq_append, ← List.cons_append, ← List.append_assoc] at he
        obtain ⟨rfl, -⟩ := List.append_inj' he rfl
        exact hlasts between y rest rfl

/-! ### Histories -/

theorem after_append_singleton (c : Cache α) (calls : List (CacheCall α)) (x : CacheCall α) :
    c.after (calls ++ [x]) = (c.after calls).call x := after_append c calls [x]

/-- What a cache holds is what lasts from its history. -/
theorem has_after (maxEntries timeToLive : Nat) (calls : List (CacheCall α)) :
    ((make maxEntries timeToLive).after calls).Has key storedAt answer ↔
      (make maxEntries timeToLive).Lasts calls key storedAt answer := by
  induction calls using List.reverseRecOn with
  | nil => simp [Has, Lasts, make]
  | append_singleton calls x ih =>
    have hkeyed := ((orderly_make maxEntries timeToLive).after calls).keyed
    rw [after_append_singleton, hkeyed.has_call, lasts_append_singleton, ih]

/-- A look gives an answer that is in the cache and not too old. -/
theorem Keyed.lookup_eq_some_iff (h : c.Keyed) {now : Nat} :
    (c.lookup now key).2 = some answer ↔
      ∃ storedAt, c.Has key storedAt answer ∧ now - storedAt ≤ c.timeToLive := by
  rcases h.lookup_cases now key with ⟨hunused, hlook⟩ |
    ⟨e, he, rfl, ⟨hfresh, hlook⟩ | ⟨hold, hlook⟩⟩ <;> rw [hlook]
  · constructor
    · intro hnone
      cases hnone
    · rintro ⟨_, hhas, -⟩
      exact absurd hhas.mem_keys hunused
  · simp only [h.has_iff he]
    simp [hfresh]
  · constructor
    · intro hnone
      cases hnone
    · rintro ⟨storedAt, hhas, hfresh⟩
      rw [← ((h.has_iff he).mp hhas).1] at hfresh
      exact absurd hfresh (Nat.not_le_of_lt hold)

/-! ### Accounts -/

/-- The number of entries that a call adds. -/
def added (c : Cache α) : CacheCall α → Nat
  | .insert _ key _ => if key ∈ c.keys then 0 else 1
  | _ => 0

/-- The number of entries that a call gives up because they are too old. -/
def expired (c : Cache α) : CacheCall α → Nat
  | .get now key => c.entries.countP fun e => !c.isFresh now e && e.key == key
  | _ => 0

/-- The number of entries that a call clears away. -/
def cleared (c : Cache α) : CacheCall α → Nat
  | .clear => c.entries.length
  | _ => 0

/-- What calls come to in all, if each of them counts as told by the cache on which it is made. -/
def total (count : Cache α → CacheCall α → Nat) (c : Cache α) : List (CacheCall α) → Nat
  | [] => 0
  | x :: calls => count c x + total count (c.call x) calls

/-- What a call does to the counters and to the number of entries. -/
structure Accounted (c : Cache α) (x : CacheCall α) : Prop where
  looks : (c.call x).hits + (c.call x).misses = c.hits + c.misses + if x.isGet then 1 else 0
  entries : c.added x + c.entries.length + c.evictions =
    (c.call x).entries.length + (c.call x).evictions + c.expired x + c.cleared x

theorem Keyed.accounted_insert (h : c.Keyed) (now : Nat) (key : String) (results : α) :
    c.Accounted (.insert now key results) := by
  by_cases hkey : key ∈ c.keys
  · have hlength : (c.entries.filter (·.key != key)).length + 1 = c.entries.length :=
      h.length_drop hkey
    constructor <;> rw [call, insert_of_mem_keys hkey]
    · rfl
    · simp only [added, expired, cleared, hkey, if_true, List.length_cons]
      omega
  · by_cases hfull : c.Full
    · have hlength := h.length_makeRoom
      constructor <;> rw [call, insert_of_full hkey hfull]
      · rfl
      · simp only [added, expired, cleared, hkey, if_false, List.length_cons]
        omega
    · constructor <;> rw [call, insert_of_not_full hkey hfull]
      · rfl
      · simp only [added, expired, cleared, hkey, if_false, List.length_cons]
        omega

/-- Of the entries under a key in use there is one, and it is given up if it is too old. -/
theorem Keyed.expired_get (h : c.Keyed) {e : CacheEntry α} (he : e ∈ c.entries) (now : Nat) :
    c.expired (.get now e.key) = if now - e.storedAt ≤ c.timeToLive then 0 else 1 := by
  rw [expired, ← List.countP_filter, h.filter_key_eq he, List.countP_singleton, isFresh]
  by_cases hfresh : now - e.storedAt ≤ c.timeToLive <;> simp [hfresh]

/-- Nothing is given up under a key that is not in use. -/
theorem expired_get_of_not_mem_keys (hkey : key ∉ c.keys) (now : Nat) :
    c.expired (.get now key) = 0 := by
  refine List.countP_eq_zero.mpr fun e he => ?_
  rw [Bool.and_eq_true, beq_iff_eq]
  exact fun hold => hkey (mem_keys_iff.mpr ⟨e, he, hold.2⟩)

theorem Keyed.accounted_get (h : c.Keyed) (now : Nat) (key : String) :
    c.Accounted (.get now key) := by
  rcases h.lookup_cases now key with ⟨hunused, hlook⟩ |
    ⟨e, he, rfl, ⟨hfresh, hlook⟩ | ⟨hold, hlook⟩⟩ <;> constructor <;> rw [call, hlook]
  · rfl
  · rw [expired_get_of_not_mem_keys hunused]
    simp only [added, cleared]
    omega
  · exact Nat.add_right_comm ..
  · rw [h.expired_get he, if_pos hfresh]
    simp only [added, cleared, List.length_map]
    omega
  · rfl
  · have hlength := h.length_drop (mem_keys_iff.mpr ⟨e, he, rfl⟩)
    rw [h.expired_get he, if_neg (Nat.not_le_of_lt hold)]
    change 0 + c.entries.length + c.evictions =
      (c.drop e.key).entries.length + c.evictions + 1 + 0
    omega

theorem Keyed.accounted (h : c.Keyed) (x : CacheCall α) : c.Accounted x := by
  cases x with
  | insert now key results => exact h.accounted_insert now key results
  | get now key => exact h.accounted_get now key
  | clear =>
    refine ⟨rfl, ?_⟩
    simp only [call, clear, added, expired, cleared, List.length_nil]
    omega

/-- Every entry that was added is still there, or it was counted when it went. -/
theorem Orderly.total_added (h : c.Orderly) (calls : List (CacheCall α)) :
    total added c calls + c.entries.length + c.evictions =
      (c.after calls).entries.length + (c.after calls).evictions + total expired c calls +
        total cleared c calls := by
  induction calls generalizing c with
  | nil => simp only [total, after_nil]; omega
  | cons x calls ih =>
    have hone := (h.keyed.accounted x).entries
    have hrest := ih (h.call x)
    simp only [total, after_cons]
    omega

/-- Every look is a hit or a miss. -/
theorem Orderly.looks_after (h : c.Orderly) (calls : List (CacheCall α)) :
    (c.after calls).hits + (c.after calls).misses =
      c.hits + c.misses + calls.countP CacheCall.isGet := by
  induction calls generalizing c with
  | nil => rfl
  | cons x calls ih =>
    have hone := (h.keyed.accounted x).looks
    have hrest := ih (h.call x)
    rw [after_cons, hrest, hone, List.countP_cons]
    omega

theorem call_limits (c : Cache α) (x : CacheCall α) :
    (c.call x).maxEntries = c.maxEntries ∧ (c.call x).timeToLive = c.timeToLive := by
  cases x with
  | insert now key results =>
    rw [call, insert]
    dsimp only
    split <;> exact ⟨rfl, rfl⟩
  | get now key =>
    rw [call, lookup]
    split
    · split <;> exact ⟨rfl, rfl⟩
    · exact ⟨rfl, rfl⟩
  | clear => exact ⟨rfl, rfl⟩

theorem after_limits (c : Cache α) (calls : List (CacheCall α)) :
    (c.after calls).maxEntries = c.maxEntries ∧ (c.after calls).timeToLive = c.timeToLive := by
  induction calls generalizing c with
  | nil => exact ⟨rfl, rfl⟩
  | cons x calls ih =>
    obtain ⟨hmax, hlive⟩ := ih (c.call x)
    exact ⟨hmax.trans (c.call_limits x).1, hlive.trans (c.call_limits x).2⟩

/-- After any calls at any times a new cache holds no more than it has room for, a look gives
exactly the answer that was stored last if nothing took it away and it is not too old, every look is
counted as a hit or a miss, and every entry that was added is still there, has made room, was found
too old or was cleared away. -/
theorem remembers_history (maxEntries timeToLive : Nat) (calls : List (CacheCall α)) :
    ((make maxEntries timeToLive).after calls).entries.length ≤ max 1 maxEntries ∧
    (∀ now key answer,
      (((make maxEntries timeToLive).after calls).lookup now key).2 = some answer ↔
        ∃ storedAt, (make maxEntries timeToLive).Lasts calls key storedAt answer ∧
          now - storedAt ≤ timeToLive) ∧
    ((make maxEntries timeToLive).after calls).hits +
        ((make maxEntries timeToLive).after calls).misses = calls.countP CacheCall.isGet ∧
    total added (make maxEntries timeToLive) calls =
      ((make maxEntries timeToLive).after calls).entries.length +
        ((make maxEntries timeToLive).after calls).evictions +
        total expired (make maxEntries timeToLive) calls +
        total cleared (make maxEntries timeToLive) calls := by
  have hnew := orderly_make (α := α) maxEntries timeToLive
  have hafter := hnew.after calls
  obtain ⟨hmax, hlive⟩ := after_limits (make (α := α) maxEntries timeToLive) calls
  refine ⟨?_, fun now key answer => ?_, ?_, ?_⟩
  · rw [max_comm]
    exact hafter.within.trans_eq hmax
  · simp only [hafter.keyed.lookup_eq_some_iff, has_after, hlive]
    rfl
  · rw [hnew.looks_after]
    exact Nat.zero_add _
  · exact hnew.total_added calls

end Cache

end CodeClones
