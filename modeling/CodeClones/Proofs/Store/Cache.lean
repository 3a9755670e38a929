import CodeClones.Store.Cache

/-!
# What a cache holds

An answer gets into a cache only when it is stored. A look, the way out of an old entry and the room
made for a new key leave at most entries that were there before.
-/

namespace CodeClones.Cache

variable {α : Type} {P Q : String → α → Prop} {c : Cache α}

/-- Every answer in a cache is as `P` says for its key. -/
def Every (P : String → α → Prop) (c : Cache α) : Prop := ∀ e ∈ c.entries, P e.key e.results

theorem every_make (maxEntries timeToLive : Nat) :
    (make maxEntries timeToLive : Cache α).Every P := fun _ he => nomatch he

theorem every_clear (c : Cache α) : c.clear.Every P := fun _ he => nomatch he

theorem Every.mono (h : c.Every P) (hPQ : ∀ key answer, P key answer → Q key answer) :
    c.Every Q := fun e he => hPQ _ _ (h e he)

theorem Every.drop (h : c.Every P) (key : String) : (c.drop key).Every P :=
  fun e he => h e (List.mem_filter.mp he).1

theorem Every.makeRoom (h : c.Every P) : c.makeRoom.Every P :=
  fun e he => h e (List.mem_filter.mp he).1

/-- A look into a cache adds nothing to it. -/
theorem Every.lookup (h : c.Every P) (now : Nat) (key : String) :
    (c.lookup now key).1.Every P := by
  unfold Cache.lookup
  split
  · split
    · intro e he
      obtain ⟨e₀, he₀, rfl⟩ := List.mem_map.mp he
      have h₀ := h e₀ he₀
      split <;> exact h₀
    · exact h.drop key
  · exact h

/-- A hit is an answer in the cache. -/
theorem Every.hit (h : c.Every P) {now : Nat} {key : String} {answer : α}
    (hhit : (c.lookup now key).2 = some answer) : P key answer := by
  unfold Cache.lookup at hhit
  split at hhit
  · rename_i e he
    split at hhit
    · have hkey : e.key = key := by simpa using List.find?_some he
      cases hhit
      exact hkey ▸ h e (List.mem_of_find?_eq_some he)
    · cases hhit
  · cases hhit

/-- Storing an answer adds no other one. -/
theorem Every.insert (h : c.Every P) (now : Nat) {key : String} {answer : α}
    (hnew : P key answer) : (c.insert now key answer).Every P := by
  intro e he
  unfold Cache.insert at he
  rcases List.mem_cons.mp he with rfl | he
  · exact hnew
  · refine Every.drop ?_ key e he
    split
    · exact h.makeRoom
    · exact h

end CodeClones.Cache
