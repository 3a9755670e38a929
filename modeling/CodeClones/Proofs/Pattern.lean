import CodeClones.Text.Pattern
import Mathlib.Data.List.Infix

/-!
# What a search finds lies in the list

A search only goes on to places behind its start, and a piece that it captures ends at one of them.
So a captured piece stands in the list that is searched, directly before what is said to follow it.
-/

namespace CodeClones.Pattern

variable {α : Type}

/-- A place that a search from `start` can reach: what is left there is an end of what was left at
the start, and a piece captured on the way stands in it. -/
structure Place.Behind (start place : Place α) : Prop where
  rest : place.rest <:+ start.rest
  captured : place.captured = start.captured ∨
    ∃ piece tail, place.captured = some (piece, tail) ∧ piece ++ tail <:+ start.rest

namespace Place.Behind

theorem refl (place : Place α) : place.Behind place := ⟨List.suffix_refl _, .inl rfl⟩

theorem trans {a b c : Place α} (h : a.Behind b) (h' : b.Behind c) : a.Behind c := by
  refine ⟨h'.rest.trans h.rest, ?_⟩
  rcases h'.captured with hsame | ⟨piece, tail, hcaptured, hpiece⟩
  · rw [hsame]
    exact h.captured
  · exact .inr ⟨piece, tail, hcaptured, hpiece.trans h.rest⟩

end Place.Behind

private theorem orElse_cases {a : Option α} {b : Unit → Option α} {found : α}
    (h : a.orElse b = some found) : a = some found ∨ b () = some found := by
  cases a with
  | some => exact .inl h
  | none => exact .inr h

/-- A search succeeds only with a place behind its start that is what is asked for. -/
def Advances (search : Place α → (Place α → Option (Place α)) → Option (Place α)) : Prop :=
  ∀ {start found next}, search start next = some found →
    ∃ place, start.Behind place ∧ next place = some found

theorem advances_repeated {greedy : Bool}
    {piece : Place α → (Place α → Option (Place α)) → Option (Place α)} (hpiece : Advances piece)
    (n : Nat) : Advances fun start next => repeated greedy piece next n start := by
  induction n with
  | zero =>
    intro start found next h
    exact ⟨start, .refl start, h⟩
  | succ n ih =>
    intro start found next h
    have hmore : (piece start fun place =>
        if place.rest.length < start.rest.length then repeated greedy piece next n place
        else none) = some found → ∃ place, start.Behind place ∧ next place = some found := by
      intro h
      obtain ⟨middle, hmiddle, h⟩ := hpiece h
      split at h
      · obtain ⟨place, hplace, h⟩ := ih h
        exact ⟨place, hmiddle.trans hplace, h⟩
      · cases h
    dsimp only at h
    rw [repeated] at h
    split at h
    · rcases orElse_cases h with h | h
      · exact hmore h
      · exact ⟨start, .refl start, h⟩
    · rcases orElse_cases h with h | h
      · exact ⟨start, .refl start, h⟩
      · exact hmore h

theorem advances_search (p : Pattern α) : Advances p.search := by
  induction p with
  | empty =>
    intro start found next h
    exact ⟨start, .refl start, h⟩
  | one test =>
    intro start found next h
    rw [search] at h
    split at h
    · cases h
    · rename_i x rest hrest
      split at h
      · exact ⟨{ start with rest }, ⟨hrest ▸ List.suffix_cons x rest, .inl rfl⟩, h⟩
      · cases h
  | seq a b iha ihb =>
    intro start found next h
    rw [search] at h
    obtain ⟨middle, hmiddle, h⟩ := iha h
    obtain ⟨place, hplace, h⟩ := ihb h
    exact ⟨place, hmiddle.trans hplace, h⟩
  | or a b iha ihb =>
    intro start found next h
    rw [search] at h
    rcases orElse_cases h with h | h
    · exact iha h
    · exact ihb h
  | star greedy a ih =>
    intro start found next h
    rw [search] at h
    exact advances_repeated ih start.rest.length h
  | capture a ih =>
    intro start found next h
    rw [search] at h
    obtain ⟨after, hafter, h⟩ := ih h
    refine ⟨{ after with captured := some (_, after.rest) },
      ⟨hafter.rest, .inr ⟨_, _, rfl, ?_⟩⟩, h⟩
    obtain ⟨piece, hpiece⟩ := hafter.rest
    have hlength : start.rest.length - after.rest.length = piece.length := by
      rw [← hpiece, List.length_append, Nat.add_sub_cancel]
    have hfront : start.rest.take (start.rest.length - after.rest.length) = piece := by
      rw [hlength, ← hpiece, List.take_left]
    rw [hfront, hpiece]
  | stop =>
    intro start found next h
    rw [search] at h
    split at h
    · exact ⟨start, .refl start, h⟩
    · cases h

/-- A captured piece stands in the list, directly before what follows it. -/
theorem captured?_suffix {p : Pattern α} {items piece tail : List α}
    (h : p.captured? items = some (piece, tail)) : piece ++ tail <:+ items := by
  rw [captured?, Option.bind_eq_some_iff] at h
  obtain ⟨found, hfound, hcaptured⟩ := h
  obtain ⟨place, hplace, hsame⟩ := p.advances_search hfound
  cases hsame
  rcases hplace.captured with hnone | ⟨piece', tail', hsome, hsuffix⟩
  · rw [hnone] at hcaptured
    cases hcaptured
  · rw [hsome] at hcaptured
    cases hcaptured
    exact hsuffix

end CodeClones.Pattern
