import CodeClones.Text.Basic
import Mathlib.Data.List.Basic
import Mathlib.Data.List.TakeWhile

/-!
# Cutting and joining text

Cutting a text at a separator and joining the pieces with it are inverse to each other, as long as
no piece holds the separator. Trimming takes away blanks at the ends and nothing else.
-/

namespace CodeClones.Text

variable {p : Char → Bool}

/-- What dropping characters leaves starts with one that is not dropped. -/
theorem not_of_head?_dropWhile {s : List Char} {c : Char} (h : (s.dropWhile p).head? = some c) :
    p c = false := by
  have hnot := List.head?_dropWhile_not p s
  rw [h] at hnot
  simpa using hnot

theorem splitOnChar_ne_nil (p : Char → Bool) (s : List Char) : splitOnChar p s ≠ [] := by
  cases s with
  | nil => simp [splitOnChar]
  | cons c rest =>
    rw [splitOnChar]
    split
    · simp
    · split <;> simp

/-- A separator ends the piece before it. -/
theorem splitOnChar_append_cons {c : Char} (hc : p c) (s rest : List Char) :
    splitOnChar p (s ++ c :: rest) = splitOnChar p s ++ splitOnChar p rest := by
  induction s with
  | nil => simp [splitOnChar, hc]
  | cons d s ih =>
    rw [List.cons_append, splitOnChar, splitOnChar, ih]
    by_cases hd : p d
    · simp [hd]
    · cases hs : splitOnChar p s with
      | nil => exact absurd hs (splitOnChar_ne_nil p s)
      | cons piece pieces => simp [hd]

/-- A text without separators is one piece. -/
theorem splitOnChar_eq_singleton {s : List Char} (h : ∀ c ∈ s, p c = false) :
    splitOnChar p s = [s] := by
  induction s with
  | nil => rfl
  | cons c s ih =>
    obtain ⟨hc, hs⟩ := List.forall_mem_cons.mp h
    simp [splitOnChar, hc, ih hs]

/-- All that a piece holds comes from the text, and none of it is a separator. -/
theorem mem_of_mem_splitOnChar {s piece : List Char} (hpiece : piece ∈ splitOnChar p s) {c : Char}
    (hc : c ∈ piece) : c ∈ s ∧ p c = false := by
  induction s generalizing piece with
  | nil =>
    cases List.mem_singleton.mp hpiece
    cases hc
  | cons d s ih =>
    rw [splitOnChar] at hpiece
    by_cases hd : p d
    · rw [if_pos hd] at hpiece
      rcases List.mem_cons.mp hpiece with rfl | hrest
      · cases hc
      · exact (ih hrest hc).imp (List.mem_cons_of_mem _) id
    · rw [if_neg hd] at hpiece
      cases hs : splitOnChar p s with
      | nil => exact absurd hs (splitOnChar_ne_nil p s)
      | cons first pieces =>
        rw [hs] at ih hpiece
        rcases List.mem_cons.mp hpiece with rfl | hrest
        · rcases List.mem_cons.mp hc with rfl | hc
          · exact ⟨List.mem_cons_self .., Bool.eq_false_iff.mpr hd⟩
          · exact (ih (List.mem_cons_self ..) hc).imp (List.mem_cons_of_mem _) id
        · exact (ih (List.mem_cons_of_mem _ hrest) hc).imp (List.mem_cons_of_mem _) id

/-- Joined pieces without separators are found again. -/
theorem splitOnChar_joinWith {c : Char} (hc : p c) {pieces : List (List Char)} (hne : pieces ≠ [])
    (h : ∀ piece ∈ pieces, ∀ d ∈ piece, p d = false) :
    splitOnChar p (joinWith [c] pieces) = pieces := by
  induction pieces with
  | nil => exact absurd rfl hne
  | cons piece rest ih =>
    obtain ⟨hpiece, hrest⟩ := List.forall_mem_cons.mp h
    cases rest with
    | nil => exact splitOnChar_eq_singleton hpiece
    | cons next rest =>
      rw [joinWith, List.append_assoc, List.singleton_append, splitOnChar_append_cons hc,
        splitOnChar_eq_singleton hpiece, ih (List.cons_ne_nil _ _) hrest, List.singleton_append]
      exact List.cons_ne_nil _ _

/-- All that joined pieces hold comes from a piece or is the separator. -/
theorem mem_joinWith {c d : Char} {pieces : List (List Char)} (h : d ∈ joinWith [c] pieces) :
    d = c ∨ ∃ piece ∈ pieces, d ∈ piece := by
  induction pieces with
  | nil => cases h
  | cons piece rest ih =>
    cases rest with
    | nil => exact Or.inr ⟨piece, List.mem_cons_self .., h⟩
    | cons next rest =>
      rw [joinWith, List.append_assoc] at h
      · rcases List.mem_append.mp h with h | h
        · exact Or.inr ⟨piece, List.mem_cons_self .., h⟩
        · rcases List.mem_cons.mp h with rfl | h
          · exact Or.inl rfl
          · exact (ih h).imp id fun ⟨piece', hm, hd⟩ => ⟨piece', List.mem_cons_of_mem _ hm, hd⟩
      · exact List.cons_ne_nil _ _

/-- Cutting at two kinds of separators is cutting at the one and the pieces at the other. -/
theorem splitOnChar_or (p q : Char → Bool) (s : List Char) :
    splitOnChar (fun c => p c || q c) s = (splitOnChar p s).flatMap (splitOnChar q) := by
  induction s with
  | nil => rfl
  | cons c s ih =>
    rw [splitOnChar, ih, splitOnChar]
    by_cases hp : p c
    · simp [hp, splitOnChar]
    · cases hs : splitOnChar p s with
      | nil => exact absurd hs (splitOnChar_ne_nil p s)
      | cons piece pieces =>
        cases hpiece : splitOnChar q piece with
        | nil => exact absurd hpiece (splitOnChar_ne_nil q piece)
        | cons first more => by_cases hq : q c <;> simp [hp, hq, hpiece, splitOnChar]

private theorem splitAtLast?_cons (mark c : Char) (s : List Char) :
    splitAtLast? [mark] (c :: s) = match splitAtLast? [mark] s with
      | some (before, after) => some (c :: before, after)
      | none => if mark = c then some ([], s) else none := by
  rw [splitAtLast?]
  cases splitAtLast? [mark] s with
  | some cut => rfl
  | none => by_cases hc : mark = c <;> simp [dropStart?, hc]

theorem splitAtLast?_eq_none_iff {mark : Char} {s : List Char} :
    splitAtLast? [mark] s = none ↔ mark ∉ s := by
  induction s with
  | nil => simp [splitAtLast?]
  | cons c s ih =>
    rw [splitAtLast?_cons, List.mem_cons, not_or, ← ih]
    cases splitAtLast? [mark] s with
    | some cut => simp
    | none => simp

/-- A cut at the last place of a character leaves none of it behind the cut. -/
theorem splitAtLast?_eq_some_iff {mark : Char} {s before after : List Char} :
    splitAtLast? [mark] s = some (before, after) ↔ s = before ++ mark :: after ∧ mark ∉ after := by
  induction s generalizing before after with
  | nil => simp [splitAtLast?]
  | cons c s ih =>
    rw [splitAtLast?_cons]
    cases before with
    | nil =>
      rw [List.nil_append, List.cons.injEq]
      cases hs : splitAtLast? [mark] s with
      | some cut =>
        have hmem : mark ∈ s := by
          rw [← not_not (a := mark ∈ s), ← splitAtLast?_eq_none_iff, hs]
          exact Option.some_ne_none cut
        refine iff_of_false (fun h => nomatch h) ?_
        rintro ⟨⟨-, rfl⟩, hafter⟩
        exact hafter hmem
      | none =>
        have hnone : mark ∉ s := splitAtLast?_eq_none_iff.mp hs
        by_cases hc : mark = c
        · rw [if_pos hc]
          constructor
          · intro h
            cases h
            exact ⟨⟨hc.symm, rfl⟩, hnone⟩
          · rintro ⟨⟨-, rfl⟩, -⟩
            rfl
        · exact iff_of_false (by simp [hc]) fun h => hc h.1.1.symm
    | cons d before =>
      rw [List.cons_append, List.cons.injEq, and_assoc, ← ih]
      cases splitAtLast? [mark] s with
      | some cut => simp [Prod.ext_iff, and_assoc]
      | none => by_cases hc : mark = c <;> simp [hc]

/-- A text without blanks has none at its ends. -/
theorem trim_eq_self {s : List Char} (h : ∀ c ∈ s, isBlank c = false) : trim s = s := by
  have hdrop : ∀ {s : List Char}, (∀ c ∈ s, isBlank c = false) → s.dropWhile isBlank = s := by
    intro s h
    cases s with
    | nil => rfl
    | cons c s => rw [List.dropWhile_cons_of_neg (by simp [h c (List.mem_cons_self ..)])]
  rw [trim, trimStartWith, hdrop h, trimEndWith, hdrop, List.reverse_reverse]
  exact fun c hc => h c (List.mem_reverse.mp hc)

section

variable {blanks s : List Char}

theorem trim_blanks_append (h : ∀ c ∈ blanks, isBlank c) : trim (blanks ++ s) = trim s := by
  rw [trim, trimStartWith, List.dropWhile_append_of_pos h]
  rfl

theorem trim_append_blanks (h : ∀ c ∈ blanks, isBlank c) : trim (s ++ blanks) = trim s := by
  have hreverse : ∀ c ∈ blanks.reverse, isBlank c := fun c hc => h c (List.mem_reverse.mp hc)
  have hdrop : blanks.dropWhile isBlank = [] := List.dropWhile_eq_nil_iff.mpr h
  rw [trim, trim, trimStartWith, trimStartWith, List.dropWhile_append]
  split
  · rename_i hempty
    rw [hdrop, List.isEmpty_iff.mp hempty]
  · rw [trimEndWith, trimEndWith, List.reverse_append, List.dropWhile_append_of_pos hreverse]

/-- Trimming takes blanks away at both ends and nothing else. -/
theorem exists_blanks_trim (s : List Char) : ∃ front back, s = front ++ trim s ++ back ∧
    (∀ c ∈ front, isBlank c) ∧ ∀ c ∈ back, isBlank c := by
  have hend : s.dropWhile isBlank =
      trim s ++ ((s.dropWhile isBlank).reverse.takeWhile isBlank).reverse := by
    apply List.reverse_injective
    rw [List.reverse_append, List.reverse_reverse, trim, trimEndWith, trimStartWith,
      List.reverse_reverse, List.takeWhile_append_dropWhile]
  refine ⟨s.takeWhile isBlank, ((s.dropWhile isBlank).reverse.takeWhile isBlank).reverse, ?_,
    fun c hc => ?_, fun c hc => ?_⟩
  · rw [List.append_assoc, ← hend, List.takeWhile_append_dropWhile]
  · exact List.all_eq_true.mp List.all_takeWhile c hc
  · exact List.all_eq_true.mp List.all_takeWhile c (List.mem_reverse.mp hc)

end

end CodeClones.Text
