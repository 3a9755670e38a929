import CodeClones.Proofs.Text

/-!
# Words and lines of a text

The first word of a text is the run of characters behind the separators at its start, up to the next
separator or the end. A text that ends every line with a line feed has these lines.
-/

namespace CodeClones.Text

variable {p : Char → Bool} {s word rest : List Char}

/-! ## Words -/

/-- A text has a first word, with only separators before it, and `rest` behind it. -/
structure FirstWord (p : Char → Bool) (s word rest : List Char) : Prop where
  split : ∃ gap, s = gap ++ (word ++ rest) ∧ ∀ c ∈ gap, p c
  ne_nil : word ≠ []
  unbroken : ∀ c ∈ word, p c = false
  ends : ∀ c, rest.head? = some c → p c

theorem fields_cons {c : Char} (hc : p c) (s : List Char) : fields p (c :: s) = fields p s := by
  rw [fields, splitOnChar, if_pos hc, List.filter_cons_of_neg (by simp), fields]

theorem fields_gap_append {gap : List Char} (h : ∀ c ∈ gap, p c) (s : List Char) :
    fields p (gap ++ s) = fields p s := by
  induction gap with
  | nil => rfl
  | cons c gap ih =>
    obtain ⟨hc, hgap⟩ := List.forall_mem_cons.mp h
    rw [List.cons_append, fields_cons hc, ih hgap]

/-- The words of a text are its first one and those behind it. -/
theorem FirstWord.fields_eq (h : FirstWord p s word rest) :
    fields p s = word :: fields p rest := by
  obtain ⟨gap, rfl, hgap⟩ := h.split
  have hword : ∀ words : List (List Char),
      (word :: words).filter (fun w => !w.isEmpty) = word :: words.filter fun w => !w.isEmpty :=
    fun words => List.filter_cons_of_pos (by simpa using h.ne_nil)
  rw [fields_gap_append hgap]
  cases rest with
  | nil =>
    rw [List.append_nil, fields, splitOnChar_eq_singleton h.unbroken, hword]
    rfl
  | cons c rest =>
    have hc : p c := h.ends c rfl
    rw [fields_cons hc, fields, splitOnChar_append_cons hc, splitOnChar_eq_singleton h.unbroken,
      List.singleton_append, hword]
    rfl

theorem exists_firstWord (h : fields p s ≠ []) : ∃ word rest, FirstWord p s word rest := by
  have hs : s = s.takeWhile p ++ s.dropWhile p := List.takeWhile_append_dropWhile.symm
  have hgap : ∀ c ∈ s.takeWhile p, p c := fun c hc => List.all_eq_true.mp List.all_takeWhile c hc
  refine ⟨(s.dropWhile p).takeWhile (!p ·), (s.dropWhile p).dropWhile (!p ·),
    ⟨s.takeWhile p, ?_, hgap⟩, ?_, fun c hc => ?_, fun c hc => ?_⟩
  · rw [List.takeWhile_append_dropWhile, List.takeWhile_append_dropWhile]
  · -- a text of separators only has no words
    intro hnil
    refine h ?_
    rw [hs, fields_gap_append hgap]
    cases hdrop : s.dropWhile p with
    | nil => rfl
    | cons c rest =>
      have hc : p c = false := not_of_head?_dropWhile (by rw [hdrop]; rfl)
      rw [hdrop, List.takeWhile_cons_of_pos (by simpa using hc)] at hnil
      cases hnil
  · simpa using List.all_eq_true.mp List.all_takeWhile c hc
  · simpa using not_of_head?_dropWhile hc

theorem fields_eq_cons_iff {words : List (List Char)} :
    fields p s = word :: words ↔ ∃ rest, FirstWord p s word rest ∧ fields p rest = words := by
  constructor
  · intro h
    obtain ⟨word', rest, hfirst⟩ := exists_firstWord (h ▸ List.cons_ne_nil word words)
    rw [hfirst.fields_eq] at h
    obtain ⟨rfl, rfl⟩ := List.cons.inj h
    exact ⟨rest, hfirst, rfl⟩
  · rintro ⟨rest, hfirst, rfl⟩
    exact hfirst.fields_eq

/-! ## Lines -/

theorem dropReturn_eq_self (h : s.getLast? ≠ some '\r') : dropReturn s = s := by
  rw [dropReturn]
  split
  · rename_i hreverse
    rw [← List.head?_reverse, hreverse] at h
    exact absurd rfl h
  · rfl

/-- The first line feed ends the first line. -/
theorem lines_append_cons {l : List Char} (h : '\n' ∉ l) (rest : List Char) :
    lines (l ++ '\n' :: rest) = dropReturn l :: lines rest := by
  have hunbroken : ∀ c ∈ l, (c == '\n') = false := fun c hc =>
    beq_false_of_ne fun he => h (he ▸ hc)
  rw [lines, splitOnChar_append_cons rfl, splitOnChar_eq_singleton hunbroken, List.singleton_append,
    lines]
  cases hpieces : splitOnChar (· == '\n') rest with
  | nil => exact absurd hpieces (splitOnChar_ne_nil _ _)
  | cons piece pieces =>
    rw [linesOfPieces]
    exact List.cons_ne_nil _ _

/-- Lines that are each ended by a line feed are found again. -/
theorem lines_flatMap {ls : List (List Char)} (h : ∀ l ∈ ls, '\n' ∉ l ∧ l.getLast? ≠ some '\r') :
    lines (ls.flatMap (· ++ ['\n'])) = ls := by
  induction ls with
  | nil => rfl
  | cons l ls ih =>
    obtain ⟨⟨hfeed, hreturn⟩, hls⟩ := List.forall_mem_cons.mp h
    rw [List.flatMap_cons, List.append_assoc, List.singleton_append, lines_append_cons hfeed,
      dropReturn_eq_self hreturn, ih hls]

end CodeClones.Text
