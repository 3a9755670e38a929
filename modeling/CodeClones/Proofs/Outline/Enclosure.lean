import CodeClones.Outline.Lines

/-!
# Lines that enclose a line

The nearest line above that is indented less encloses a line, and so do the lines that enclose that
one. A line is on this chain exactly if everything between is indented deeper than it is. The scope
of a line is looked for among all lines above that are indented less than it is, up to the first
line without indentation. So a class that encloses the line is always found, and so is a class that
has ended before the line, at the indentation of a line that encloses it or deeper.
-/

namespace CodeClones.LinePatterns

/-- The lines that enclose a line at the indentation `indent`, given the lines above it, the nearest
one first. -/
def enclosing (indent : Nat) : List Line → List Line
  | [] => []
  | line :: above =>
    if !Text.isBlankText line && indentation line < indent then
      line :: enclosing (indentation line) above
    else enclosing indent above

/-- A line that is not blank stands above a line at the indentation `indent` and is indented less,
with the lines `near` between them. -/
structure Precedes (indent : Nat) (above near : List Line) (l : Line) : Prop where
  split : ∃ far, above = near ++ l :: far
  notBlank : Text.isBlankText l = false
  lessIndented : indentation l < indent

/-- All lines between are blank or indented deeper than `indent`. -/
def Deeper (indent : Nat) (near : List Line) : Prop :=
  ∀ k ∈ near, Text.isBlankText k = false → indent < indentation k

/-- A line that is indented less, but has ended: a line between is not indented deeper than it. No
line between is without indentation. -/
def Ended (indent : Nat) (above : List Line) (l : Line) : Prop :=
  ∃ near, Precedes indent above near l ∧ Deeper 0 near ∧ ¬Deeper (indentation l) near

variable {indent : Nat} {above near : List Line} {l line : Line}

theorem deeper_nil (indent : Nat) : Deeper indent [] := nofun

theorem deeper_cons_iff : Deeper indent (line :: near) ↔
    (Text.isBlankText line = false → indent < indentation line) ∧ Deeper indent near :=
  List.forall_mem_cons

theorem precedes_nil_iff : Precedes indent (line :: above) [] l ↔
    line = l ∧ Text.isBlankText l = false ∧ indentation l < indent := by
  constructor
  · rintro ⟨⟨far, hsplit⟩, hblank, hless⟩
    exact ⟨(List.cons.inj hsplit).1, hblank, hless⟩
  · rintro ⟨rfl, hblank, hless⟩
    exact ⟨⟨above, rfl⟩, hblank, hless⟩

theorem precedes_cons_iff {k : Line} : Precedes indent (line :: above) (k :: near) l ↔
    line = k ∧ Precedes indent above near l := by
  constructor
  · rintro ⟨⟨far, hsplit⟩, hblank, hless⟩
    obtain ⟨hfirst, hrest⟩ := List.cons.inj hsplit
    exact ⟨hfirst, ⟨far, hrest⟩, hblank, hless⟩
  · rintro ⟨rfl, ⟨far, rfl⟩, hblank, hless⟩
    exact ⟨⟨far, rfl⟩, hblank, hless⟩

theorem not_precedes_of_nil : ¬Precedes indent [] near l := fun h => by
  obtain ⟨far, hsplit⟩ := h.split
  exact List.cons_ne_nil _ _ (List.append_eq_nil_iff.mp hsplit.symm).2

/-- A search through the lines above ends at the nearest one or goes on behind it. -/
theorem exists_precedes_cons_iff {P : List Line → Line → Prop} :
    (∃ near l, Precedes indent (line :: above) near l ∧ P near l) ↔
      (Text.isBlankText line = false ∧ indentation line < indent ∧ P [] line) ∨
        ∃ near l, Precedes indent above near l ∧ P (line :: near) l := by
  constructor
  · rintro ⟨near, l, h, hP⟩
    cases near with
    | nil =>
      obtain ⟨rfl, hblank, hless⟩ := precedes_nil_iff.mp h
      exact .inl ⟨hblank, hless, hP⟩
    | cons k near =>
      obtain ⟨rfl, h'⟩ := precedes_cons_iff.mp h
      exact .inr ⟨near, l, h', hP⟩
  · rintro (⟨hblank, hless, hP⟩ | ⟨near, l, h, hP⟩)
    · exact ⟨[], line, precedes_nil_iff.mpr ⟨rfl, hblank, hless⟩, hP⟩
    · exact ⟨line :: near, l, precedes_cons_iff.mpr ⟨rfl, h⟩, hP⟩

/-- A line encloses another one exactly if all lines between are indented deeper than it. -/
theorem mem_enclosing_iff : l ∈ enclosing indent above ↔
    ∃ near, Precedes indent above near l ∧ Deeper (indentation l) near := by
  induction above generalizing indent with
  | nil =>
    simp only [enclosing, List.not_mem_nil, false_iff]
    rintro ⟨near, h, -⟩
    exact not_precedes_of_nil h
  | cons line above ih =>
    rw [enclosing]
    split
    · rename_i hless
      rw [Bool.and_eq_true, Bool.not_eq_true', decide_eq_true_eq] at hless
      rw [List.mem_cons, ih]
      constructor
      · rintro (rfl | ⟨near, h, hdeeper⟩)
        · exact ⟨[], precedes_nil_iff.mpr ⟨rfl, hless⟩, deeper_nil _⟩
        · refine ⟨line :: near, precedes_cons_iff.mpr ⟨rfl, ?_⟩,
            deeper_cons_iff.mpr ⟨fun _ => h.lessIndented, hdeeper⟩⟩
          exact ⟨h.split, h.notBlank, Nat.lt_trans h.lessIndented hless.2⟩
      · rintro ⟨near, h, hdeeper⟩
        cases near with
        | nil => exact .inl (precedes_nil_iff.mp h).1.symm
        | cons k near =>
          obtain ⟨rfl, hbelow⟩ := precedes_cons_iff.mp h
          obtain ⟨hline, hdeeper⟩ := deeper_cons_iff.mp hdeeper
          exact .inr ⟨near, ⟨hbelow.split, h.notBlank, hline hless.1⟩, hdeeper⟩
    · rename_i hother
      rw [Bool.and_eq_true, Bool.not_eq_true', decide_eq_true_eq] at hother
      rw [ih]
      constructor
      · rintro ⟨near, h, hdeeper⟩
        refine ⟨line :: near, precedes_cons_iff.mpr ⟨rfl, h⟩,
          deeper_cons_iff.mpr ⟨fun hblank => ?_, hdeeper⟩⟩
        have hindent : ¬indentation line < indent := fun hless => hother ⟨hblank, hless⟩
        exact Nat.lt_of_lt_of_le h.lessIndented (Nat.le_of_not_lt hindent)
      · rintro ⟨near, h, hdeeper⟩
        cases near with
        | nil =>
          obtain ⟨rfl, hless⟩ := precedes_nil_iff.mp h
          exact absurd hless hother
        | cons k near =>
          exact ⟨near, (precedes_cons_iff.mp h).2, (deeper_cons_iff.mp hdeeper).2⟩

section

variable {isClassHeader : Line → Bool}

/-- The headers that are looked at are those above which, up to the line, no line is without
indentation. -/
theorem liesInClass_iff : liesInClass isClassHeader indent above ↔
    ∃ near l, Precedes indent above near l ∧ Deeper 0 near ∧ isClassHeader l := by
  induction above with
  | nil =>
    simp only [liesInClass, Bool.false_eq_true, false_iff]
    rintro ⟨near, l, h, -⟩
    exact not_precedes_of_nil h
  | cons line above ih =>
    rw [liesInClass, exists_precedes_cons_iff (P := fun near l => Deeper 0 near ∧ isClassHeader l)]
    split
    · rename_i hless
      rw [Bool.and_eq_true, Bool.not_eq_true', decide_eq_true_eq] at hless
      rw [Bool.or_eq_true, Bool.and_eq_true, bne_iff_ne, ih]
      constructor
      · rintro (hclass | ⟨hindented, near, l, h, hdeeper, hclass⟩)
        · exact .inl ⟨hless.1, hless.2, deeper_nil 0, hclass⟩
        · exact .inr ⟨near, l, h,
            deeper_cons_iff.mpr ⟨fun _ => Nat.pos_of_ne_zero hindented, hdeeper⟩, hclass⟩
      · rintro (⟨-, -, -, hclass⟩ | ⟨near, l, h, hdeeper, hclass⟩)
        · exact .inl hclass
        · obtain ⟨hline, hdeeper⟩ := deeper_cons_iff.mp hdeeper
          exact .inr ⟨Nat.ne_of_gt (hline hless.1), near, l, h, hdeeper, hclass⟩
    · rename_i hother
      rw [Bool.and_eq_true, Bool.not_eq_true', decide_eq_true_eq] at hother
      rw [ih]
      constructor
      · rintro ⟨near, l, h, hdeeper, hclass⟩
        refine .inr ⟨near, l, h, deeper_cons_iff.mpr ⟨fun hblank => ?_, hdeeper⟩, hclass⟩
        -- a line that is not indented less than the line below it is indented if that one is
        have hindent : ¬indentation line < indent := fun hless => hother ⟨hblank, hless⟩
        have hless := h.lessIndented
        omega
      · rintro (⟨hblank, hless, -⟩ | ⟨near, l, h, hdeeper, hclass⟩)
        · exact absurd ⟨hblank, hless⟩ hother
        · exact ⟨near, l, h, (deeper_cons_iff.mp hdeeper).2, hclass⟩

theorem scopeOf_eq_classScope_iff : scopeOf isClassHeader above line = classScope ↔
    liesInClass isClassHeader (indentation line) above := by
  rw [scopeOf]
  split
  · rename_i hfound
    exact iff_of_true rfl ((Bool.and_eq_true ..).mp hfound).2
  · rename_i hnone
    refine iff_of_false (by decide) fun hfound => hnone ?_
    obtain ⟨near, l, h, -⟩ := liesInClass_iff.mp hfound
    have hindented : indentation line ≠ 0 := Nat.ne_of_gt (Nat.zero_lt_of_lt h.lessIndented)
    rw [Bool.and_eq_true, bne_iff_ne]
    exact ⟨hindented, hfound⟩

/-- A line has the scope of a class exactly if a class header encloses it or a class header has
ended above it. So this scope means that a class encloses the line, whatever the headers of classes
look like, exactly if only lines have ended that read like a line that encloses it. -/
theorem scopeOf_told (above : List Line) (line : Line) :
    (∀ isClassHeader, scopeOf isClassHeader above line = classScope ↔
      (∃ h ∈ enclosing (indentation line) above, isClassHeader h) ∨
        ∃ h, Ended (indentation line) above h ∧ isClassHeader h) ∧
    ((∀ isClassHeader, scopeOf isClassHeader above line = classScope ↔
        ∃ h ∈ enclosing (indentation line) above, isClassHeader h) ↔
      ∀ l, Ended (indentation line) above l → l ∈ enclosing (indentation line) above) := by
  have hscope : ∀ isClassHeader, scopeOf isClassHeader above line = classScope ↔
      (∃ h ∈ enclosing (indentation line) above, isClassHeader h) ∨
        ∃ h, Ended (indentation line) above h ∧ isClassHeader h := by
    intro isClassHeader
    rw [scopeOf_eq_classScope_iff, liesInClass_iff]
    constructor
    · rintro ⟨near, h, hprecedes, hdeeper, hclass⟩
      by_cases hopen : Deeper (indentation h) near
      · exact .inl ⟨h, mem_enclosing_iff.mpr ⟨near, hprecedes, hopen⟩, hclass⟩
      · exact .inr ⟨h, ⟨near, hprecedes, hdeeper, hopen⟩, hclass⟩
    · rintro (⟨h, hmem, hclass⟩ | ⟨h, ⟨near, hprecedes, hdeeper, -⟩, hclass⟩)
      · obtain ⟨near, hprecedes, hopen⟩ := mem_enclosing_iff.mp hmem
        exact ⟨near, h, hprecedes, fun k hk hblank => Nat.zero_lt_of_lt (hopen k hk hblank), hclass⟩
      · exact ⟨near, h, hprecedes, hdeeper, hclass⟩
  refine ⟨hscope, fun htold l hended => ?_, fun hlisted isClassHeader => ?_⟩
  · -- the line that has ended is found if it is the only one that is taken for a header
    have hfound := (hscope (· == l)).mpr (.inr ⟨l, hended, beq_self_eq_true l⟩)
    obtain ⟨h, hmem, hsame⟩ := (htold (· == l)).mp hfound
    rwa [← eq_of_beq hsame]
  · rw [hscope isClassHeader, or_iff_left_iff_imp]
    rintro ⟨h, hended, hclass⟩
    exact ⟨h, hlisted h hended, hclass⟩

end

/-- The lines above a function in a function that stands behind a class. -/
def behindClass : List Line :=
  ["  function f() \x7b", "  \x7d", "  class A \x7b", "function outer() \x7b"].map String.toList

-- no class encloses the function, but a class has ended above it
example :
    (enclosing 4 behindClass).map String.ofList = ["  function f() \x7b", "function outer() \x7b"] ∧
      scopeOf (fun l => JavaScript.patterns.classHeader.fitsFront l) behindClass
        "    function g() \x7b".toList = classScope := by decide +kernel

end CodeClones.LinePatterns
