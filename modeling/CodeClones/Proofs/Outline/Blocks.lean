import CodeClones.Proofs.Outline.Declarations
import Mathlib.Order.Bounds.Basic

/-!
# Where blocks end

A block opens on its first line or, unless that line ends in a semicolon, on the next one. It ends
on the first line from there on up to which at least as many braces are closed as are opened. A
block that does not open is its first line, and one that is not closed within the limit goes on to
the last line that is searched.
-/

namespace CodeClones.LinePatterns

/-- The number of the last line of the block that starts on the line `start`, lines counted from
zero. -/
def blockEnd (lines : List Line) (start : Nat) : Nat :=
  start + (block (lines.drop start)).length - 1

/-- The lines from `start` up to and including `last`. -/
def passage (lines : List Line) (start last : Nat) : List Line := (lines.take (last + 1)).drop start

/-- At least as many braces are closed on some lines as are opened. -/
def Balanced (lines : List Line) : Prop :=
  lines.flatten.count '\x7b' ≤ lines.flatten.count '\x7d'

instance (lines : List Line) : Decidable (Balanced lines) :=
  inferInstanceAs (Decidable (_ ≤ _))

/-- The last character of a line is a semicolon, blanks aside. -/
def EndsStatement (line : Line) : Prop :=
  ∃ front blanks, line = front ++ ';' :: blanks ∧ ∀ c ∈ blanks, Text.isBlank c

/-- The line on which a block that starts on the line `start` opens. -/
inductive OpensOn (lines : List Line) (start : Nat) : Nat → Prop
  | here {line : Line} (hline : lines[start]? = some line) (hbrace : '\x7b' ∈ line) :
    OpensOn lines start start
  | below {line next : Line} (hline : lines[start]? = some line) (hnone : '\x7b' ∉ line)
    (hgoes : ¬EndsStatement line) (hnext : lines[start + 1]? = some next)
    (hbrace : '\x7b' ∈ next) : OpensOn lines start (start + 1)

/-- A line within the limit, from the opening one on, up to which the braces are balanced. -/
structure ClosesOn (lines : List Line) (start opening k : Nat) : Prop where
  from_opening : opening ≤ k
  within_limit : k < start + blockLimit
  among_lines : k < lines.length
  balanced : Balanced (passage lines start k)

/-! ## The search -/

/-- How many more braces are opened on some lines than are closed. -/
def braceDepth (lines : List Line) : Int :=
  lines.flatten.count '\x7b' - lines.flatten.count '\x7d'

theorem braceDepth_concat (lines : List Line) (line : Line) :
    braceDepth (lines ++ [line]) =
      braceDepth lines + line.count '\x7b' - line.count '\x7d' := by
  simp only [braceDepth, List.flatten_append, List.flatten_singleton, List.count_append,
    Int.natCast_add]
  omega

theorem balanced_iff {lines : List Line} : Balanced lines ↔ braceDepth lines ≤ 0 := by
  rw [Balanced, braceDepth]
  omega

/-- The first number from `first` on below `bound` with a property, or the last one below `bound` if
none has it. -/
inductive FirstOrLast (p : Nat → Prop) (first bound : Nat) : Nat → Prop
  | hit {n : Nat} (hfirst : first ≤ n) (hbound : n < bound) (hn : p n)
    (hbefore : ∀ k, first ≤ k → k < n → ¬p k) : FirstOrLast p first bound n
  | last (hnone : ∀ k, first ≤ k → k < bound → ¬p k) : FirstOrLast p first bound (bound - 1)

theorem FirstOrLast.of_succ {p : Nat → Prop} {first bound n : Nat} (hp : ¬p first)
    (h : FirstOrLast p (first + 1) bound n) : FirstOrLast p first bound n := by
  have hskip : ∀ {k}, first ≤ k → p k → first + 1 ≤ k := fun {k} hk hpk =>
    Nat.lt_of_le_of_ne hk fun he => hp (he ▸ hpk)
  cases h with
  | hit hfirst hbound hn hbefore =>
    exact .hit (Nat.le_of_succ_le hfirst) hbound hn fun k hk hlt hpk =>
      hbefore k (hskip hk hpk) hlt hpk
  | last hnone => exact .last fun k hk hlt hpk => hnone k (hskip hk hpk) hlt hpk

/-- Once a brace has been opened, the search ends on the first line up to which the braces are
balanced, or else on the last line. -/
theorem linesBehind_opened (passed rest : List Line) :
    FirstOrLast (fun k => Balanced ((passed ++ rest).take (k + 1))) passed.length
      (passed ++ rest).length (linesBehind (braceDepth passed) true passed.length rest) := by
  induction rest generalizing passed with
  | nil =>
    rw [linesBehind, List.append_nil]
    exact .last fun k hk hlt => absurd hlt (Nat.not_lt.mpr hk)
  | cons line rest ih =>
    have htake : (passed ++ line :: rest).take (passed.length + 1) = passed ++ [line] := by
      rw [List.take_length_add_append, List.take_succ_cons, List.take_zero]
    rw [linesBehind, Bool.true_or, ← braceDepth_concat]
    by_cases hclosed : braceDepth (passed ++ [line]) ≤ 0
    · rw [if_pos (by simpa using hclosed)]
      refine .hit (Nat.le_refl _) (by simp) ?_ fun k hk hlt => absurd hlt (Nat.not_lt.mpr hk)
      rw [htake]
      exact balanced_iff.mpr hclosed
    · rw [if_neg (by simpa using hclosed), if_neg (by simp)]
      refine .of_succ (by rw [htake, balanced_iff]; exact hclosed) ?_
      have hrest := ih (passed ++ [line])
      rwa [List.append_assoc, List.singleton_append, List.length_append] at hrest

section

variable {line next : Line} {rest : List Line} {depth : Int} {opened : Bool} {passed : Nat}

/-- A line with an opening brace opens the block. -/
theorem linesBehind_of_mem (h : '\x7b' ∈ line) :
    linesBehind depth opened passed (line :: rest) =
      linesBehind depth true passed (line :: rest) := by
  rw [linesBehind, linesBehind, List.contains_iff_mem.mpr h, Bool.or_true, Bool.or_true]

theorem endsStatement_iff :
    EndsStatement line ↔ (Text.trimEndWith Text.isBlank line).getLast? = some ';' := by
  rw [Text.trimEndWith, List.getLast?_reverse]
  constructor
  · rintro ⟨front, blanks, rfl, hblanks⟩
    rw [List.reverse_append, List.reverse_cons, List.append_assoc,
      List.dropWhile_append_of_pos fun c hc => hblanks c (List.mem_reverse.mp hc)]
    rfl
  · intro h
    obtain ⟨front, hfront⟩ := List.head?_eq_some_iff.mp h
    refine ⟨front.reverse, (line.reverse.takeWhile Text.isBlank).reverse, ?_, fun c hc => ?_⟩
    · apply List.reverse_injective
      rw [List.reverse_append, List.reverse_cons, List.reverse_reverse, List.reverse_reverse,
        List.append_assoc, List.singleton_append, ← hfront, List.takeWhile_append_dropWhile]
    · exact List.all_eq_true.mp List.all_takeWhile c (List.mem_reverse.mp hc)

/-- Without a brace on its first line, a block goes on to the next line only if the first one does
not end in a semicolon. -/
theorem linesBehind_first (h : '\x7b' ∉ line) : linesBehind 0 false 0 (line :: rest) =
    if (Text.trimEndWith Text.isBlank line).getLast? = some ';' then 0
    else linesBehind (braceDepth [line]) false 1 rest := by
  have hdepth : (0 : Int) + line.count '\x7b' - line.count '\x7d' = braceDepth [line] := by
    rw [← List.nil_append [line], braceDepth_concat]
    rfl
  have hcontains : line.contains '\x7b' = false :=
    Bool.eq_false_iff.mpr fun hc => h (List.contains_iff_mem.mp hc)
  rw [linesBehind, hdepth, hcontains]
  simp

/-- If there is no brace on the next line either, the block is its first line. -/
theorem linesBehind_second (h : '\x7b' ∉ next) : linesBehind depth false 1 (next :: rest) = 0 := by
  have hcontains : next.contains '\x7b' = false :=
    Bool.eq_false_iff.mpr fun hc => h (List.contains_iff_mem.mp hc)
  rw [linesBehind, hcontains]
  simp

end

/-! ## The end of a block -/

section

variable {lines : List Line} {start : Nat}

theorem blockEnd_eq (h : start < lines.length) : blockEnd lines start =
    start + linesBehind 0 false 0 ((lines.drop start).take blockLimit) := by
  have hrest : lines.drop start ≠ [] := by
    rw [ne_eq, List.drop_eq_nil_iff]
    omega
  rw [blockEnd, length_block hrest]
  omega

/-- The lines of a block are those up to its last one. -/
theorem block_drop (h : start < lines.length) :
    block (lines.drop start) = passage lines start (blockEnd lines start) := by
  rw [passage, blockEnd_eq h, block, List.drop_take]
  congr 1
  omega

/-- A declaration has the lines of the block that starts on its header; its lines are counted from
one. -/
theorem lines_of_declarationOn? {p : LinePatterns} {above : List Line} {d : Declaration}
    (hstart : start < lines.length)
    (h : p.declarationOn? above (start + 1) (lines.drop start) = some d) :
    d.startLine = start + 1 ∧ d.endLine = blockEnd lines start + 1 ∧
      d.content = String.ofList
        (Text.joinWith ['\n'] (passage lines start (blockEnd lines start))) := by
  have hcons := List.drop_eq_getElem_cons hstart
  have hpos : 1 ≤ (block (lines.drop start)).length := by
    rw [hcons, length_block (List.cons_ne_nil _ _)]
    exact Nat.le_add_left ..
  rw [hcons] at h
  obtain ⟨hfirst, hlast, hcontent, -⟩ := declarationOn?_eq_some h
  rw [← hcons] at hlast hcontent
  refine ⟨hfirst, ?_, by rw [← block_drop hstart, hcontent]⟩
  rw [hlast, blockEnd]
  omega

theorem take_searched {j : Nat} (hj : j < blockLimit) :
    ((lines.drop start).take blockLimit).take (j + 1) = passage lines start (start + j) := by
  rw [passage, List.take_take, Nat.min_eq_left hj, List.drop_take]
  congr 1
  omega

/-- A search among the lines that are counted from the first one of the block is one among all
lines. -/
theorem closesOn_iff {opening j : Nat} :
    ClosesOn lines start (start + opening) (start + j) ↔ opening ≤ j ∧
      j < ((lines.drop start).take blockLimit).length ∧
      Balanced (((lines.drop start).take blockLimit).take (j + 1)) := by
  rw [List.length_take, List.length_drop]
  constructor
  · rintro ⟨hopening, hlimit, hlines, hbalanced⟩
    rw [take_searched (by omega)]
    exact ⟨by omega, by omega, hbalanced⟩
  · rintro ⟨hopening, hlt, hbalanced⟩
    rw [take_searched (by omega)] at hbalanced
    exact ⟨by omega, by omega, by omega, hbalanced⟩

theorem ClosesOn.exists_add {opening k : Nat} (h : ClosesOn lines start (start + opening) k) :
    ∃ j, k = start + j ∧ opening ≤ j ∧ j < ((lines.drop start).take blockLimit).length ∧
      Balanced (((lines.drop start).take blockLimit).take (j + 1)) := by
  obtain ⟨j, rfl⟩ :=
    Nat.exists_eq_add_of_le (Nat.le_trans (Nat.le_add_right start opening) h.from_opening)
  exact ⟨j, rfl, closesOn_iff.mp h⟩

/-- The search for the end of a block that opens. -/
theorem search_of_opensOn {opening : Nat} (h : OpensOn lines start opening) :
    ∃ first, opening = start + first ∧
      FirstOrLast (fun j => Balanced (((lines.drop start).take blockLimit).take (j + 1))) first
        ((lines.drop start).take blockLimit).length
        (linesBehind 0 false 0 ((lines.drop start).take blockLimit)) := by
  cases h with
  | @here line hline hbrace =>
    have hlines : (lines.drop start).take blockLimit =
        line :: (lines.drop (start + 1)).take (blockLimit - 1) := by
      rw [List.drop_eq_getElem?_toList_append, hline]
      rfl
    refine ⟨0, rfl, ?_⟩
    rw [hlines, linesBehind_of_mem hbrace]
    exact linesBehind_opened [] _
  | @below line next hline hnone hgoes hnext hbrace =>
    have hlines : (lines.drop start).take blockLimit =
        line :: next :: (lines.drop (start + 1 + 1)).take (blockLimit - 1 - 1) := by
      rw [List.drop_eq_getElem?_toList_append, hline, List.drop_eq_getElem?_toList_append, hnext]
      rfl
    refine ⟨1, rfl, ?_⟩
    rw [hlines, linesBehind_first hnone, if_neg fun h => hgoes (endsStatement_iff.mpr h),
      linesBehind_of_mem hbrace]
    exact linesBehind_opened [line] _

/-- A block that does not open has no lines behind its first one. -/
theorem linesBehind_of_not_opensOn (h : ∀ opening, ¬OpensOn lines start opening) :
    linesBehind 0 false 0 ((lines.drop start).take blockLimit) = 0 := by
  rw [List.drop_eq_getElem?_toList_append]
  cases hline : lines[start]? with
  | none =>
    rw [List.drop_eq_nil_iff.mpr (Nat.le_succ_of_le (List.getElem?_eq_none_iff.mp hline))]
    rfl
  | some line =>
    change linesBehind 0 false 0 (line :: (lines.drop (start + 1)).take (blockLimit - 1)) = 0
    have hnone : '\x7b' ∉ line := fun hbrace => h start (.here hline hbrace)
    rw [linesBehind_first hnone]
    split
    · rfl
    · rename_i hends
      rw [List.drop_eq_getElem?_toList_append]
      cases hnext : lines[start + 1]? with
      | none =>
        rw [List.drop_eq_nil_iff.mpr (Nat.le_succ_of_le (List.getElem?_eq_none_iff.mp hnext))]
        rfl
      | some next =>
        exact linesBehind_second fun hbrace => h (start + 1)
          (.below hline hnone (fun he => hends (endsStatement_iff.mp he)) hnext hbrace)

/-- The block that starts on a line of some lines is made of the lines up to its end, which is one
of them, and so is what is declared on that line. It is that line alone if neither this line has an
opening brace nor, unless this one ends in a semicolon, the next line has. Otherwise it ends on the
first line within the limit, from the one with that brace on, up to which at least as many braces
are closed as are opened, and without such a line at the limit or on the last line of all. -/
theorem blockEnd_balances (hstart : start < lines.length) :
    start ≤ blockEnd lines start ∧ blockEnd lines start < lines.length ∧
    block (lines.drop start) = passage lines start (blockEnd lines start) ∧
    (∀ (p : LinePatterns) above d, p.declarationOn? above (start + 1) (lines.drop start) = some d →
      d.startLine = start + 1 ∧ d.endLine = blockEnd lines start + 1 ∧
      d.content = String.ofList
        (Text.joinWith ['\n'] (passage lines start (blockEnd lines start)))) ∧
    ((∀ opening, ¬OpensOn lines start opening) → blockEnd lines start = start) ∧
    ∀ opening, OpensOn lines start opening →
      (∀ k, IsLeast {k | ClosesOn lines start opening k} k → blockEnd lines start = k) ∧
      ((∀ k, ¬ClosesOn lines start opening k) →
        blockEnd lines start = min (start + blockLimit - 1) (lines.length - 1)) := by
  have hrest : lines.drop start ≠ [] := by
    rw [ne_eq, List.drop_eq_nil_iff]
    omega
  have hlt := linesBehind_lt hrest
  rw [List.length_drop] at hlt
  have hend := blockEnd_eq hstart
  refine ⟨by omega, by omega, block_drop hstart,
    fun p above d hd => lines_of_declarationOn? hstart hd, fun hnone => ?_,
    fun opening hopening => ?_⟩
  · rw [hend, linesBehind_of_not_opensOn hnone, Nat.add_zero]
  obtain ⟨first, rfl, hsearch⟩ := search_of_opensOn hopening
  rw [hend]
  generalize linesBehind 0 false 0 ((lines.drop start).take blockLimit) = n at hsearch
  cases hsearch with
  | hit hfirst hbound hn hbefore =>
    have hcloses : ClosesOn lines start (start + first) (start + n) :=
      closesOn_iff.mpr ⟨hfirst, hbound, hn⟩
    refine ⟨fun k hk => ?_, fun hnone => absurd hcloses (hnone _)⟩
    have hle : k ≤ start + n := hk.2 hcloses
    obtain ⟨j, rfl, hj, -, hbalanced⟩ := hk.1.exists_add
    by_contra hne
    exact hbefore j hj (by omega) hbalanced
  | last hnone =>
    refine ⟨fun k hk => ?_, fun _ => ?_⟩
    · obtain ⟨j, -, hj, hbound, hbalanced⟩ := hk.1.exists_add
      exact absurd hbalanced (hnone j hj hbound)
    · rw [List.length_take, List.length_drop, blockLimit]
      omega

end

/-- A function whose brace stands on the next line, with blocks in its block. -/
def braceBelow : List Line :=
  ["int of(int n)", "\x7b", "  if (n) \x7b return 1; \x7d", "  while (n) \x7b", "  \x7d", "\x7d",
    "\x7d"].map String.toList

theorem blockEnd_balances_braceBelow : 0 < braceBelow.length ∧ OpensOn braceBelow 0 1 ∧
    IsLeast {k | ClosesOn braceBelow 0 1 k} 5 ∧ blockEnd braceBelow 0 = 5 ∧
    block braceBelow = passage braceBelow 0 5 := by
  have hgoes : ¬EndsStatement "int of(int n)".toList := fun h =>
    absurd (endsStatement_iff.mp h) (by decide)
  have hopens : OpensOn braceBelow 0 1 := .below rfl (by decide) hgoes rfl (by decide)
  have hleast : IsLeast {k | ClosesOn braceBelow 0 1 k} 5 := by
    refine ⟨⟨by decide, by decide, by decide, by decide⟩, fun k hk => ?_⟩
    have hbefore : ∀ j < 5, 1 ≤ j → ¬Balanced (passage braceBelow 0 j) := by decide
    by_contra hlt
    exact hbefore k (Nat.lt_of_not_le hlt) hk.from_opening hk.balanced
  obtain ⟨-, -, hblock, -, -, hopened⟩ := blockEnd_balances (show 0 < braceBelow.length by decide)
  have hend : blockEnd braceBelow 0 = 5 := (hopened 1 hopens).1 5 hleast
  rw [hend] at hblock
  exact ⟨by decide, hopens, hleast, hend, hblock⟩

end CodeClones.LinePatterns
