import CodeClones.Symbol.Reported
import Mathlib.Data.List.Basic

/-!
# Ranges reported by language servers

A report gives the first and the last line of a symbol as words of 64 bits, counted from zero, and
neither has to lie in the file or the last one behind the first. The symbol gets the lines of the
range that exist. There are two ranges for which the program stops: the one that starts in the last
line that there can be, which has no number, and the widest one, whose lines cannot be counted.
-/

namespace CodeClones

/-- The lines from one position to another one, as far as they exist. -/
def linesBetween (lines : List String) (first last : Nat) : List String :=
  (List.range' first (last + 1 - first)).filterMap (lines[·]?)

theorem filterMap_range'_getElem? (lines : List String) (first count : Nat) :
    (List.range' first count).filterMap (lines[·]?) = (lines.drop first).take count := by
  induction count generalizing first with
  | zero => rfl
  | succ count ih =>
    rw [List.range'_succ, List.filterMap_cons, ih]
    by_cases hfirst : first < lines.length
    · rw [List.getElem?_eq_getElem hfirst, List.drop_eq_getElem_cons hfirst, List.take_succ_cons]
    · have hlength := Nat.not_lt.mp hfirst
      rw [List.getElem?_eq_none hlength, List.drop_of_length_le hlength,
        List.drop_of_length_le (Nat.le_succ_of_le hlength), List.take_nil, List.take_nil]

namespace ReportedSymbol

/-- The last line of a report; a range that ends before it starts has one line. -/
def lastLine (r : ReportedSymbol) : Nat := max r.startLine r.endLine

/-- A report of the widest range of lines. -/
def IsWidest (r : ReportedSymbol) : Prop := r.startLine = 0 ∧ r.endLine + 1 = UInt64.size

instance (r : ReportedSymbol) : Decidable r.IsWidest := inferInstanceAs (Decidable (_ ∧ _))

/-- A symbol has the lines of a report that exist. -/
structure HasLines (r : ReportedSymbol) (source : String) (s : Symbol) : Prop where
  lineCount_pos : 1 ≤ s.lineCount
  lineCount : s.lineCount = r.lastLine - r.startLine + 1
  content : s.content =
    "\n".intercalate (linesBetween source.sourceLines r.startLine r.lastLine)

/-- The number of the first line of a report, or the count of its lines, is too large for a word. -/
def LeavesWord (r : ReportedSymbol) : Prop :=
  UInt64.size ≤ r.startLine + 1 ∨ UInt64.size ≤ r.lastLine - r.startLine + 1

instance (r : ReportedSymbol) : Decidable r.LeavesWord := inferInstanceAs (Decidable (_ ∨ _))

variable {r : ReportedSymbol} {kind : Kind}

/-- Of the reports whose lines are words two leave the word. -/
theorem leavesWord_iff (hstart : r.startLine < UInt64.size) (hend : r.endLine < UInt64.size) :
    r.LeavesWord ↔ r.startLine + 1 = UInt64.size ∨ r.IsWidest := by
  rw [LeavesWord, IsWidest, lastLine]
  omega

/-- Unless it leaves the word, a report with a known code stands for a symbol. -/
theorem toSymbol?_of_not_leavesWord (hkind : Kind.ofServerCode? r.code = some kind)
    (h : ¬r.LeavesWord) (path source : String) :
    r.toSymbol? path source = .ok (some (r.symbolOf kind path source (r.startLine + 1)
      (r.lastLine - r.startLine + 1))) := by
  simp only [LeavesWord, not_or, Nat.not_le] at h
  obtain ⟨hnumber, hcount⟩ := h
  rw [lastLine, Nat.max_comm] at hcount ⊢
  simp only [toSymbol?, hkind, word_of_lt hcount, word_of_lt hnumber]
  rfl

/-- At one that leaves the word the program stops. -/
theorem toSymbol?_of_leavesWord (hkind : Kind.ofServerCode? r.code = some kind)
    (h : r.LeavesWord) (path source : String) : r.toSymbol? path source = .error .sum := by
  rw [LeavesWord, lastLine, Nat.max_comm] at h
  simp only [toSymbol?, hkind]
  by_cases hcount : UInt64.size ≤ max r.endLine r.startLine - r.startLine + 1
  · rw [word_of_le hcount]
    rfl
  · rw [word_of_lt (Nat.lt_of_not_le hcount), word_of_le (h.resolve_right hcount)]
    rfl

/-- The program stops exactly at the reports with a known code that leave the word. -/
theorem isOk_toSymbol?_iff (path source : String) : (r.toSymbol? path source).isOk ↔
    ((Kind.ofServerCode? r.code).isSome → ¬r.LeavesWord) := by
  cases hkind : Kind.ofServerCode? r.code with
  | none => simp [toSymbol?, hkind, Except.isOk, Except.toBool]
  | some kind =>
    by_cases h : r.LeavesWord
    · simp [toSymbol?_of_leavesWord hkind h, h, Except.isOk, Except.toBool]
    · simp [toSymbol?_of_not_leavesWord hkind h, h, Except.isOk, Except.toBool]

/-- The symbol of a report has its lines. -/
theorem hasLines_symbolOf (kind : Kind) (path source : String) (number : Nat) :
    r.HasLines source (r.symbolOf kind path source number (r.lastLine - r.startLine + 1)) where
  lineCount_pos := Nat.le_add_left ..
  lineCount := rfl
  content := by
    have hlast : r.startLine ≤ r.lastLine := Nat.le_max_left ..
    rw [linesBetween, filterMap_range'_getElem?, Nat.sub_add_comm hlast]
    rfl

/-- A report with a known code, whose lines are words, makes the program stop if its range starts in
the last line that there can be or is the widest one. Any other one stands for a symbol whose line
number is the first line, counted from one, and which has the lines of the report that exist. -/
theorem toSymbol?_lines (hkind : Kind.ofServerCode? r.code = some kind)
    (hstart : r.startLine < UInt64.size) (hend : r.endLine < UInt64.size) (path source : String) :
    (r.LeavesWord ↔ r.startLine + 1 = UInt64.size ∨ r.IsWidest) ∧
      (r.LeavesWord → r.toSymbol? path source = .error .sum) ∧
      (¬r.LeavesWord → ∃ s, r.toSymbol? path source = .ok (some s) ∧ s.kind = kind ∧
        1 ≤ s.lineNumber ∧ s.lineNumber = r.startLine + 1 ∧ r.HasLines source s) := by
  refine ⟨leavesWord_iff hstart hend, fun h => toSymbol?_of_leavesWord hkind h path source,
    fun h => ⟨_, toSymbol?_of_not_leavesWord hkind h path source, rfl, ?_⟩⟩
  have hfirst : (r.symbolOf kind path source (r.startLine + 1)
      (r.lastLine - r.startLine + 1)).lineNumber = r.startLine + 1 :=
    Nat.max_eq_left (Nat.le_add_left ..)
  exact ⟨by omega, hfirst, hasLines_symbolOf ..⟩

/-- A report whose range ends before it starts. -/
private def reversed : ReportedSymbol := ⟨"total", 12, 1, 0, none⟩

/-- A report of the widest range. -/
private def widest : ReportedSymbol := ⟨"total", 12, 0, UInt64.size - 1, none⟩

/-- The one has the line where it starts, and at the other one the program stops. -/
theorem toSymbol?_lines_reversedAndWidest :
    (∃ s, reversed.toSymbol? "a.py" "def f():\n  pass\n" = .ok (some s) ∧
      s.lineNumber = 2 ∧ s.lineCount = 1 ∧ s.content = "  pass") ∧
    widest.toSymbol? "a.py" "def f():\n  pass\n" = .error .sum := by
  constructor
  · obtain ⟨-, -, hreads⟩ := toSymbol?_lines
      (rfl : Kind.ofServerCode? reversed.code = some .function) (by decide) (by decide) "a.py"
      "def f():\n  pass\n"
    obtain ⟨s, hs, -, -, hnumber, hlines⟩ := hreads (by decide)
    exact ⟨s, hs, hnumber, hlines.lineCount, hlines.content⟩
  · obtain ⟨-, hstops, -⟩ := toSymbol?_lines
      (rfl : Kind.ofServerCode? widest.code = some .function) (by decide) (by decide) "a.py"
      "def f():\n  pass\n"
    exact hstops (by decide)

end ReportedSymbol

end CodeClones
