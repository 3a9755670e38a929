import CodeClones.Proofs.Extraction
import Mathlib.Data.List.Basic
import Mathlib.Data.String.Basic

/-!
# Where symbols lie

Whatever finds a symbol, its identifier is the digest of a text that starts with the path of its
file and a line feed. Symbols of different files therefore have different identifiers, as far as the
digests of these texts differ.
-/

namespace CodeClones

namespace Symbol

/-- The text that the identifier of a symbol is the digest of. -/
def ownText (s : Symbol) : String := identityText s.filePath s.name s.lineNumber s.kind

/-- A symbol made for a file. -/
structure LiesIn (path : String) (s : Symbol) : Prop where
  filePath : s.filePath = normalizePath path
  id : s.id = Digest.Blake3.hexOfText s.ownText

end Symbol

theorem Declaration.toSymbol_liesIn (d : Declaration) (path : String) :
    (d.toSymbol path).LiesIn path := ⟨rfl, rfl⟩

/-- The lines of a declaration are counted to the end exactly if there are few enough. -/
theorem Declaration.symbolInWord_eq_ok_iff {d : Declaration} {path : String} {s : Symbol} :
    d.symbolInWord path = .ok s ↔
      (d.toSymbol path).lineCount < UInt64.size ∧ s = d.toSymbol path := by
  rw [symbolInWord, word]
  change _ ↔ d.endLine - d.startLine + 1 < UInt64.size ∧ _
  split <;> simp [Except.map, eq_comm, *]

theorem ReportedSymbol.toSymbol?_liesIn {r : ReportedSymbol} {path source : String} {s : Symbol}
    (h : r.toSymbol? path source = .ok (some s)) : s.LiesIn path := by
  cases hkind : Kind.ofServerCode? r.code with
  | none => simp [toSymbol?, hkind] at h
  | some kind =>
    by_cases hword : r.LeavesWord
    · cases (toSymbol?_of_leavesWord hkind hword path source).symm.trans h
    · cases (toSymbol?_of_not_leavesWord hkind hword path source).symm.trans h
      exact ⟨rfl, rfl⟩

theorem mem_of_mem_dropRepeats {symbols : List Symbol} {s : Symbol}
    (h : s ∈ dropRepeats symbols) : s ∈ symbols := by
  fun_induction dropRepeats symbols with
  | case1 => exact h
  | case2 => exact h
  | case3 a b rest he ih =>
    rcases List.mem_cons.mp (ih h) with rfl | h
    · exact List.mem_cons_self ..
    · exact List.mem_cons_of_mem _ (List.mem_cons_of_mem _ h)
  | case4 a b rest he ih =>
    rcases List.mem_cons.mp h with rfl | h
    · exact List.mem_cons_self ..
    · exact List.mem_cons_of_mem _ (ih h)

theorem GrammarEntry.symbols_liesIn {grammar : GrammarEntry} {parsers : Syntax.Parsers}
    {path source : String} {s : Symbol} (h : s ∈ grammar.symbols parsers path source) :
    s.LiesIn path := by
  unfold GrammarEntry.symbols at h
  dsimp only at h
  split at h
  · obtain ⟨d, _, rfl⟩ := List.mem_map.mp (List.mem_mergeSort.mp (mem_of_mem_dropRepeats h))
    exact d.toSymbol_liesIn path
  · cases h

namespace Extractor

/-- The symbols of some reports lie in the file. -/
theorem reportedSymbols_liesIn {reports : List ReportedSymbol} {path source : String}
    {symbols : List Symbol} (h : reportedSymbols reports path source = .ok symbols) {s : Symbol}
    (hs : s ∈ symbols) : s.LiesIn path := by
  obtain ⟨found, hfound, rfl⟩ := exists_of_map_eq_ok h
  obtain ⟨s', hs', rfl⟩ := List.mem_filterMap.mp hs
  obtain ⟨r, -, hr⟩ := exists_of_mem_mapM hfound hs'
  exact ReportedSymbol.toSymbol?_liesIn hr

/-- The symbols that are found in a text lie in its file, if to normalize its path changes
nothing. -/
theorem symbolsOf_liesIn {e : Extractor} {path source : String} {symbols : List Symbol}
    {strategy : Strategy} (hpath : normalizePath path = path)
    (h : e.symbolsOf path source = .ok (symbols, strategy)) {s : Symbol}
    (hs : s ∈ symbols) : s.LiesIn path := by
  cases hreports : e.reports? (normalizePath path) with
  | some reports =>
    simp only [symbolsOf, hreports] at h
    cases hsymbols : reportedSymbols reports (normalizePath path) source with
    | error cause =>
      rw [hsymbols] at h
      cases h
    | ok found =>
      rw [hsymbols] at h
      cases h
      exact hpath ▸ reportedSymbols_liesIn hsymbols hs
  | none =>
    cases hgrammar : GrammarEntry.ofPath? (normalizePath path) with
    | some grammar =>
      rw [symbolsOf_of_grammar hreports hgrammar, hpath, hpath] at h
      cases h
      exact GrammarEntry.symbols_liesIn hs
    | none =>
      rw [symbolsOf_of_lines hreports hgrammar, hpath] at h
      cases hpatterns : linePatterns? path with
      | none =>
        rw [hpatterns] at h
        cases h
      | some patterns =>
        rw [hpatterns] at h
        cases h
        obtain ⟨d, _, rfl⟩ := List.mem_map.mp hs
        exact d.toSymbol_liesIn path

end Extractor

/-- A path that stands for itself in identifiers. -/
structure PlainPath (path : String) : Prop where
  normal : normalizePath path = path
  oneLine : '\n' ∉ path.toList

/-- The text before the first line feed. -/
private theorem takeWhile_line {line rest : List Char} (h : '\n' ∉ line) :
    (line ++ '\n' :: rest).takeWhile (· != '\n') = line := by
  rw [List.takeWhile_append_of_pos]
  · simp
  · intro c hc
    simp only [bne_iff_ne, ne_eq]
    rintro rfl
    exact h hc

/-- The text of an identifier tells the path. -/
theorem Symbol.LiesIn.path_eq {path path' : String} {s s' : Symbol} (h : s.LiesIn path)
    (h' : s'.LiesIn path') (hp : PlainPath path) (hp' : PlainPath path')
    (ht : s.ownText = s'.ownText) : path = path' := by
  have hline : ∀ {path : String} {s : Symbol}, s.LiesIn path → PlainPath path →
      s.ownText.toList.takeWhile (· != '\n') = path.toList := by
    intro path s h hp
    have hpath : normalizePath s.filePath = path := by rw [h.filePath, hp.normal, hp.normal]
    simp only [ownText, identityText, hpath, String.toList_append, List.append_assoc]
    exact takeWhile_line hp.oneLine
  apply String.toList_inj.mp
  rw [← hline h hp, ← hline h' hp', ht]

end CodeClones
