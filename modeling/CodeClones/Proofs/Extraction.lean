import CodeClones.Extraction.Basic
import CodeClones.Proofs.Language
import CodeClones.Proofs.Reported

/-!
# What an extractor finds

The symbols of a file depend on its path and its content only, not on the files read before it. In a
tree that does not change every file is therefore read for itself. Without a language server a file
of a known language is read with a grammar or line by line, as the language has it. Only the reports
of a language server can make the program stop.
-/

namespace CodeClones

/-- An outcome that is mapped is a success only where it was one. -/
theorem exists_of_map_eq_ok {ε α β : Type} {x : Except ε α} {f : α → β} {b : β}
    (h : x.map f = .ok b) : ∃ a, x = .ok a ∧ f a = b := by
  cases x with
  | error e => cases h
  | ok a => exact ⟨a, rfl, Except.ok.inj h⟩

/-- Steps succeed only where each one did. -/
theorem exists_of_bind_eq_ok {ε α β : Type} {x : Except ε α} {f : α → Except ε β} {b : β}
    (h : x >>= f = .ok b) : ∃ a, x = .ok a ∧ f a = .ok b := by
  cases x with
  | error e => cases h
  | ok a => exact ⟨a, rfl, h⟩

/-- A list is mapped to outcomes that are all successes exactly if each one is. -/
theorem isOk_mapM_iff {ε α β : Type} {f : α → Except ε β} {xs : List α} :
    (xs.mapM f).isOk ↔ ∀ x ∈ xs, (f x).isOk := by
  induction xs with
  | nil => simp [pure, Except.pure, Except.isOk, Except.toBool]
  | cons x xs ih =>
    rw [List.mapM_cons, List.forall_mem_cons, ← ih]
    cases f x with
    | error e => simp [bind, Except.bind, Except.isOk, Except.toBool]
    | ok y => cases xs.mapM f <;> simp [bind, Except.bind, pure, Except.pure, Except.isOk,
        Except.toBool]

/-- What a list is mapped to comes from its elements. -/
theorem exists_of_mem_mapM {ε α β : Type} {f : α → Except ε β} {xs : List α} {ys : List β}
    (h : xs.mapM f = .ok ys) {y : β} (hy : y ∈ ys) : ∃ x ∈ xs, f x = .ok y := by
  induction xs generalizing ys with
  | nil =>
    cases h
    cases hy
  | cons x xs ih =>
    rw [List.mapM_cons] at h
    obtain ⟨first, hfirst, h⟩ := exists_of_bind_eq_ok h
    obtain ⟨rest, hrest, h⟩ := exists_of_bind_eq_ok h
    cases h
    rcases List.mem_cons.mp hy with rfl | hy
    · exact ⟨x, List.mem_cons_self .., hfirst⟩
    · exact (ih hrest hy).imp fun x' hx' => hx'.imp_left (List.mem_cons_of_mem _)

/-- A file with a text is a file with the bytes of that text. -/
theorem Tree.readText_of_read {t : Tree} {path : String} {bytes : ByteArray}
    (h : t.read path = .ok bytes) :
    (t.readText path).toOption = String.fromUTF8? bytes := by
  rw [readText, h]
  dsimp only
  split
  · rename_i text he
    rw [he]
    rfl
  · rename_i he
    rw [he]
    rfl

theorem Tree.readText_of_read_error {t : Tree} {path : String} {cause : FileError}
    (h : t.read path = .error cause) : t.readText path = .error cause := by
  rw [readText, h]

/-! ## Readers of languages -/

/-- What finds the symbols of a language without a language server. -/
def Language.strategy : Language → Strategy
  | python | rust | typeScript => .syntaxTree
  | javaScript | go | java => .regex

theorem Language.strategy_eq (l : Language) : l.strategy = .syntaxTree ∨ l.strategy = .regex := by
  cases l <;> decide

namespace GrammarEntry

theorem normalExtension_eq {ext : String} (h : '.' ∉ ext.toList) :
    normalExtension ext = Text.lowerLatin (String.ofList (Text.trim ext.toList)) := by
  have hdrop : ext.toList.dropWhile (· == '.') = ext.toList := by
    cases hext : ext.toList with
    | nil => rfl
    | cons c s =>
      rw [List.dropWhile_cons_of_neg]
      rw [beq_iff_eq]
      rintro rfl
      exact h (hext ▸ List.mem_cons_self ..)
  apply String.toList_inj.mp
  rw [normalExtension, hdrop, Text.lowerLatin, String.toList_map, String.toList_ofList,
    String.toList_ofList]

/-- Blanks around the extension of a language do not count. -/
theorem normalExtension_blanks {front ext back : String} {l : Language}
    (hfront : ∀ c ∈ front.toList, Text.isBlank c) (hback : ∀ c ∈ back.toList, Text.isBlank c)
    (h : Text.lowerLatin ext ∈ l.extensions) :
    normalExtension (front ++ ext ++ back) = Text.lowerLatin ext := by
  have hdot : '.' ∉ (front ++ ext ++ back).toList := by
    rw [String.toList_append, String.toList_append, List.mem_append, List.mem_append]
    rintro ((hc | hc) | hc)
    · cases hfront _ hc
    · exact (Language.ne_of_mem_extension h hc).1 rfl
    · cases hback _ hc
  rw [normalExtension_eq hdot, String.toList_append, String.toList_append,
    Text.trim_append_blanks hback, Text.trim_blanks_append hfront,
    Text.trim_eq_self fun c hc => (Language.ne_of_mem_extension h hc).2.2, String.ofList_toList]

/-- There are grammars for the extensions of the languages that are read with one. -/
theorem ofExtension?_isSome_iff {ext : String} : (ofExtension? ext).isSome ↔
    ∃ l : Language, l.strategy = .syntaxTree ∧ normalExtension ext ∈ l.extensions := by
  have hserves : ∀ e ∈ all, e.language.strategy = .syntaxTree ∧
      ∀ ext ∈ e.extensions, ext ∈ e.language.extensions := by
    decide
  have hserved : ∀ l ∈ Language.all, l.strategy = .syntaxTree → ∀ ext ∈ l.extensions,
      ∃ e ∈ all, ext ∈ e.extensions := by
    decide
  rw [ofExtension?, List.find?_isSome]
  simp only [List.contains_iff_mem]
  constructor
  · rintro ⟨e, he, hmem⟩
    exact ⟨e.language, (hserves e he).1, (hserves e he).2 _ hmem⟩
  · rintro ⟨l, hstrategy, hmem⟩
    exact hserved l l.mem_all hstrategy _ hmem

theorem ofPath?_isSome_iff {path : String} : (ofPath? path).isSome ↔
    ∃ ext, FilePath.extension? path = some ext ∧
      ∃ l : Language, l.strategy = .syntaxTree ∧ normalExtension ext ∈ l.extensions := by
  rw [ofPath?]
  cases FilePath.extension? path with
  | none => simp
  | some ext => simp [ofExtension?_isSome_iff]

/-- A path of a language has a grammar if the language is read with one. -/
theorem ofPath?_isSome_of_language {path : String} {l : Language}
    (h : Language.ofPath? path = some l) : (ofPath? path).isSome ↔ l.strategy = .syntaxTree := by
  obtain ⟨ext, hext, hmem⟩ := Language.ofPath?_eq_some_iff.mp h
  have hnormal : normalExtension ext = Text.lowerLatin ext := by
    have hblanks := @normalExtension_blanks "" ext "" l (by simp) (by simp) hmem
    rwa [String.empty_append, String.append_empty] at hblanks
  rw [ofPath?_isSome_iff]
  constructor
  · rintro ⟨ext', hext', l', hstrategy, hmem'⟩
    obtain rfl : ext = ext' := Option.some.inj (hext.symm.trans hext')
    rw [hnormal] at hmem'
    rwa [Language.eq_of_mem_extensions hmem hmem']
  · intro hstrategy
    exact ⟨ext, hext, l, hstrategy, hnormal ▸ hmem⟩

/-- To normalize a path again leaves its grammar. -/
theorem ofPath?_normalizePath_normalizePath (path : String) :
    ofPath? (normalizePath (normalizePath path)) = ofPath? (normalizePath path) := by
  rw [ofPath?, ofPath?, FilePath.extension?_normalizePath_normalizePath]

end GrammarEntry

/-- A file is read with the grammar of its normalized path. -/
theorem grammarSymbols_of_ofPath? {path : String} {grammar : GrammarEntry}
    (h : GrammarEntry.ofPath? (normalizePath path) = some grammar) (parsers : Syntax.Parsers)
    (source : String) : grammarSymbols parsers path source =
      .ok (grammar.symbols parsers (normalizePath path) source) := by
  simp only [grammarSymbols, h, Option.elim_some]

namespace Extractor

theorem linePatterns?_isSome_iff {path : String} :
    (linePatterns? path).isSome ↔ ∃ l, Language.ofPath? path = some l ∧ l.strategy = .regex := by
  rw [linePatterns?]
  cases Language.ofPath? path with
  | none => simp
  | some l => cases l <;> simp [LinePatterns.ofLanguage?, Language.strategy]

/-- Where a language server gives nothing, a file that a grammar serves is read with it. -/
theorem symbolsOf_of_grammar {e : Extractor} {path : String} {grammar : GrammarEntry}
    (hserver : e.reports? (normalizePath path) = none)
    (h : GrammarEntry.ofPath? (normalizePath path) = some grammar) (source : String) :
    e.symbolsOf path source =
      .ok (grammar.symbols e.parsers (normalizePath (normalizePath path)) source, .syntaxTree) := by
  have hagain := (GrammarEntry.ofPath?_normalizePath_normalizePath path).trans h
  simp only [symbolsOf, hserver, h, Option.isSome_some, if_true, grammarSymbols_of_ofPath? hagain]
  rfl

/-- Where a language server gives nothing and no grammar serves a file, its lines are read, if there
are patterns for them. -/
theorem symbolsOf_of_lines {e : Extractor} {path : String}
    (hserver : e.reports? (normalizePath path) = none)
    (h : GrammarEntry.ofPath? (normalizePath path) = none) (source : String) :
    e.symbolsOf path source =
      match linePatterns? (normalizePath path) with
      | some patterns => .ok (patterns.symbols (normalizePath path) source, .regex)
      | none => .error (.unsupported (normalizePath path)) := by
  cases hpatterns : linePatterns? (normalizePath path) <;>
    simp [symbolsOf, hserver, h, hpatterns]

/-- Where a language server gives nothing, a text is read as its language is. -/
theorem symbolsOf_of_language {e : Extractor} {path : String} {l : Language}
    (hserver : e.reports? (normalizePath path) = none)
    (h : Language.ofPath? (normalizePath path) = some l) (source : String) :
    ∃ symbols, e.symbolsOf path source = .ok (symbols, l.strategy) := by
  have hgrammar := GrammarEntry.ofPath?_isSome_of_language h
  cases hfound : GrammarEntry.ofPath? (normalizePath path) with
  | some grammar =>
    rw [hfound] at hgrammar
    rw [symbolsOf_of_grammar hserver hfound, hgrammar.mp rfl]
    exact ⟨_, rfl⟩
  | none =>
    have hregex : l.strategy = .regex := by
      rw [hfound] at hgrammar
      exact l.strategy_eq.resolve_left fun htree => nomatch hgrammar.mpr htree
    obtain ⟨patterns, hpatterns⟩ := Option.isSome_iff_exists.mp
      (linePatterns?_isSome_iff.mpr ⟨l, h, hregex⟩)
    rw [symbolsOf_of_lines hserver hfound, hpatterns, hregex]
    exact ⟨_, rfl⟩

/-- Without a language server nothing is reported. -/
theorem reports?_of_server_eq_none {e : Extractor} (h : e.server = none) (path : String) :
    e.reports? path = none := by
  rw [reports?, h]
  rfl

/-- Where a language server gives nothing, the program does not stop. -/
theorem abort?_symbolsOf {e : Extractor} {path : String}
    (hserver : e.reports? (normalizePath path) = none) (source : String) :
    abort? (e.symbolsOf path source) = none := by
  cases hfound : GrammarEntry.ofPath? (normalizePath path) with
  | some grammar =>
    rw [symbolsOf_of_grammar hserver hfound]
    rfl
  | none =>
    rw [symbolsOf_of_lines hserver hfound]
    cases linePatterns? (normalizePath path) <;> rfl

/-- Where a language server reports symbols, the program stops exactly if one of the reports leaves
the word. -/
theorem abort?_symbolsOf_of_reports {e : Extractor} {path : String} {reports : List ReportedSymbol}
    (h : e.reports? (normalizePath path) = some reports) (source : String) :
    (abort? (e.symbolsOf path source)).isSome ↔
      ∃ r ∈ reports, (Kind.ofServerCode? r.code).isSome ∧ r.LeavesWord := by
  have hall : (reportedSymbols reports (normalizePath path) source).isOk ↔
      ∀ r ∈ reports, (Kind.ofServerCode? r.code).isSome → ¬r.LeavesWord := by
    simp only [← ReportedSymbol.isOk_toSymbol?_iff (normalizePath path) source]
    rw [← isOk_mapM_iff, reportedSymbols]
    cases reports.mapM fun r => r.toSymbol? (normalizePath path) source <;> rfl
  have hstops : (∃ r ∈ reports, (Kind.ofServerCode? r.code).isSome ∧ r.LeavesWord) ↔
      ¬(reportedSymbols reports (normalizePath path) source).isOk := by
    rw [hall]
    push Not
    rfl
  rw [hstops]
  simp only [symbolsOf, h]
  cases reportedSymbols reports (normalizePath path) source <;>
    simp [abort?, Except.isOk, Except.toBool]

/-- A file is a text for which a language server reports a symbol that leaves the word. -/
def LeavesWord (e : Extractor) (t : Tree) (path : String) : Prop :=
  ∃ source reports, t.readText (e.absolute path) = .ok source ∧
    e.reports? (normalizePath (e.relative path)) = some reports ∧
      ∃ r ∈ reports, (Kind.ofServerCode? r.code).isSome ∧ r.LeavesWord

/-- The program stops exactly at these files. -/
theorem abort?_readFile_isSome_iff {e : Extractor} {t : Tree} {path : String} :
    (abort? (e.readFile t path)).isSome ↔ e.LeavesWord t path := by
  unfold readFile LeavesWord
  cases htext : t.readText (e.absolute path) with
  | error cause => simp [abort?]
  | ok source =>
    cases hreports : e.reports? (normalizePath (e.relative path)) with
    | none => simp [abort?_symbolsOf hreports source]
    | some reports => simp [abort?_symbolsOf_of_reports hreports source]

/-! ## Extracted files -/

section CountAnd

variable {e : Extractor} {path : String} {outcome : Except ExtractError (List Symbol × Strategy)}

/-- Where the program stops nothing is counted. -/
theorem countAnd_of_abort {cause : Abort} (h : abort? outcome = some cause)
    (rest : Extractor → Extractor × Except Abort ExtractionBatch) :
    e.countAnd path outcome rest = (e, .error cause) := by
  rw [countAnd, h]

/-- Otherwise the files behind add theirs to the outcome. -/
theorem countAnd_of_none (h : abort? outcome = none)
    (rest : Extractor → Extractor × Except Abort ExtractionBatch) :
    e.countAnd path outcome rest =
      let later := rest { e with stats := e.stats.count outcome }
      (later.1, later.2.map (addOutcome path outcome)) := by
  rw [countAnd, h]

end CountAnd

/-- Extraction counts files and changes nothing else of an extractor. -/
theorem extract_keeps (e : Extractor) (trees : Nat → Tree) (paths : List String) :
    (e.extract trees paths).1.root = e.root ∧
      (e.extract trees paths).1.toReaders = e.toReaders := by
  induction paths generalizing e trees with
  | nil => exact ⟨rfl, rfl⟩
  | cons path paths ih =>
    rw [extract]
    cases habort : abort? (e.readFile (trees 0) path) with
    | some cause =>
      rw [countAnd_of_abort habort]
      exact ⟨rfl, rfl⟩
    | none =>
      rw [countAnd_of_none habort]
      exact ih { e with stats := e.stats.count (e.readFile (trees 0) path) } fun i => trees (i + 1)

/-- The symbols of a text depend on the readers only. -/
theorem symbolsOf_congr {e e' : Extractor} (h : e'.toReaders = e.toReaders) :
    e'.symbolsOf = e.symbolsOf := by
  funext path source
  rw [symbolsOf, symbolsOf, reports?, reports?, h]

/-- Reading a file does not depend on the counts of files. -/
theorem readFile_congr {e e' : Extractor} (hroot : e'.root = e.root)
    (hreaders : e'.toReaders = e.toReaders) : e'.readFile = e.readFile := by
  funext t path
  unfold readFile relative absolute
  rw [symbolsOf_congr hreaders, hroot]

theorem readFile_stats (e : Extractor) (stats : ExtractionStats) :
    ({ e with stats } : Extractor).readFile = e.readFile :=
  readFile_congr rfl rfl

theorem leavesWord_congr {e e' : Extractor} (hroot : e'.root = e.root)
    (hreaders : e'.toReaders = e.toReaders) : e'.LeavesWord = e.LeavesWord := by
  funext t path
  rw [eq_iff_iff, ← abort?_readFile_isSome_iff, readFile_congr hroot hreaders,
    abort?_readFile_isSome_iff]

/-- The files that can be read, with their symbols, each in the tree of its position from `n` on. -/
def readings (e : Extractor) (trees : Nat → Tree) (paths : List String) (n : Nat) :
    List (String × List Symbol) :=
  (paths.zipIdx n).filterMap fun p =>
    (e.readFile (trees p.2) p.1).toOption.map fun found => (p.1, found.1)

/-- What is read does not depend on the counts of files. -/
theorem readings_congr {e e' : Extractor} (hroot : e'.root = e.root)
    (hreaders : e'.toReaders = e.toReaders) : e'.readings = e.readings := by
  funext trees paths n
  rw [readings, readings, readFile_congr hroot hreaders]

/-- Unless the program stops, the files that can be read are given with their symbols, and all others
are skipped. -/
theorem files_extract_from {e : Extractor} {trees : Nat → Tree} {paths : List String} {n : Nat}
    {batch : ExtractionBatch} (h : (e.extract (fun i => trees (i + n)) paths).2 = .ok batch) :
    batch.files = e.readings trees paths n ∧
      batch.files.length + batch.skipped.length = paths.length := by
  induction paths generalizing e n batch with
  | nil =>
    cases h
    exact ⟨rfl, rfl⟩
  | cons path paths ih =>
    have hsame := e.readFile_stats (e.stats.count (e.readFile (trees n) path))
    have htrees : (fun i => trees (i + 1 + n)) = fun i => trees (i + (n + 1)) :=
      funext fun i => congrArg trees (by omega)
    rw [extract, Nat.zero_add] at h
    cases habort : abort? (e.readFile (trees n) path) with
    | some cause =>
      rw [countAnd_of_abort habort] at h
      cases h
    | none =>
      rw [countAnd_of_none habort, htrees] at h
      obtain ⟨rest, hrest, rfl⟩ := exists_of_map_eq_ok h
      obtain ⟨hfiles, hlength⟩ := ih hrest
      rw [readings, hsame] at hfiles
      rw [readings, List.zipIdx_cons, List.filterMap_cons, ← hfiles, List.length_cons, ← hlength]
      cases e.readFile (trees n) path with
      | ok found =>
        refine ⟨rfl, ?_⟩
        simp only [addOutcome, List.length_cons]
        omega
      | error cause => exact ⟨rfl, rfl⟩

/-- The files that are read, with their symbols, each in the tree of its position. -/
theorem files_extract {e : Extractor} {trees : Nat → Tree} {paths : List String}
    {batch : ExtractionBatch} (h : (e.extract trees paths).2 = .ok batch) :
    batch.files = e.readings trees paths 0 :=
  (files_extract_from (n := 0) h).1

/-- Every file is read or skipped. -/
theorem length_extract {e : Extractor} {trees : Nat → Tree} {paths : List String}
    {batch : ExtractionBatch} (h : (e.extract trees paths).2 = .ok batch) :
    batch.files.length + batch.skipped.length = paths.length :=
  (files_extract_from (n := 0) h).2

/-- In a tree that does not change positions do not count. -/
theorem readings_still (e : Extractor) (t : Tree) (paths : List String) :
    e.readings (fun _ => t) paths 0 = paths.filterMap fun path =>
      (e.readFile t path).toOption.map fun found => (path, found.1) := by
  conv_rhs => rw [← List.zipIdx_map_fst 0 paths, List.filterMap_map]
  rfl

/-- In a tree that does not change there is a batch exactly if no file makes the program stop. -/
theorem isOk_extract_iff {e : Extractor} {t : Tree} {paths : List String} :
    (e.extract (fun _ => t) paths).2.isOk ↔ ∀ path ∈ paths, ¬e.LeavesWord t path := by
  induction paths generalizing e with
  | nil => exact iff_of_true rfl nofun
  | cons path paths ih =>
    rw [extract, List.forall_mem_cons, ← abort?_readFile_isSome_iff]
    cases hfirst : abort? (e.readFile t path) with
    | some cause =>
      rw [countAnd_of_abort hfirst]
      exact iff_of_false nofun fun h => h.1 rfl
    | none =>
      have hrest := ih (e := { e with stats := e.stats.count (e.readFile t path) })
      have hwords : ({ e with stats := e.stats.count (e.readFile t path) } : Extractor).LeavesWord =
          e.LeavesWord := leavesWord_congr rfl rfl
      rw [hwords] at hrest
      rw [countAnd_of_none hfirst, ← hrest]
      dsimp only
      cases (extract _ _ paths).2 <;> simp [Except.map, Except.isOk, Except.toBool]

/-- The symbols of a file, given by its path in the workspace and its bytes; none if it is no text
or not supported. -/
def found? (e : Extractor) (path : String) (bytes : ByteArray) : Option (List Symbol) :=
  (String.fromUTF8? bytes).bind fun source => (e.symbolsOf path source).toOption.map (·.1)

/-- What is found depends on the readers only. -/
theorem found?_congr {e e' : Extractor} (h : e'.toReaders = e.toReaders) :
    e'.found? = e.found? := by
  funext path bytes
  rw [found?, found?, symbolsOf_congr h]

/-- A file under an absolute path that can be read gives what is found in its bytes. -/
theorem readFile_of_read {e : Extractor} {t : Tree} {path : String} {bytes : ByteArray}
    (hp : e.absolute path = path) (h : t.read path = .ok bytes) :
    (e.readFile t path).toOption.map (·.1) = e.found? (relativePath e.root path) bytes := by
  have htext := Tree.readText_of_read h
  unfold readFile relative
  rw [found?, ← htext, hp]
  cases t.readText path <;> rfl

theorem readFile_of_read_error {e : Extractor} {t : Tree} {path : String} {cause : FileError}
    (hp : e.absolute path = path) (h : t.read path = .error cause) :
    (e.readFile t path).toOption = none := by
  unfold readFile
  rw [hp, Tree.readText_of_read_error h]
  rfl

/-- Where the path of a text names a language, nothing but a report that leaves the word keeps it
from being read. -/
theorem isOk_symbolsOf_iff_of_language {e : Extractor} {path : String}
    (h : (Language.ofPath? (normalizePath path)).isSome) (source : String) :
    (e.symbolsOf path source).isOk ↔ abort? (e.symbolsOf path source) = none := by
  cases hreports : e.reports? (normalizePath path) with
  | none =>
    obtain ⟨l, hl⟩ := Option.isSome_iff_exists.mp h
    obtain ⟨symbols, hok⟩ := symbolsOf_of_language hreports hl source
    rw [hok]
    exact iff_of_true rfl rfl
  | some reports =>
    simp only [symbolsOf, hreports]
    cases reportedSymbols reports (normalizePath path) source <;>
      simp [abort?, Except.isOk, Except.toBool]

theorem isOk_readFile_iff_of_language {e : Extractor} {t : Tree} {path : String}
    (h : (Language.ofPath? (normalizePath (e.relative path))).isSome) :
    (e.readFile t path).isOk ↔ (t.readText (e.absolute path)).isOk ∧ ¬e.LeavesWord t path := by
  rw [← abort?_readFile_isSome_iff, Option.not_isSome_iff_eq_none, readFile]
  cases t.readText (e.absolute path) with
  | error cause => exact iff_of_false nofun fun h => nomatch h.1
  | ok source =>
    dsimp only
    rw [isOk_symbolsOf_iff_of_language h]
    exact (and_iff_right rfl).symm

end Extractor

end CodeClones
