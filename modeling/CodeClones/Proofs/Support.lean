import CodeClones.Proofs.Extraction

/-!
# Supported files

Whether a file is supported is told from its path as it is given, and its symbols are found under
the normalized path. The two differ where a backslash stands in the file name directly before its
last dot or at its end, and where blanks stand around an extension that belongs to a grammar.
-/

namespace CodeClones

open FilePath

/-- Blanks stand around an extension that belongs to a grammar. -/
def GrammarEntry.Padded (path : String) : Prop :=
  ∃ front ext back, extension? path = some (front ++ ext ++ back) ∧
    (∀ c ∈ front.toList, Text.isBlank c) ∧ (∀ c ∈ back.toList, Text.isBlank c) ∧
    ¬(front = "" ∧ back = "") ∧
    ∃ l : Language, l.strategy = .syntaxTree ∧ Text.lowerLatin ext ∈ l.extensions

namespace GrammarEntry

/-- The extensions of languages have no blanks. -/
theorem Padded.ofPath?_eq_none {path : String} (h : Padded path) : Language.ofPath? path = none := by
  obtain ⟨front, ext, back, hext, hfront, hback, hblanks, -⟩ := h
  by_contra hsome
  obtain ⟨l, hl⟩ := Option.ne_none_iff_exists'.mp hsome
  obtain ⟨ext', hext', hmem⟩ := Language.ofPath?_eq_some_iff.mp hl
  obtain rfl := Option.some.inj (hext.symm.trans hext')
  have hnone : ∀ {blanks : String}, (∀ c ∈ blanks.toList, Text.isBlank c) →
      (∀ c ∈ blanks.toList, c ∈ (front ++ ext ++ back).toList) → blanks = "" := by
    intro blanks hblank hsub
    refine String.toList_inj.mp (List.eq_nil_iff_forall_not_mem.mpr fun c hc => ?_)
    have hletter := (Language.ne_of_mem_extension hmem (hsub c hc)).2.2
    rw [hblank c hc] at hletter
    cases hletter
  exact hblanks ⟨hnone hfront fun c hc => by simp [hc], hnone hback fun c hc => by simp [hc]⟩

/-- Blanks around an extension make no difference to its grammar. -/
theorem Padded.ofPath?_isSome {path : String} (h : Padded path) : (ofPath? path).isSome := by
  obtain ⟨front, ext, back, hext, hfront, hback, -, l, hstrategy, hmem⟩ := h
  rw [ofPath?_isSome_iff]
  exact ⟨_, hext, l, hstrategy, by rwa [normalExtension_blanks hfront hback hmem]⟩

theorem padded_of_ofPath?_isSome {path : String} (hnone : Language.ofPath? path = none)
    (hsome : (ofPath? path).isSome) : Padded path := by
  obtain ⟨ext, hext, l, hstrategy, hmem⟩ := ofPath?_isSome_iff.mp hsome
  obtain ⟨_, _, _, hdot⟩ := extension?_eq_some_iff.mp hext
  rw [normalExtension_eq hdot] at hmem
  obtain ⟨front, back, hcut, hfront, hback⟩ := Text.exists_blanks_trim ext.toList
  refine ⟨String.ofList front, String.ofList (Text.trim ext.toList), String.ofList back,
    ?_, ?_, ?_, ?_, l, hstrategy, hmem⟩
  · rw [hext]
    refine congrArg some (String.toList_inj.mp ?_)
    simpa using hcut
  · simpa using hfront
  · simpa using hback
  · rintro ⟨hnofront, hnoback⟩
    -- the extension would be that of a language
    have hsame : String.ofList (Text.trim ext.toList) = ext := by
      apply String.toList_inj.mp
      conv_rhs => rw [hcut]
      have hfront' : front = [] := String.ofList_injective (hnofront : _ = String.ofList [])
      have hback' : back = [] := String.ofList_injective (hnoback : _ = String.ofList [])
      rw [hfront', hback', String.toList_ofList, List.nil_append, List.append_nil]
    rw [hsame] at hmem
    cases hnone.symm.trans (Language.ofPath?_eq_some_iff.mpr ⟨ext, hext, hmem⟩)

/-- A path of no language has a grammar if and only if blanks stand around its extension. -/
theorem padded_iff {path : String} :
    Padded path ↔ Language.ofPath? path = none ∧ (ofPath? path).isSome :=
  ⟨fun h => ⟨h.ofPath?_eq_none, h.ofPath?_isSome⟩,
    fun h => padded_of_ofPath?_isSome h.1 h.2⟩

end GrammarEntry

/-- The last dot of the file name stands directly behind its last backslash, and the extension of a
language behind it. -/
def Language.Hidden (path : String) : Prop :=
  ∃ ext, HidesDot path ext ∧ ∃ l : Language, Text.lowerLatin ext ∈ l.extensions

/-- A path of a language names the same language after normalization, unless its extension is
hidden. -/
theorem Language.ofPath?_normalizePath {path : String} {l : Language} (h : ofPath? path = some l) :
    (¬Hidden path ∧ ofPath? (normalizePath path) = some l) ∨
      (Hidden path ∧ extension? (normalizePath path) = none) := by
  obtain ⟨ext, hext, hmem⟩ := ofPath?_eq_some_iff.mp h
  have hbare : '\\' ∉ ext.toList := fun hc => (ne_of_mem_extension hmem hc).2.1 rfl
  rcases extension?_normalizePath hext (ne_empty_of_mem_extensions hmem) hbare with
    ⟨hclear, hseen⟩ | ⟨hhides, hseen⟩
  · refine Or.inl ⟨?_, ofPath?_eq_some_iff.mpr ⟨ext, hseen, hmem⟩⟩
    rintro ⟨ext', hhides, l', hmem'⟩
    have hdot : '.' ∉ ext'.toList := fun hc => (ne_of_mem_extension hmem' hc).1 rfl
    obtain rfl := Option.some.inj (hext.symm.trans (hhides.extension? hdot))
    exact hclear hhides
  · exact Or.inr ⟨⟨ext, hhides, l, hmem⟩, hseen⟩

theorem Language.Hidden.isSome {path : String} (h : Hidden path) : (ofPath? path).isSome := by
  obtain ⟨ext, hhides, l, hmem⟩ := h
  have hdot : '.' ∉ ext.toList := fun hc => (ne_of_mem_extension hmem hc).1 rfl
  exact Option.isSome_iff_exists.mpr
    ⟨l, ofPath?_eq_some_iff.mpr ⟨ext, hhides.extension? hdot, hmem⟩⟩

/-- A file name that ends idly has no extension of a language. -/
theorem Language.ofPath?_of_endsIdle {path : String} (h : EndsIdle path) : ofPath? path = none := by
  by_contra hsome
  obtain ⟨l, hl⟩ := Option.ne_none_iff_exists'.mp hsome
  obtain ⟨ext, hext, hmem⟩ := ofPath?_eq_some_iff.mp hl
  obtain ⟨stem, -, hname, -⟩ := extension?_eq_some_iff.mp hext
  have hlast : ∀ {c : Char}, (stem ++ "." ++ ext).toList.getLast? = some c →
      c ≠ '.' ∧ c ≠ '\\' := by
    intro c hc
    have hne : ext.toList ≠ [] := fun hnil =>
      ne_empty_of_mem_extensions hmem (String.toList_inj.mp hnil)
    rw [String.toList_append, List.getLast?_append_of_ne_nil _ hne] at hc
    have hletter := ne_of_mem_extension hmem (List.mem_of_getLast? hc)
    exact ⟨hletter.1, hletter.2.1⟩
  obtain ⟨front, hends | hends⟩ := h
  · have hslash := Option.some.inj (hname.symm.trans hends)
    exact (hlast (c := '\\') (by rw [hslash]; simp)).2 rfl
  · have hdot := Option.some.inj (hname.symm.trans hends)
    exact (hlast (c := '.') (by rw [hdot]; simp)).1 rfl

namespace Extractor

variable {e : Extractor}

/-- Files of known languages are supported. -/
theorem supports_iff {path : String} : e.supports path ↔ (Language.ofPath? path).isSome := by
  rw [supports]
  cases h : Language.ofPath? path with
  | none => simp
  | some l =>
    have hreader : (GrammarEntry.ofPath? path).isSome ∨ (linePatterns? path).isSome := by
      rw [GrammarEntry.ofPath?_isSome_of_language h, linePatterns?_isSome_iff]
      exact l.strategy_eq.imp_right fun hregex => ⟨l, h, hregex⟩
    rcases hreader with hsome | hsome <;> simp [hsome]

section NoServer

variable (hserver : e.server = none)

include hserver

/-- Without a language server a text is read if its normalized path names a language, or has blanks
around an extension that belongs to a grammar. -/
theorem isOk_symbolsOf_iff (path source : String) : (e.symbolsOf path source).isOk ↔
    (Language.ofPath? (normalizePath path)).isSome ∨
      GrammarEntry.Padded (normalizePath path) := by
  cases h : Language.ofPath? (normalizePath path) with
  | some l =>
    obtain ⟨symbols, hok⟩ :=
      symbolsOf_of_language (reports?_of_server_eq_none hserver _) h source
    rw [hok]
    exact iff_of_true rfl (Or.inl rfl)
  | none =>
    have hnothing := reports?_of_server_eq_none hserver (normalizePath path)
    rw [GrammarEntry.padded_iff]
    cases hfound : GrammarEntry.ofPath? (normalizePath path) with
    | some grammar =>
      rw [symbolsOf_of_grammar hnothing hfound]
      exact iff_of_true rfl (Or.inr ⟨h, rfl⟩)
    | none =>
      rw [symbolsOf_of_lines hnothing hfound, linePatterns?, h]
      exact iff_of_false Bool.false_ne_true (by simp)

theorem eq_unsupported_of_symbolsOf {path source : String} {cause : ExtractError}
    (h : e.symbolsOf path source = .error cause) :
    cause = .unsupported (normalizePath path) := by
  have hnothing := reports?_of_server_eq_none hserver (normalizePath path)
  cases hfound : GrammarEntry.ofPath? (normalizePath path) with
  | some grammar =>
    rw [symbolsOf_of_grammar hnothing hfound] at h
    cases h
  | none =>
    rw [symbolsOf_of_lines hnothing hfound] at h
    cases hpatterns : linePatterns? (normalizePath path) with
    | some patterns =>
      rw [hpatterns] at h
      cases h
    | none =>
      rw [hpatterns] at h
      cases h
      rfl

/-- A text is not read if its normalized path has no extension. -/
theorem not_isOk_symbolsOf {path : String} (h : extension? (normalizePath path) = none)
    (source : String) : ¬(e.symbolsOf path source).isOk := by
  rw [isOk_symbolsOf_iff hserver]
  rintro (hsome | ⟨front, ext, back, hext, -⟩)
  · obtain ⟨l, hl⟩ := Option.isSome_iff_exists.mp hsome
    obtain ⟨ext, hext, -⟩ := Language.ofPath?_eq_some_iff.mp hl
    cases h.symm.trans hext
  · cases h.symm.trans hext

/-- A supported file is not read if and only if its extension is hidden. -/
theorem supports_and_fails_iff (path source : String) :
    e.supports path ∧ ¬(e.symbolsOf path source).isOk ↔ Language.Hidden path := by
  constructor
  · rintro ⟨hsupports, hfails⟩
    obtain ⟨l, hl⟩ := Option.isSome_iff_exists.mp (supports_iff.mp hsupports)
    rcases Language.ofPath?_normalizePath hl with ⟨-, hseen⟩ | ⟨hhidden, -⟩
    · exact absurd ((isOk_symbolsOf_iff hserver path source).mpr (Or.inl (hseen ▸ rfl))) hfails
    · exact hhidden
  · intro hhidden
    obtain ⟨l, hl⟩ := Option.isSome_iff_exists.mp hhidden.isSome
    rcases Language.ofPath?_normalizePath hl with ⟨hclear, -⟩ | ⟨-, hseen⟩
    · exact absurd hhidden hclear
    · exact ⟨supports_iff.mpr hhidden.isSome, not_isOk_symbolsOf hserver hseen source⟩

/-- A file that is not supported is read if and only if blanks stand around its extension, or if its
extension stands before a last backslash. -/
theorem not_supports_and_reads_iff (path source : String) :
    ¬e.supports path ∧ (e.symbolsOf path source).isOk ↔
      GrammarEntry.Padded (normalizePath path) ∨
        EndsIdle path ∧ (Language.ofPath? (normalizePath path)).isSome := by
  constructor
  · rintro ⟨hsupports, hok⟩
    rcases (isOk_symbolsOf_iff hserver path source).mp hok with hsome | hpadded
    · obtain ⟨l, hl⟩ := Option.isSome_iff_exists.mp hsome
      obtain ⟨ext, hext, hmem⟩ := Language.ofPath?_eq_some_iff.mp hl
      rcases extension?_of_normalizePath hext with hpath | hidle
      · have hknown := Language.ofPath?_eq_some_iff.mpr ⟨ext, hpath, hmem⟩
        exact absurd (supports_iff.mpr (Option.isSome_of_mem hknown)) hsupports
      · exact Or.inr ⟨hidle, hsome⟩
    · exact Or.inl hpadded
  · intro h
    have hread := h.symm.imp_left And.right
    refine ⟨fun hsupports => ?_, (isOk_symbolsOf_iff hserver path source).mpr hread⟩
    obtain ⟨l, hl⟩ := Option.isSome_iff_exists.mp (supports_iff.mp hsupports)
    rcases h with hpadded | ⟨hidle, -⟩
    · rcases Language.ofPath?_normalizePath hl with ⟨-, hseen⟩ | ⟨-, hseen⟩
      · cases hseen.symm.trans hpadded.ofPath?_eq_none
      · obtain ⟨_, _, _, hext, -⟩ := hpadded
        cases hseen.symm.trans hext
    · cases hl.symm.trans (Language.ofPath?_of_endsIdle hidle)

/-- A supported file is read as its language is. -/
theorem strategy_of_language {path source : String} {l : Language}
    (hl : Language.ofPath? path = some l) {found : List Symbol × Strategy}
    (h : e.symbolsOf path source = .ok found) : found.2 = l.strategy := by
  rcases Language.ofPath?_normalizePath hl with ⟨-, hseen⟩ | ⟨-, hseen⟩
  · obtain ⟨symbols, hok⟩ :=
      symbolsOf_of_language (reports?_of_server_eq_none hserver _) hseen source
    cases h.symm.trans hok
    rfl
  · exact absurd (h ▸ rfl) (not_isOk_symbolsOf hserver hseen source)

/-- Without a language server a supported file is read as its language is, and any other one is
refused as unsupported. This fails in three cases only: if the extension is hidden behind a
backslash, if blanks stand around it, or if it stands before a last backslash with nothing of
meaning behind. -/
theorem extracts_iff_supports (path source : String) :
    (e.supports path ∧ ¬(e.symbolsOf path source).isOk ↔ Language.Hidden path) ∧
      (¬e.supports path ∧ (e.symbolsOf path source).isOk ↔
        GrammarEntry.Padded (normalizePath path) ∨
          EndsIdle path ∧ (Language.ofPath? (normalizePath path)).isSome) ∧
      (∀ l, Language.ofPath? path = some l → ∀ found, e.symbolsOf path source = .ok found →
        found.2 = l.strategy) ∧
      ∀ cause, e.symbolsOf path source = .error cause →
        cause = .unsupported (normalizePath path) :=
  ⟨supports_and_fails_iff hserver path source, not_supports_and_reads_iff hserver path source,
    fun _ hl _ h => strategy_of_language hserver hl h,
    fun _ h => eq_unsupported_of_symbolsOf hserver h⟩

end NoServer

/-- A hidden extension, blanks behind an extension and a backslash at the end. -/
theorem extracts_iff_supports_cases :
    let e : Extractor := { root := "/ws", parsers := .standard }
    (e.supports "src\\.py" ∧ ¬(e.symbolsOf "src\\.py" "").isOk) ∧
      (¬e.supports "a.py " ∧ (e.symbolsOf "a.py " "").isOk) ∧
      (¬e.supports "a.py\\" ∧ (e.symbolsOf "a.py\\" "").isOk) := by
  intro e
  refine ⟨(extracts_iff_supports rfl _ _).1.mpr ?_, (extracts_iff_supports rfl _ _).2.1.mpr ?_,
    (extracts_iff_supports rfl _ _).2.1.mpr ?_⟩
  · exact ⟨"py", ⟨"src", by decide +kernel⟩, .python, by decide +kernel⟩
  · have hblank : ∀ c ∈ " ".toList, Text.isBlank c :=
      List.all_eq_true.mp (by decide)
    exact Or.inl ⟨"", "py", " ", by decide +kernel, fun _ hc => (List.not_mem_nil hc).elim, hblank,
      by decide, .python, rfl, by decide +kernel⟩
  · exact Or.inr ⟨⟨"a.py", Or.inl (by decide +kernel)⟩, by decide +kernel⟩

end Extractor

end CodeClones
