import CodeClones.Proofs.Workspace.Tree

/-!
# Spellings of a path

Many texts lead to one file below a directory. Seen from the directory they have the text of the
names on the way only if these names follow one another: pieces that carry no meaning may stand
before the first name and behind the last one, but between names they are kept, and `..` is kept
everywhere. Such a text leads to the file wherever it leads to a file at all.
-/

namespace CodeClones

namespace FilePath

/-- A path leads to a directory and spells out the names from there on: nothing stands between two
names, and only pieces that carry no meaning behind the last one. -/
def SpellsOut (root path : String) (names : List String) : Prop :=
  ∃ front behind, pieces path = front ++ (names.map String.toList ++ behind) ∧
    front.filter carries = carried root ∧ ∀ piece ∈ behind, ¬carries piece

/-- What is trimmed from pieces carries no meaning. -/
theorem exists_trimmed (ps : List (List Char)) : ∃ before behind,
    ps = before ++ (trimmed ps ++ behind) ∧ (∀ piece ∈ before, ¬carries piece) ∧
      ∀ piece ∈ behind, ¬carries piece := by
  refine ⟨ps.takeWhile (!carries ·), (ps.dropWhile (!carries ·)).rtakeWhile (!carries ·), ?_,
    fun piece hp => ?_, fun piece hp => ?_⟩
  · rw [trimmed, List.rdropWhile_append_rtakeWhile, List.takeWhile_append_dropWhile]
  · simpa using List.mem_takeWhile_imp hp
  · simpa using List.mem_rtakeWhile_imp hp

/-- Pieces that carry meaning stay if what stands behind them does not. -/
theorem trimmed_append {ps behind : List (List Char)} (hne : ps ≠ [])
    (h : ∀ piece ∈ ps, carries piece) (hbehind : ∀ piece ∈ behind, ¬carries piece) :
    trimmed (ps ++ behind) = ps := by
  have hdrop : (ps ++ behind).dropWhile (!carries ·) = ps ++ behind := by
    cases ps with
    | nil => exact absurd rfl hne
    | cons first ps => exact List.dropWhile_cons_of_neg (by simp [h first (List.mem_cons_self ..)])
  have hbehind' : ∀ piece ∈ behind.reverse, (!carries piece) = true := fun piece hp => by
    simpa using hbehind piece (List.mem_reverse.mp hp)
  rw [trimmed, hdrop, List.rdropWhile, List.reverse_append,
    List.dropWhile_append_of_pos hbehind']
  exact List.rdropWhile_eq_self_iff.mpr fun hne => by simp [h _ (List.getLast_mem hne)]

end FilePath

open FilePath

section

variable {root key : String} {names : List String}

/-- Seen from the directory, a path that spells out plain names has their text. -/
theorem relativePath_of_spellsOut {path : String} (hroot : isAbsolute root)
    (hpath : isAbsolute path) (hne : names ≠ []) (hnames : ∀ name ∈ names, PlainName name)
    (h : SpellsOut root path names) :
    relativePath root path = relativePath root (names.foldl join root) := by
  obtain ⟨front, behind, hpieces, hfront, hbehind⟩ := h
  have htrimmed : trimmed (names.map String.toList ++ behind) = names.map String.toList :=
    trimmed_append (by simpa using hne) (carries_of_plainNames hnames) hbehind
  rw [relativePath_of_plainNames hroot hne hnames, relativePath,
    below?_of_pieces hroot hpath hpieces hfront, Option.getD_some, htrimmed,
    normalizePath_of_plainNames hnames]

/-- No other path has this text. -/
theorem spellsOut_of_relativePath (hroot : isAbsolute root) (hkey : '\\' ∉ key.toList)
    (hne : names ≠ []) (hnames : ∀ name ∈ names, PlainName name)
    (h : relativePath root (join root key) = relativePath root (names.foldl join root)) :
    SpellsOut root (join root key) names := by
  rw [relativePath_of_plainNames hroot hne hnames] at h
  rcases relativePath_join_cases hroot hkey with hsame | ⟨front, rest, hcut, hfront, hseen, hrest⟩
  · have habsolute := isAbsolute_join hroot key
    rw [← hsame, h] at habsolute
    exact absurd habsolute (not_isAbsolute_of_plainNames hnames)
  · rw [hseen] at h
    have htrimmed : trimmed rest = names.map String.toList := by
      rw [← trimmed_pieces_pathText fun piece hp => (hrest piece hp).1, h,
        ← trimmed_eq_self (carries_of_plainNames hnames),
        trimmed_pieces_pathText (slash_not_mem_of_plainNames hnames)]
    obtain ⟨before, behind, hparts, hbefore, hbehind⟩ := exists_trimmed rest
    refine ⟨front ++ before, behind, ?_, ?_, hbehind⟩
    · rw [hcut, hparts, htrimmed, List.append_assoc]
    · rw [List.filter_append, hfront, List.filter_eq_nil_iff.mpr hbefore, List.append_nil]

/-- A path is recorded like the file at the end of plain names exactly if it spells them out. -/
theorem relativePath_eq_iff_spellsOut (hroot : isAbsolute root) (hkey : '\\' ∉ key.toList)
    (hne : names ≠ []) (hnames : ∀ name ∈ names, PlainName name) :
    relativePath root (join root key) = relativePath root (names.foldl join root) ↔
      SpellsOut root (join root key) names :=
  ⟨spellsOut_of_relativePath hroot hkey hne hnames,
    relativePath_of_spellsOut hroot (isAbsolute_join hroot key) hne hnames⟩

-- between two names a repeated slash is kept
example : relativePath "/ws" (join "/ws" "sub//a.py") = "sub//a.py" := by decide +kernel

/-- What is read under a path that spells out plain names is read from the file at their end. -/
theorem Tree.read_of_spellsOut {t : Tree} {bytes : ByteArray} (hroot : isAbsolute root)
    (hdirectory : t.holdsDirectory root) (hkey : '\\' ∉ key.toList) (hne : names ≠ [])
    (hnames : ∀ name ∈ names, PlainName name) (h : SpellsOut root (join root key) names)
    (hread : t.read (join root key) = .ok bytes) :
    t.read (names.foldl join root) = .ok bytes := by
  have hback := read_join_relativePath hroot hdirectory hkey hread
  rwa [relativePath_of_spellsOut hroot (isAbsolute_join hroot key) hne hnames h,
    join_relativePath_of_plainNames hroot hne hnames] at hback

end

end CodeClones
