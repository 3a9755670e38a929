import CodeClones.Language
import CodeClones.Proofs.FilePath

/-!
# Languages of paths

The language of a path depends on its last piece that carries meaning: on what stands behind the
last dot, if something stands before it. Normalization cuts this piece at its backslashes.
-/

namespace CodeClones

namespace FilePath

/-! ## File names -/

/-- A file is named by the last piece that carries meaning, unless this leads upwards. -/
theorem fileName?_eq (path : String) :
    fileName? path = (carried path).getLast?.bind fun piece =>
      if piece = ['.', '.'] then none else some (String.ofList piece) := by
  obtain ⟨front, hfront, hcomponents⟩ : ∃ front : List Component, (∀ s, .name s ∉ front) ∧
      components path = front ++ (carried path).map componentOf := by
    refine ⟨_, ?_, rfl⟩
    intro s
    split
    · simp
    · split <;> simp
  rw [fileName?, hcomponents, List.getLast?_append, List.getLast?_map]
  cases (carried path).getLast? with
  | none =>
    rw [Option.map_none, Option.none_or, Option.bind_none]
    split
    · rename_i s hs
      exact absurd (List.mem_of_getLast? hs) (hfront s)
    · rfl
  | some piece =>
    rw [Option.map_some, Option.some_or, Option.bind_some, componentOf]
    by_cases hparent : piece = ['.', '.']
    · rw [if_pos hparent, if_pos hparent]
    · rw [if_neg hparent, if_neg hparent]

theorem fileName?_eq_some_iff {path name : String} :
    fileName? path = some name ↔
      name ≠ ".." ∧ (carried path).getLast? = some name.toList := by
  rw [fileName?_eq, Option.bind_eq_some_iff]
  constructor
  · rintro ⟨piece, hpiece, hname⟩
    split at hname
    · cases hname
    · rename_i hparent
      cases hname
      rw [String.toList_ofList]
      exact ⟨fun heq => hparent (String.ofList_injective heq), hpiece⟩
  · rintro ⟨hparent, hpiece⟩
    have hlist : name.toList ≠ ['.', '.'] := fun h => hparent (String.toList_inj.mp h)
    exact ⟨_, hpiece, by rw [if_neg hlist, String.ofList_toList]⟩

/-- The extension of a path is what stands behind the last dot of its file name, if something stands
before this dot. -/
theorem extension?_eq_some_iff {path ext : String} :
    extension? path = some ext ↔
      ∃ stem, stem ≠ "" ∧ fileName? path = some (stem ++ "." ++ ext) ∧ '.' ∉ ext.toList := by
  constructor
  · intro h
    obtain ⟨name, hname, h⟩ := Option.bind_eq_some_iff.mp h
    obtain ⟨⟨stem, after⟩, hcut, h⟩ := Option.bind_eq_some_iff.mp h
    obtain ⟨hname', hafter⟩ := Text.splitAtLast?_eq_some_iff.mp hcut
    dsimp only at h
    split at h
    · cases h
    · rename_i hstem
      cases h
      refine ⟨String.ofList stem, ?_, ?_, ?_⟩
      · rintro hempty
        exact hstem (List.isEmpty_iff.mpr (String.ofList_injective (hempty : _ = String.ofList [])))
      · rw [hname]
        refine congrArg some (String.toList_inj.mp ?_)
        rw [hname']
        simp
      · rwa [String.toList_ofList]
  · rintro ⟨stem, hstem, hname, hafter⟩
    have hcut : Text.splitAtLast? ['.'] (stem ++ "." ++ ext).toList =
        some (stem.toList, ext.toList) :=
      Text.splitAtLast?_eq_some_iff.mpr ⟨by simp, hafter⟩
    have hne : stem.toList.isEmpty = false := by
      rw [Bool.eq_false_iff]
      exact fun hempty => hstem (String.toList_inj.mp (List.isEmpty_iff.mp hempty))
    rw [extension?, hname, Option.bind_eq_bind, Option.bind_some, hcut, Option.bind_eq_bind,
      Option.bind_some]
    dsimp only
    rw [hne, String.ofList_toList]
    rfl

/-- Normalized paths are cut at their backslashes, too. -/
theorem carried_normalizePath (path : String) :
    carried (normalizePath path) =
      ((pieces path).flatMap (Text.splitOnChar (· == '\\'))).filter carries := by
  have hcut : ∀ s : List Char,
      Text.splitOnChar (· == '/') (s.map fun c => if c = '\\' then '/' else c) =
        Text.splitOnChar (fun c => c == '/' || c == '\\') s := by
    intro s
    induction s with
    | nil => rfl
    | cons c s ih =>
      rw [List.map_cons, Text.splitOnChar, Text.splitOnChar, ih]
      by_cases hc : c = '\\'
      · simp [hc]
      · simp [hc]
  rw [pieces, ← Text.splitOnChar_or, ← hcut, normalizePath]
  split
  · rename_i rest hrest
    -- the piece that is taken away carries no meaning
    have hdot : Text.splitOnChar (· == '/') ('.' :: '/' :: rest) =
        ['.'] :: Text.splitOnChar (· == '/') rest := rfl
    rw [hrest, hdot, carried, pieces, String.toList_ofList]
    rfl
  · rw [carried, pieces, String.toList_ofList]

private theorem splitOnChar_backslash_bare {piece : List Char} (h : '\\' ∉ piece) :
    Text.splitOnChar (· == '\\') piece = [piece] := by
  refine Text.splitOnChar_eq_singleton fun c hc => ?_
  rw [beq_eq_false_iff_ne]
  rintro rfl
  exact h hc

/-- A path without backslashes has the same pieces after normalization. -/
theorem carried_normalizePath_of_bare {path : String} (h : '\\' ∉ path.toList) :
    carried (normalizePath path) = carried path := by
  have hwhole : (pieces path).flatMap (Text.splitOnChar (· == '\\')) = pieces path := by
    rw [List.flatMap_congr (g := fun piece => [piece]) fun piece hpiece => ?_, List.flatMap_singleton']
    exact splitOnChar_backslash_bare fun hc => h (Text.mem_of_mem_splitOnChar hpiece hc).1
  rw [carried_normalizePath, hwhole, carried]

/-- Pieces without meaning are not cut. -/
private theorem filter_cut_eq_nil {ps : List (List Char)} (h : ps.filter carries = []) :
    (ps.flatMap (Text.splitOnChar (· == '\\'))).filter carries = [] := by
  rw [List.filter_eq_nil_iff] at h ⊢
  intro part hpart
  obtain ⟨piece, hpiece, hpart⟩ := List.mem_flatMap.mp hpart
  have hwhole : Text.splitOnChar (· == '\\') piece = [piece] := by
    rcases not_carries_iff.mp (h piece hpiece) with rfl | rfl <;>
      exact splitOnChar_backslash_bare (by decide)
  rw [hwhole, List.mem_singleton] at hpart
  exact hpart ▸ h piece hpiece

/-- A text ends in a part behind its last backslash. -/
structure LastPart (text front last : String) : Prop where
  eq : text = front ++ last
  front : front = "" ∨ ∃ above, front = above ++ "\\"
  bare : '\\' ∉ last.toList

theorem exists_lastPart (text : String) : ∃ front last, LastPart text front last := by
  cases hcut : Text.splitAtLast? ['\\'] text.toList with
  | none => exact ⟨"", text, by simp, Or.inl rfl, Text.splitAtLast?_eq_none_iff.mp hcut⟩
  | some cut =>
    obtain ⟨htext, hlast⟩ := Text.splitAtLast?_eq_some_iff.mp hcut
    refine ⟨String.ofList cut.1 ++ "\\", String.ofList cut.2, ?_, Or.inr ⟨_, rfl⟩, by simpa⟩
    apply String.toList_inj.mp
    rw [htext]
    simp

/-- A text whose last part is not the parent directory is not the parent directory. -/
theorem LastPart.ne_parent {text front last : String} (h : LastPart text front last)
    (hlast : last ≠ "..") : text ≠ ".." := by
  rcases h.front with rfl | ⟨above, rfl⟩
  · rwa [h.eq, String.empty_append]
  · rintro rfl
    have hmem : '\\' ∈ "..".toList := by
      rw [h.eq]
      simp
    exact absurd hmem (by decide)

theorem LastPart.getLast?_splitOnChar {text front last : String} (h : LastPart text front last) :
    (Text.splitOnChar (· == '\\') text.toList).getLast? = some last.toList := by
  rcases h.front with rfl | ⟨above, rfl⟩
  · rw [h.eq, String.empty_append, splitOnChar_backslash_bare h.bare]
    rfl
  · have hlist : text.toList = above.toList ++ '\\' :: last.toList := by
      rw [h.eq]
      simp
    rw [hlist, Text.splitOnChar_append_cons rfl, splitOnChar_backslash_bare h.bare,
      List.getLast?_concat]

/-- What stands behind the last backslash of the last piece is the last piece after normalization,
if it carries meaning. -/
private theorem getLast?_carried_normalizePath {path : String} {piece : List Char}
    {front last : String} (hpiece : (carried path).getLast? = some piece)
    (hpart : LastPart (String.ofList piece) front last) (hcarries : carries last.toList) :
    (carried (normalizePath path)).getLast? = some last.toList := by
  obtain ⟨above, habove⟩ := List.getLast?_eq_some_iff.mp hpiece
  obtain ⟨before, behind, hpieces, -, hbehind⟩ := List.filter_eq_append_iff.mp habove
  obtain ⟨between, after, rfl, -, -, hafter⟩ := List.filter_eq_cons_iff.mp hbehind
  have hlast := hpart.getLast?_splitOnChar
  rw [String.toList_ofList] at hlast
  obtain ⟨parts, hparts⟩ := List.getLast?_eq_some_iff.mp hlast
  rw [carried_normalizePath, hpieces, List.flatMap_append, List.flatMap_append, List.flatMap_cons,
    hparts, List.filter_append, List.filter_append, List.filter_append, List.filter_append,
    filter_cut_eq_nil hafter, List.append_nil, List.filter_cons_of_pos hcarries, List.filter_nil,
    ← List.append_assoc, ← List.append_assoc, List.getLast?_concat]

/-- What stands behind the last backslash of a file name is the file name after normalization, if it
is a file name. -/
theorem fileName?_normalizePath {path name front last : String} (hname : fileName? path = some name)
    (hpart : LastPart name front last) (hcarries : carries last.toList) (hparent : last ≠ "..") :
    fileName? (normalizePath path) = some last := by
  obtain ⟨-, hpiece⟩ := fileName?_eq_some_iff.mp hname
  have hpart' : LastPart (String.ofList name.toList) front last := by rwa [String.ofList_toList]
  exact fileName?_eq_some_iff.mpr ⟨hparent, getLast?_carried_normalizePath hpiece hpart' hcarries⟩

/-- The file name ends in a backslash, or in one with a single dot behind it. -/
def EndsIdle (path : String) : Prop :=
  ∃ front, fileName? path = some (front ++ "\\") ∨ fileName? path = some (front ++ "\\.")

/-- A file name after normalization stands behind the last backslash of the file name before, unless
nothing that carries meaning stands there. -/
theorem fileName?_of_normalizePath {path last : String}
    (h : fileName? (normalizePath path) = some last) :
    (∃ name front, fileName? path = some name ∧ LastPart name front last) ∨ EndsIdle path := by
  obtain ⟨hparent, hseen⟩ := fileName?_eq_some_iff.mp h
  cases hpath : (carried path).getLast? with
  | none =>
    rw [carried_normalizePath, filter_cut_eq_nil (List.getLast?_eq_none_iff.mp hpath)] at hseen
    cases hseen
  | some piece =>
    have hpiece : carries piece := (List.mem_filter.mp (List.mem_of_getLast? hpath)).2
    obtain ⟨front, part, hpart⟩ := exists_lastPart (String.ofList piece)
    by_cases hcarries : carries part.toList
    · -- the part is the file name that is given
      rw [getLast?_carried_normalizePath hpath hpart hcarries] at hseen
      obtain rfl := String.toList_inj.mp (Option.some.inj hseen)
      refine Or.inl ⟨String.ofList piece, front, fileName?_eq_some_iff.mpr ⟨?_, ?_⟩, hpart⟩
      · exact hpart.ne_parent hparent
      · rw [hpath, String.toList_ofList]
    · -- something is cut away, as the piece carries meaning
      rcases hpart.front with rfl | ⟨above, rfl⟩
      · obtain rfl : String.ofList piece = part := hpart.eq.trans (String.empty_append ..)
        exact absurd hpiece (by rwa [String.toList_ofList] at hcarries)
      have hname : fileName? path = some (above ++ "\\" ++ part) := by
        rw [← hpart.eq]
        refine fileName?_eq_some_iff.mpr ⟨hpart.ne_parent ?_, by rw [hpath, String.toList_ofList]⟩
        rintro rfl
        exact hcarries (by decide)
      have hidle := not_carries_iff.mp hcarries
      refine Or.inr ⟨above, hidle.imp (fun hempty => ?_) fun hdot => ?_⟩
      · rw [hname, String.toList_inj.mp (hempty.trans rfl : part.toList = "".toList),
          String.append_empty]
      · rw [hname, String.toList_inj.mp (hdot.trans rfl : part.toList = ".".toList),
          String.append_assoc]
        rfl

/-! ## Extensions -/

/-- The last dot of the file name stands directly behind its last backslash, with an extension
behind it. -/
def HidesDot (path ext : String) : Prop := ∃ front, fileName? path = some (front ++ "\\." ++ ext)

/-- Text without dots behind the last dot is found in one way. -/
private theorem eq_of_append_dot {stem stem' ext ext' : String} (hext : '.' ∉ ext.toList)
    (hext' : '.' ∉ ext'.toList) (h : stem ++ "." ++ ext = stem' ++ "." ++ ext') :
    stem = stem' ∧ ext = ext' := by
  have hlist : (stem ++ "." ++ ext).toList = stem.toList ++ '.' :: ext.toList := by simp
  have hlist' : (stem' ++ "." ++ ext').toList = stem'.toList ++ '.' :: ext'.toList := by simp
  have hcut := Text.splitAtLast?_eq_some_iff.mpr ⟨hlist, hext⟩
  rw [h, Text.splitAtLast?_eq_some_iff.mpr ⟨hlist', hext'⟩] at hcut
  obtain ⟨hstem, hsame⟩ := Prod.mk.inj (Option.some.inj hcut)
  exact ⟨String.toList_inj.mp hstem.symm, String.toList_inj.mp hsame.symm⟩

theorem HidesDot.extension? {path ext : String} (h : HidesDot path ext) (hext : '.' ∉ ext.toList) :
    extension? path = some ext := by
  obtain ⟨front, hname⟩ := h
  refine extension?_eq_some_iff.mpr ⟨front ++ "\\", ?_, ?_, hext⟩
  · intro hempty
    have hnil := congrArg String.toList hempty
    simp at hnil
  · rw [hname]
    simp [String.append_assoc]

/-- A file name with an extension is cut in front of the extension. -/
private theorem fileName?_normalizePath_dot {path stem ext front part : String}
    (hname : fileName? path = some (stem ++ "." ++ ext)) (hpart : LastPart stem front part)
    (hne : ext ≠ "") (hdot : '.' ∉ ext.toList) (hbare : '\\' ∉ ext.toList) :
    fileName? (normalizePath path) = some (part ++ "." ++ ext) := by
  have hlast : LastPart (stem ++ "." ++ ext) front (part ++ "." ++ ext) := by
    refine ⟨?_, hpart.front, by simp [hpart.bare, hbare]⟩
    rw [hpart.eq]
    simp [String.append_assoc]
  refine fileName?_normalizePath hname hlast ?_ ?_
  · rw [carries, Bool.and_eq_true, bne_iff_ne, bne_iff_ne]
    refine ⟨by simp, fun hsingle => hne ?_⟩
    have hsame : part ++ "." ++ ext = "" ++ "." ++ "" := String.toList_inj.mp hsingle
    exact (eq_of_append_dot hdot (by decide) hsame).2
  · intro hdots
    have hsame : part ++ "." ++ ext = "." ++ "." ++ "" := hdots
    exact hne (eq_of_append_dot hdot (by decide) hsame).2

/-- An extension is kept by normalization, unless it is that of a hidden dot. -/
theorem extension?_normalizePath {path ext : String} (h : extension? path = some ext)
    (hne : ext ≠ "") (hbare : '\\' ∉ ext.toList) :
    (¬HidesDot path ext ∧ extension? (normalizePath path) = some ext) ∨
      (HidesDot path ext ∧ extension? (normalizePath path) = none) := by
  obtain ⟨stem, hstem, hname, hext⟩ := extension?_eq_some_iff.mp h
  obtain ⟨front, part, hpart⟩ := exists_lastPart stem
  have hseen := fileName?_normalizePath_dot hname hpart hne hext hbare
  by_cases hempty : part = ""
  · right
    have hstem' : stem = front := by
      rw [hpart.eq, hempty, String.append_empty]
    constructor
    · rcases hpart.front with hnil | ⟨above, habove⟩
      · exact absurd (hstem'.trans hnil) hstem
      · refine ⟨above, hname.trans (congrArg some ?_)⟩
        rw [hstem', habove]
        simp [String.append_assoc]
    · by_contra hsome
      obtain ⟨ext', hext'⟩ := Option.ne_none_iff_exists'.mp hsome
      obtain ⟨stem', hstem', hname', hbehind⟩ := extension?_eq_some_iff.mp hext'
      have hsame := eq_of_append_dot hext hbehind (Option.some.inj (hseen.symm.trans hname'))
      exact hstem' (hsame.1 ▸ hempty)
  · left
    refine ⟨?_, extension?_eq_some_iff.mpr ⟨part, hempty, hseen, hext⟩⟩
    rintro ⟨above, hname'⟩
    have hsame : stem ++ "." ++ ext = above ++ "\\" ++ "." ++ ext := by
      rw [Option.some.inj (hname.symm.trans hname')]
      simp [String.append_assoc]
    -- the part would end in a backslash
    have hlast : (front.toList ++ part.toList).getLast? = some '\\' := by
      rw [← String.toList_append, ← hpart.eq, (eq_of_append_dot hext hext hsame).1]
      simp
    rw [List.getLast?_append_of_ne_nil _ fun hnil => hempty (String.toList_inj.mp hnil)] at hlast
    exact hpart.bare (List.mem_of_getLast? hlast)

/-- To normalize a path again leaves its extension. -/
theorem extension?_normalizePath_normalizePath (path : String) :
    extension? (normalizePath (normalizePath path)) = extension? (normalizePath path) := by
  rw [extension?, extension?, fileName?_eq, fileName?_eq,
    carried_normalizePath_of_bare (backslash_not_mem_normalizePath path)]

/-- An extension after normalization is the extension before, unless the file name ends idly. -/
theorem extension?_of_normalizePath {path ext : String}
    (h : extension? (normalizePath path) = some ext) :
    extension? path = some ext ∨ EndsIdle path := by
  obtain ⟨stem, hstem, hname, hext⟩ := extension?_eq_some_iff.mp h
  rcases fileName?_of_normalizePath hname with ⟨name, front, hname', hpart⟩ | hidle
  · refine Or.inl (extension?_eq_some_iff.mpr ⟨front ++ stem, ?_, ?_, hext⟩)
    · intro hempty
      have hnil : front.toList ++ stem.toList = [] := by
        rw [← String.toList_append, hempty]
        rfl
      exact hstem (String.toList_inj.mp (List.append_eq_nil_iff.mp hnil).2)
    · rw [hname', hpart.eq]
      simp [String.append_assoc]
  · exact Or.inr hidle

end FilePath

/-! ## Languages -/

namespace Language

open FilePath

theorem mem_all (l : Language) : l ∈ all := by
  cases l <;> decide

/-- No two languages share an extension. -/
theorem eq_of_mem_extensions {l l' : Language} {ext : String} (h : ext ∈ l.extensions)
    (h' : ext ∈ l'.extensions) : l = l' := by
  have hall : ∀ l ∈ all, ∀ l' ∈ all, ∀ ext ∈ l.extensions, ext ∈ l'.extensions → l = l' := by
    decide
  exact hall l l.mem_all l' l'.mem_all ext h h'

theorem ofPath?_eq_some_iff {path : String} {l : Language} :
    ofPath? path = some l ↔
      ∃ ext, extension? path = some ext ∧ Text.lowerLatin ext ∈ l.extensions := by
  have hfind : ∀ {ext l}, (all.find? fun l => l.extensions.contains ext) = some l →
      ext ∈ l.extensions := by
    intro ext l hfound
    have htest := List.find?_some hfound
    exact List.contains_iff_mem.mp htest
  constructor
  · intro h
    obtain ⟨ext, hext, hfound⟩ := Option.bind_eq_some_iff.mp h
    exact ⟨ext, hext, hfind hfound⟩
  · rintro ⟨ext, hext, hmem⟩
    rw [ofPath?, hext]
    cases hfound : all.find? fun l => l.extensions.contains (Text.lowerLatin ext) with
    | none =>
      have hnone := List.find?_eq_none.mp hfound l l.mem_all
      exact absurd (List.contains_iff_mem.mpr hmem) hnone
    | some l' => exact hfound.trans (congrArg some (eq_of_mem_extensions (hfind hfound) hmem))

/-- A letter of an extension is no dot, no backslash and no blank. -/
theorem ne_of_mem_extension {ext : String} {l : Language}
    (h : Text.lowerLatin ext ∈ l.extensions) {c : Char} (hc : c ∈ ext.toList) :
    c ≠ '.' ∧ c ≠ '\\' ∧ Text.isBlank c = false := by
  have hletters : ∀ l ∈ all, ∀ ext ∈ l.extensions,
      ext.toList.all fun d => d != '.' && d != '\\' && !Text.isBlank d := by
    decide +kernel
  have hlower : c.toLower ∈ (Text.lowerLatin ext).toList := by
    rw [Text.lowerLatin, String.toList_map]
    exact List.mem_map_of_mem hc
  have hletter := List.all_eq_true.mp (hletters l l.mem_all _ h) _ hlower
  rw [Bool.and_eq_true, Bool.and_eq_true, bne_iff_ne, bne_iff_ne, Bool.not_eq_true', and_assoc]
    at hletter
  obtain ⟨hdot, hslash, hblank⟩ := hletter
  refine ⟨?_, ?_, ?_⟩
  · rintro rfl
    exact hdot rfl
  · rintro rfl
    exact hslash rfl
  · -- a capital is no blank either
    by_contra hcapital
    rw [Bool.not_eq_false] at hcapital
    have hsame : c.toLower = c := by
      unfold Char.toLower
      split
      · rename_i hcase
        have hfirst : 65 ≤ c.toNat := hcase.1
        have hlast : c.toNat ≤ 90 := hcase.2
        simp only [Text.isBlank, Bool.or_eq_true, Bool.and_eq_true, decide_eq_true_eq, beq_iff_eq]
          at hcapital
        omega
      · rfl
    rw [hsame, hcapital] at hblank
    cases hblank

theorem ne_empty_of_mem_extensions {ext : String} {l : Language}
    (h : Text.lowerLatin ext ∈ l.extensions) : ext ≠ "" := by
  rintro rfl
  have hall : ∀ l ∈ all, Text.lowerLatin "" ∉ l.extensions := by decide +kernel
  exact hall l l.mem_all h

end Language

end CodeClones
