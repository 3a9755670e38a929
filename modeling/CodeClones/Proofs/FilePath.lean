import CodeClones.FilePath
import CodeClones.Proofs.Text
import Mathlib.Data.List.DropRight
import Mathlib.Data.String.Basic

/-!
# Paths below a directory

A path that starts at the root stands for itself wherever it is seen from, and all paths below it
start at the root, too. Seen from a directory, a path is its pieces behind those of the directory. A
path that has once been seen from a directory leads back to itself from there.
-/

namespace CodeClones

namespace FilePath

theorem isAbsolute_append {base : String} (h : isAbsolute base) (below : String) :
    isAbsolute (base ++ below) := by
  rw [isAbsolute, beq_iff_eq] at h ⊢
  rw [String.toList_append, List.head?_append, h]
  rfl

/-- A path seen from an absolute path is absolute. -/
theorem isAbsolute_join {base : String} (h : isAbsolute base) (below : String) :
    isAbsolute (join base below) := by
  unfold join
  split
  · assumption
  · split
    · exact isAbsolute_append h below
    · exact isAbsolute_append (isAbsolute_append h "/") below

/-- An absolute path is the same from everywhere. -/
theorem join_of_isAbsolute (base : String) {path : String} (h : isAbsolute path) :
    join base path = path :=
  if_pos h

theorem isAbsolute_tidy {path : String} (h : isAbsolute path) : isAbsolute (tidy path) := by
  have hslash : isAbsolute "/" := rfl
  rw [tidy, components, if_pos h]
  exact isAbsolute_append hslash _

/-! ## Pieces -/

/-- The pieces of a path that carry meaning. -/
def carried (path : String) : List (List Char) := (pieces path).filter carries

theorem not_carries_iff {piece : List Char} : ¬carries piece ↔ piece = [] ∨ piece = ['.'] := by
  simp [carries, or_iff_not_imp_left]

/-- Pieces without those at both ends that carry no meaning. -/
def trimmed (ps : List (List Char)) : List (List Char) :=
  (ps.dropWhile (!carries ·)).rdropWhile (!carries ·)

/-- The text of pieces. -/
def pathText (ps : List (List Char)) : String := String.ofList (Text.joinWith ['/'] ps)

theorem pieces_append_slash (above below : String) :
    pieces (above ++ "/" ++ below) = pieces above ++ pieces below := by
  have hlist : (above ++ "/" ++ below).toList = above.toList ++ '/' :: below.toList := by
    simp [String.toList_append]
  rw [pieces, hlist]
  exact Text.splitOnChar_append_cons rfl _ _

theorem slash_not_mem_of_mem_pieces {path : String} {piece : List Char} (h : piece ∈ pieces path) :
    '/' ∉ piece := by
  intro hslash
  have hkept := (Text.mem_of_mem_splitOnChar h hslash).2
  cases hkept

/-- A joined path has the pieces below behind those of its base. -/
theorem pieces_join (base : String) {below : String} (h : ¬isAbsolute below) :
    ∃ front, pieces (join base below) = front ++ pieces below ∧
      front.filter carries = carried base := by
  unfold join
  rw [if_neg h]
  split
  · rename_i hend
    rcases Bool.or_eq_true_iff.mp hend with hempty | hslash
    · obtain rfl : base = "" := String.isEmpty_iff.mp hempty
      exact ⟨[], by rw [String.empty_append]; rfl, rfl⟩
    · obtain ⟨above, habove⟩ := List.getLast?_eq_some_iff.mp (beq_iff_eq.mp hslash)
      have hbase : base = String.ofList above ++ "/" ++ "" := by
        apply String.toList_inj.mp
        simp [habove]
      have hjoined : base ++ below = String.ofList above ++ "/" ++ below := by
        rw [hbase, String.append_empty]
      refine ⟨pieces (String.ofList above), ?_, ?_⟩
      · rw [hjoined, pieces_append_slash]
      · rw [hbase, carried, pieces_append_slash, List.filter_append]
        exact (List.append_nil _).symm
  · exact ⟨pieces base, pieces_append_slash base below, rfl⟩

theorem pieces_pathText {ps : List (List Char)} (hne : ps ≠ []) (h : ∀ piece ∈ ps, '/' ∉ piece) :
    pieces (pathText ps) = ps := by
  rw [pieces, pathText, String.toList_ofList]
  refine Text.splitOnChar_joinWith rfl hne fun piece hp c hc => ?_
  rw [beq_eq_false_iff_ne]
  rintro rfl
  exact h piece hp hc

theorem mem_of_mem_trimmed {ps : List (List Char)} {piece : List Char} (h : piece ∈ trimmed ps) :
    piece ∈ ps := by
  exact (List.dropWhile_sublist _).mem ((List.rdropWhile_prefix _ _).mem h)

/-- Trimmed pieces start with one that carries meaning. -/
theorem carries_of_trimmed_eq_cons {ps rest : List (List Char)} {first : List Char}
    (h : trimmed ps = first :: rest) : carries first := by
  have hbegins : trimmed ps <+: ps.dropWhile (!carries ·) := List.rdropWhile_prefix _ _
  obtain ⟨more, hmore⟩ := h ▸ hbegins
  have hhead := List.head?_dropWhile_not (!carries ·) ps
  rw [← hmore] at hhead
  simpa using hhead

theorem dropWhile_trimmed (ps : List (List Char)) :
    (trimmed ps).dropWhile (!carries ·) = trimmed ps := by
  cases h : trimmed ps with
  | nil => rfl
  | cons first rest => exact List.dropWhile_cons_of_neg (by simp [carries_of_trimmed_eq_cons h])

@[simp] theorem trimmed_trimmed (ps : List (List Char)) : trimmed (trimmed ps) = trimmed ps := by
  rw [trimmed, dropWhile_trimmed, trimmed, List.rdropWhile_idempotent]

theorem filter_trimmed (ps : List (List Char)) :
    (trimmed ps).filter carries = ps.filter carries := by
  have hdrop : ∀ ps : List (List Char),
      (ps.dropWhile (!carries ·)).filter carries = ps.filter carries := by
    intro ps
    induction ps with
    | nil => rfl
    | cons piece ps ih =>
      by_cases hp : carries piece
      · rw [List.dropWhile_cons_of_neg (by simpa using hp)]
      · rw [List.dropWhile_cons_of_pos (by simpa using hp), ih, List.filter_cons_of_neg hp]
  rw [trimmed, List.rdropWhile, List.filter_reverse, hdrop, List.filter_reverse,
    List.reverse_reverse, hdrop]

/-- Trimmed pieces end with one that carries meaning. -/
theorem carries_of_getLast?_trimmed {ps : List (List Char)} {last : List Char}
    (h : (trimmed ps).getLast? = some last) : carries last := by
  have hne : trimmed ps ≠ [] := by
    rintro hnil
    rw [hnil] at h
    cases h
  rw [List.getLast?_eq_getLast_of_ne_nil hne] at h
  have hlast := List.rdropWhile_last_not (!carries ·) (ps.dropWhile (!carries ·)) hne
  rw [← Option.some.inj h]
  simpa [trimmed] using hlast

theorem trimmed_eq_self {ps : List (List Char)} (h : ∀ piece ∈ ps, carries piece) :
    trimmed ps = ps := by
  have hdrop : ps.dropWhile (!carries ·) = ps := by
    cases ps with
    | nil => rfl
    | cons piece ps => exact List.dropWhile_cons_of_neg (by simp [h piece (List.mem_cons_self ..)])
  rw [trimmed, hdrop, List.rdropWhile_eq_self_iff]
  intro hne
  simp [h _ (List.getLast_mem hne)]

/-- The pieces of a trimmed path are found again. -/
theorem trimmed_pieces_pathText {ps : List (List Char)} (h : ∀ piece ∈ ps, '/' ∉ piece) :
    trimmed (pieces (pathText (trimmed ps))) = trimmed ps := by
  by_cases hnil : trimmed ps = []
  · rw [hnil]
    rfl
  · rw [pieces_pathText hnil fun piece hp => h piece (mem_of_mem_trimmed hp), trimmed_trimmed]

/-- The text of trimmed pieces does not start at the root. -/
theorem not_isAbsolute_pathText_trimmed {ps : List (List Char)} (h : ∀ piece ∈ ps, '/' ∉ piece) :
    ¬isAbsolute (pathText (trimmed ps)) := by
  rw [isAbsolute, beq_iff_eq, pathText, String.toList_ofList]
  cases ht : trimmed ps with
  | nil => simp [Text.joinWith]
  | cons first rest =>
    have hslash : '/' ∉ first := h first (mem_of_mem_trimmed (ht ▸ List.mem_cons_self ..))
    have hcarries := carries_of_trimmed_eq_cons ht
    cases first with
    | nil => cases hcarries
    | cons c first =>
      have hc : c ≠ '/' := fun he => hslash (he ▸ List.mem_cons_self ..)
      cases rest <;> simpa [Text.joinWith] using hc

/-! ## Paths seen from a directory -/

theorem components_of_isAbsolute {path : String} (h : isAbsolute path) :
    components path = .root :: (carried path).map componentOf := by
  rw [components, if_pos h]
  rfl

private theorem componentOf_injective : Function.Injective componentOf := by
  intro piece piece' h
  unfold componentOf at h
  split at h
  · split at h
    · simp_all
    · cases h
  · split at h
    · cases h
    · exact String.ofList_injective (Component.name.inj h)

/-- Behind pieces of which `n` carry meaning the path goes on with the first one that does. -/
private theorem dropPieces_append (front rest : List (List Char)) :
    dropPieces (front.filter carries).length (front ++ rest) =
      rest.dropWhile (!carries ·) := by
  induction front with
  | nil => cases rest <;> rfl
  | cons piece front ih =>
    by_cases hp : carries piece
    · rw [List.filter_cons_of_pos hp, List.length_cons, List.cons_append, dropPieces, if_pos hp, ih]
    · rw [List.filter_cons_of_neg hp, ← ih]
      cases (front.filter carries).length with
      | zero =>
        rw [List.cons_append, dropPieces, dropPieces,
          List.dropWhile_cons_of_pos (by simpa using hp)]
      | succ n => rw [List.cons_append, dropPieces, if_neg hp]

/-- Pieces can be cut behind any number of those that carry meaning. -/
private theorem exists_cut (ps : List (List Char)) {n : Nat}
    (h : n ≤ (ps.filter carries).length) :
    ∃ front rest, ps = front ++ rest ∧ front.filter carries = (ps.filter carries).take n := by
  induction ps generalizing n with
  | nil => exact ⟨[], [], rfl, by simp⟩
  | cons piece ps ih =>
    by_cases hp : carries piece
    · cases n with
      | zero => exact ⟨[], piece :: ps, rfl, by simp⟩
      | succ n =>
        rw [List.filter_cons_of_pos hp, List.length_cons] at h
        obtain ⟨front, rest, rfl, hfront⟩ := ih (Nat.le_of_succ_le_succ h)
        refine ⟨piece :: front, rest, rfl, ?_⟩
        rw [List.filter_cons_of_pos hp, List.filter_cons_of_pos hp, hfront, List.take_succ_cons]
    · rw [List.filter_cons_of_neg hp] at h
      obtain ⟨front, rest, rfl, hfront⟩ := ih h
      refine ⟨piece :: front, rest, rfl, ?_⟩
      rw [List.filter_cons_of_neg hp, List.filter_cons_of_neg hp, hfront]

private theorem below?_eq {base path : String} (hbase : isAbsolute base) (hpath : isAbsolute path) :
    below? base path = if (carried base).isPrefixOf (carried path) then
      some (pathText ((dropPieces (carried base).length (pieces path)).rdropWhile (!carries ·)))
    else none := by
  have hbegins : (components base).isPrefixOf (components path) =
      (carried base).isPrefixOf (carried path) := by
    rw [components_of_isAbsolute hbase, components_of_isAbsolute hpath, List.isPrefixOf,
      beq_self_eq_true, Bool.true_and, Bool.eq_iff_iff, List.isPrefixOf_iff_prefix,
      List.isPrefixOf_iff_prefix, List.prefix_map_iff_of_injective componentOf_injective]
  have hnames : ((components base).filter fun c => c != .root && c != .current).length =
      (carried base).length := by
    have hall : ((carried base).map componentOf).filter (fun c => c != .root && c != .current) =
        (carried base).map componentOf := by
      refine List.filter_eq_self.mpr fun c hc => ?_
      obtain ⟨piece, _, rfl⟩ := List.mem_map.mp hc
      unfold componentOf
      split <;> rfl
    rw [components_of_isAbsolute hbase, List.filter_cons_of_neg (by simp), hall, List.length_map]
  rw [below?]
  dsimp only
  rw [hbegins, hnames, hbase, hpath, beq_self_eq_true, Bool.and_true]
  rfl

/-- A path whose first pieces lead to the base is seen from there as the other ones. -/
theorem below?_of_pieces {base path : String} (hbase : isAbsolute base) (hpath : isAbsolute path)
    {front rest : List (List Char)} (h : pieces path = front ++ rest)
    (hfront : front.filter carries = carried base) :
    below? base path = some (pathText (trimmed rest)) := by
  have hcarried : carried path = carried base ++ rest.filter carries := by
    rw [carried, h, List.filter_append, hfront]
  rw [below?_eq hbase hpath, hcarried, if_pos (List.isPrefixOf_iff_prefix.mpr ⟨_, rfl⟩), h,
    ← hfront, dropPieces_append]
  rfl

/-- A path that is seen from a base goes on behind pieces that lead there. -/
theorem pieces_of_below? {base path below : String} (hbase : isAbsolute base)
    (hpath : isAbsolute path) (h : below? base path = some below) :
    ∃ front rest, pieces path = front ++ rest ∧ front.filter carries = carried base ∧
      below = pathText (trimmed rest) := by
  rw [below?_eq hbase hpath] at h
  split at h
  · rename_i hbegins
    have htake := List.prefix_iff_eq_take.mp (List.isPrefixOf_iff_prefix.mp hbegins)
    obtain ⟨front, rest, hpieces, hfront⟩ := exists_cut (pieces path)
      (List.IsPrefix.length_le (List.isPrefixOf_iff_prefix.mp hbegins))
    have hfront' : front.filter carries = carried base := hfront.trans htake.symm
    refine ⟨front, rest, hpieces, hfront', ?_⟩
    rw [hpieces, ← hfront', dropPieces_append] at h
    exact (Option.some.inj h).symm
  · cases h

/-- A joined path is seen from its base as the trimmed path below. -/
theorem below?_join {base below : String} (hbase : isAbsolute base) (h : ¬isAbsolute below) :
    below? base (join base below) = some (pathText (trimmed (pieces below))) := by
  obtain ⟨front, hpieces, hfront⟩ := pieces_join base h
  exact below?_of_pieces hbase (isAbsolute_join hbase below) hpieces hfront

end FilePath

/-! ## Normalized paths -/

open FilePath

theorem backslash_not_mem_normalizePath (path : String) : '\\' ∉ (normalizePath path).toList := by
  have hslashed : '\\' ∉ path.toList.map fun c => if c = '\\' then '/' else c := by
    intro h
    obtain ⟨c, _, hc⟩ := List.mem_map.mp h
    split at hc
    · cases hc
    · rename_i hne
      exact hne hc
  unfold normalizePath
  split
  · rename_i rest hrest
    rw [hrest] at hslashed
    rw [String.toList_ofList]
    exact fun h => hslashed (List.mem_cons_of_mem _ (List.mem_cons_of_mem _ h))
  · rw [String.toList_ofList]
    exact hslashed

/-- A path without backslashes that does not start with `./` is normalized. -/
theorem normalizePath_eq_self {path : String} (h : '\\' ∉ path.toList)
    (hstart : ∀ rest, path.toList ≠ '.' :: '/' :: rest) : normalizePath path = path := by
  have hmap : (path.toList.map fun c => if c = '\\' then '/' else c) = path.toList := by
    refine (List.map_congr_left fun c hc => if_neg ?_).trans (List.map_id _)
    rintro rfl
    exact h hc
  unfold normalizePath
  rw [hmap]
  split
  · rename_i rest hrest
    exact absurd hrest (hstart rest)
  · exact String.ofList_toList

/-- The text of trimmed pieces is normalized. -/
private theorem normalizePath_pathText_trimmed {ps : List (List Char)}
    (hslash : ∀ piece ∈ ps, '/' ∉ piece) (h : ∀ piece ∈ ps, '\\' ∉ piece) :
    normalizePath (pathText (trimmed ps)) = pathText (trimmed ps) := by
  apply normalizePath_eq_self
  · rw [pathText, String.toList_ofList]
    intro hmem
    rcases Text.mem_joinWith hmem with hc | ⟨piece, hp, hc⟩
    · cases hc
    · exact h piece (mem_of_mem_trimmed hp) hc
  · intro more hmore
    rw [pathText, String.toList_ofList] at hmore
    cases ht : trimmed ps with
    | nil =>
      rw [ht] at hmore
      cases hmore
    | cons first rest =>
      have hcarries := carries_of_trimmed_eq_cons ht
      have hfirst : '/' ∉ first := hslash first (mem_of_mem_trimmed (ht ▸ List.mem_cons_self ..))
      rw [ht] at hmore
      -- the first piece would be a single dot, which carries no meaning
      match first, rest with
      | [], _ => cases hcarries
      | ['.'], _ => cases hcarries
      | [c], [] => cases hmore
      | [c], next :: rest =>
        have hc : c = '.' := (List.cons.inj hmore).1
        subst hc
        cases hcarries
      | c :: d :: first, rest =>
        have hd : d = '/' := by
          cases rest with
          | nil => exact (List.cons.inj (List.cons.inj hmore).2).1
          | cons next rest => exact (List.cons.inj (List.cons.inj hmore).2).1
        exact hfirst (hd ▸ List.mem_cons_of_mem _ (List.mem_cons_self ..))

/-- Seen from a directory, a path without backslashes below it is trimmed, and any other one stays
as it is. -/
theorem relativePath_join_cases {root key : String} (hroot : isAbsolute root)
    (hkey : '\\' ∉ key.toList) :
    relativePath root (join root key) = join root key ∨
      ∃ front rest, pieces (join root key) = front ++ rest ∧ front.filter carries = carried root ∧
        relativePath root (join root key) = pathText (trimmed rest) ∧
        ∀ piece ∈ rest, '/' ∉ piece ∧ '\\' ∉ piece := by
  have hpieces : ∀ piece ∈ pieces key, '/' ∉ piece ∧ '\\' ∉ piece := fun piece hp =>
    ⟨slash_not_mem_of_mem_pieces hp, fun h => hkey (Text.mem_of_mem_splitOnChar hp h).1⟩
  have hseen : ∀ {rest : List (List Char)}, (∀ piece ∈ rest, '/' ∉ piece ∧ '\\' ∉ piece) →
      below? root (join root key) = some (pathText (trimmed rest)) →
      relativePath root (join root key) = pathText (trimmed rest) := by
    intro rest hrest hbelow
    rw [relativePath, hbelow, Option.getD_some]
    exact normalizePath_pathText_trimmed (fun p hp => (hrest p hp).1) fun p hp => (hrest p hp).2
  by_cases habsolute : isAbsolute key
  · rw [join_of_isAbsolute root habsolute] at hseen ⊢
    cases hbelow : below? root key with
    | none =>
      left
      rw [relativePath, hbelow, Option.getD_none]
      refine normalizePath_eq_self hkey fun rest hrest => ?_
      rw [isAbsolute, hrest] at habsolute
      cases habsolute
    | some below =>
      obtain ⟨front, rest, hcut, hfront, rfl⟩ := pieces_of_below? hroot habsolute hbelow
      have hrest : ∀ piece ∈ rest, '/' ∉ piece ∧ '\\' ∉ piece := fun piece hp =>
        hpieces piece (hcut ▸ List.mem_append_right _ hp)
      exact Or.inr ⟨front, rest, hcut, hfront, hseen hrest hbelow, hrest⟩
  · obtain ⟨front, hcut, hfront⟩ := pieces_join root habsolute
    exact Or.inr ⟨front, pieces key, hcut, hfront, hseen hpieces (below?_join hroot habsolute),
      hpieces⟩

/-- A path that has been seen from a directory is seen from there in the same way again. -/
theorem relativePath_join_relativePath {root key : String} (hroot : isAbsolute root)
    (hkey : '\\' ∉ key.toList) :
    relativePath root (join root (relativePath root (join root key))) =
      relativePath root (join root key) := by
  rcases relativePath_join_cases hroot hkey with hsame | ⟨_, rest, _, _, hseen, hrest⟩
  · rw [hsame, join_of_isAbsolute root (isAbsolute_join hroot key), hsame]
  · have hslash : ∀ piece ∈ rest, '/' ∉ piece := fun piece hp => (hrest piece hp).1
    rw [hseen, relativePath, below?_join hroot (not_isAbsolute_pathText_trimmed hslash),
      Option.getD_some, trimmed_pieces_pathText hslash]
    exact normalizePath_pathText_trimmed hslash fun piece hp => (hrest piece hp).2

/-! ## Plain names -/

/-- A name that means the same with and without normalization. -/
structure PlainName (name : String) : Prop where
  carries : carries name.toList
  slash : '/' ∉ name.toList
  backslash : '\\' ∉ name.toList

theorem PlainName.ne_nil {name : String} (h : PlainName name) : name.toList ≠ [] :=
  fun hnil => not_carries_iff.mpr (Or.inl hnil) h.carries

theorem PlainName.not_isAbsolute {name : String} (h : PlainName name) (rest : String) :
    ¬isAbsolute (name ++ rest) := by
  rw [isAbsolute, beq_iff_eq, String.toList_append, List.head?_append]
  cases hlist : name.toList with
  | nil => exact absurd hlist h.ne_nil
  | cons c name =>
    intro hc
    have hslash : c = '/' := Option.some.inj hc
    exact h.slash (hlist ▸ hslash ▸ List.mem_cons_self ..)

section PlainNames

variable {names : List String} (h : ∀ name ∈ names, PlainName name)

include h

theorem carries_of_plainNames : ∀ piece ∈ names.map String.toList, carries piece := by
  simpa using fun name hname => (h name hname).carries

theorem slash_not_mem_of_plainNames : ∀ piece ∈ names.map String.toList, '/' ∉ piece := by
  simpa using fun name hname => (h name hname).slash

/-- The text of plain names is normalized. -/
theorem normalizePath_of_plainNames :
    normalizePath (pathText (names.map String.toList)) = pathText (names.map String.toList) := by
  rw [← trimmed_eq_self (carries_of_plainNames h)]
  exact normalizePath_pathText_trimmed (slash_not_mem_of_plainNames h)
    (by simpa using fun name hname => (h name hname).backslash)

/-- The text of plain names does not start at the root. -/
theorem not_isAbsolute_of_plainNames : ¬isAbsolute (pathText (names.map String.toList)) := by
  rw [← trimmed_eq_self (carries_of_plainNames h)]
  exact not_isAbsolute_pathText_trimmed (slash_not_mem_of_plainNames h)

end PlainNames

namespace FilePath

/-- Names are joined with slashes in between. -/
private theorem join_join {base name below : String} (hname : PlainName name)
    (hbelow : ¬isAbsolute below) :
    join (join base name) below = join base (name ++ "/" ++ below) := by
  have hjoin : ∀ front : String, join (front ++ name) below = front ++ (name ++ "/" ++ below) := by
    intro front
    have hlast : (front ++ name).toList.getLast? ≠ some '/' := by
      rw [String.toList_append, List.getLast?_append_of_ne_nil _ hname.ne_nil]
      exact fun hlast => hname.slash (List.mem_of_getLast? hlast)
    have hempty : (front ++ name).isEmpty = false := by
      rw [Bool.eq_false_iff]
      intro hempty
      have hnil : front.toList ++ name.toList = [] := by
        rw [← String.toList_append, String.isEmpty_iff.mp hempty]
        rfl
      exact hname.ne_nil (List.append_eq_nil_iff.mp hnil).2
    rw [join, if_neg hbelow, hempty, Bool.false_or, if_neg (by simpa using hlast)]
    simp only [String.append_assoc]
  have hname' : ¬isAbsolute name := by
    have h := hname.not_isAbsolute ""
    rwa [String.append_empty] at h
  have hlong : ¬isAbsolute (name ++ "/" ++ below) := by
    rw [String.append_assoc]
    exact hname.not_isAbsolute _
  conv_lhs => rw [join.eq_def base name, if_neg hname']
  conv_rhs => rw [join, if_neg hlong]
  split
  · exact hjoin base
  · exact hjoin (base ++ "/")

private theorem pathText_cons_cons (name next : String) (rest : List String) :
    pathText ((name :: next :: rest).map String.toList) =
      name ++ "/" ++ pathText ((next :: rest).map String.toList) := by
  apply String.toList_inj.mp
  simp [pathText, Text.joinWith]

/-- Joining names one after the other joins the path that they make. -/
theorem foldl_join_eq {names : List String} (hne : names ≠ [])
    (h : ∀ name ∈ names, PlainName name) (base : String) :
    names.foldl join base = join base (pathText (names.map String.toList)) := by
  induction names generalizing base with
  | nil => exact absurd rfl hne
  | cons name names ih =>
    obtain ⟨hname, hnames⟩ := List.forall_mem_cons.mp h
    cases names with
    | nil => simp [pathText, Text.joinWith]
    | cons next names =>
      rw [List.foldl_cons, ih (List.cons_ne_nil _ _) hnames,
        join_join hname (not_isAbsolute_of_plainNames hnames), pathText_cons_cons]

end FilePath

/-- Seen from a directory, the path of a file that is reached from there over plain names is the text
of these names. -/
theorem relativePath_of_plainNames {root : String} (hroot : isAbsolute root) {names : List String}
    (hne : names ≠ []) (h : ∀ name ∈ names, PlainName name) :
    relativePath root (names.foldl join root) = pathText (names.map String.toList) := by
  rw [foldl_join_eq hne h, relativePath, below?_join hroot (not_isAbsolute_of_plainNames h),
    Option.getD_some, pieces_pathText (by simpa using hne) (slash_not_mem_of_plainNames h),
    trimmed_eq_self (carries_of_plainNames h), normalizePath_of_plainNames h]

/-- The path of a file below a directory leads back to the file if all names on the way are plain.
-/
theorem join_relativePath_of_plainNames {root : String} (hroot : isAbsolute root)
    {names : List String} (hne : names ≠ []) (h : ∀ name ∈ names, PlainName name) :
    join root (relativePath root (names.foldl join root)) = names.foldl join root := by
  rw [relativePath_of_plainNames hroot hne h, foldl_join_eq hne h]

end CodeClones
