import CodeClones.Proofs.FilePath
import Mathlib.Data.List.Lex
import Mathlib.Data.Prod.Lex

/-!
# The order of paths

Paths are ordered as the lists of their components are, component by component. A name of a
directory adds one component at the end of the path that it is joined to, so that different names
lead to different paths, and paths with different components are never put alike.
-/

namespace CodeClones.FilePath

/-! ## Places of paths -/

/-- The place of a component: by its form, and among names by its characters. -/
def Component.place : Component → ℕ ×ₗ String
  | .name s => toLex (3, s)
  | c => toLex (c.rank, "")

theorem Component.place_injective : Function.Injective Component.place := by
  intro a b h
  have hpair := toLex_inj.mp (h : toLex (ofLex a.place) = toLex (ofLex b.place))
  cases a <;> cases b <;> simp_all [place, rank]

/-- Components are put in the order of their places. -/
theorem Component.lt_iff {a b : Component} : a.lt b ↔ a.place < b.place := by
  rw [Prod.Lex.lt_iff]
  cases a <;> cases b <;> simp [lt, place, rank]

/-- The place of a path. -/
def place (path : String) : List (ℕ ×ₗ String) := (components path).map Component.place

private theorem componentsLt_iff {as bs : List Component} :
    componentsLt as bs ↔ as.map Component.place < bs.map Component.place := by
  induction as generalizing bs with
  | nil =>
    cases bs with
    | nil => simp [componentsLt]
    | cons b bs => simp [componentsLt]
  | cons a as ih =>
    cases bs with
    | nil => simp [componentsLt]
    | cons b bs =>
      rw [componentsLt, List.map_cons, List.map_cons, List.cons_lt_cons_iff, Bool.or_eq_true,
        Bool.and_eq_true, Component.lt_iff, ih, beq_iff_eq, Component.place_injective.eq_iff]

/-- Paths are put in the order of their places. -/
theorem lt_iff_place {a b : String} : lt a b ↔ place a < place b := componentsLt_iff

/-- Paths with places of their own are listed in ascending order. -/
theorem pairwise_lt_mergeSort {paths : List String} (h : (paths.map place).Nodup) :
    (paths.mergeSort fun a b => !lt b a).Pairwise fun a b => lt a b := by
  have hle : ∀ {a b}, (!lt b a) = true ↔ place a ≤ place b := by
    intro a b
    rw [Bool.not_eq_true', Bool.eq_false_iff, ne_eq, lt_iff_place, not_lt]
  have hsorted : (paths.mergeSort fun a b => !lt b a).Pairwise fun a b => !lt b a := by
    refine List.pairwise_mergeSort (fun a b c hab hbc => ?_) (fun a b => ?_) paths
    · exact hle.mpr ((hle.mp hab).trans (hle.mp hbc))
    · rw [Bool.or_eq_true, hle, hle]
      exact le_total _ _
  have hapart : (paths.mergeSort fun a b => !lt b a).Pairwise fun a b => place a ≠ place b :=
    List.pairwise_map.mp (((List.mergeSort_perm ..).map place).nodup_iff.mpr h)
  refine (hsorted.and hapart).imp fun ⟨hab, hne⟩ => ?_
  exact lt_iff_place.mpr (lt_of_le_of_ne (hle.mp hab) hne)

/-! ## Joined names -/

/-- A name that may stand in a directory. -/
structure IsName (name : String) : Prop where
  carries : carries name.toList
  parent : name ≠ ".."
  slash : '/' ∉ name.toList

instance (name : String) : Decidable (IsName name) :=
  decidable_of_iff (FilePath.carries name.toList ∧ name ≠ ".." ∧ '/' ∉ name.toList)
    ⟨fun ⟨hcarries, hparent, hslash⟩ => ⟨hcarries, hparent, hslash⟩,
      fun h => ⟨h.carries, h.parent, h.slash⟩⟩

variable {name : String}

theorem IsName.not_isAbsolute (h : IsName name) : ¬isAbsolute name := by
  rw [isAbsolute, beq_iff_eq]
  intro hhead
  exact h.slash (List.mem_of_head? hhead)

theorem IsName.pieces_eq (h : IsName name) : pieces name = [name.toList] := by
  have htext : name = pathText [name.toList] := by
    rw [pathText, Text.joinWith, String.ofList_toList]
  conv_lhs => rw [htext]
  exact pieces_pathText (List.cons_ne_nil _ _) (by simpa using h.slash)

/-- The component in front of all others, if there is one. -/
private def front (path : String) : List Component :=
  if isAbsolute path then [.root]
  else if (pieces path).head? = some ['.'] then [.current]
  else []

private theorem components_eq (path : String) :
    components path = front path ++ (carried path).map componentOf := rfl

/-- What stands at the end of a path does not change how it starts. -/
private theorem front_append_slash {base : String} (hne : base ≠ "") (below : String) :
    front (base ++ "/" ++ below) = front base := by
  have hbase : base.toList ≠ [] := fun h => hne (String.toList_inj.mp h)
  have habsolute : isAbsolute (base ++ "/" ++ below) = isAbsolute base := by
    rw [isAbsolute, isAbsolute, String.append_assoc, String.toList_append,
      List.head?_append_of_ne_nil _ hbase]
  have hhead : (pieces (base ++ "/" ++ below)).head? = (pieces base).head? := by
    have hpieces : pieces base ≠ [] := Text.splitOnChar_ne_nil _ _
    rw [pieces_append_slash, List.head?_append_of_ne_nil _ hpieces]
  rw [front, front, habsolute, hhead]

private theorem IsName.front_join (h : IsName name) (base : String) :
    front (join base name) = front base := by
  rw [join, if_neg h.not_isAbsolute]
  split
  · rename_i hend
    rcases Bool.or_eq_true_iff.mp hend with hempty | hslash
    · obtain rfl : base = "" := String.isEmpty_iff.mp hempty
      have hdot : name.toList ≠ ['.'] := fun hdot => not_carries_iff.mpr (Or.inr hdot) h.carries
      rw [String.empty_append, front, if_neg h.not_isAbsolute, h.pieces_eq, List.head?_cons,
        if_neg (by simpa using hdot)]
      rfl
    · obtain ⟨above, habove⟩ := List.getLast?_eq_some_iff.mp (beq_iff_eq.mp hslash)
      have hbase : base = String.ofList above ++ "/" ++ "" := by
        apply String.toList_inj.mp
        simp [habove]
      cases above with
      | nil =>
        have habsolute : isAbsolute base := by
          rw [hbase]
          rfl
        rw [front, front, if_pos habsolute, if_pos (isAbsolute_append habsolute name)]
      | cons c above =>
        have hne : String.ofList (c :: above) ≠ "" := by
          intro hempty
          cases String.ofList_injective (hempty : String.ofList (c :: above) = String.ofList [])
        rw [hbase, String.append_empty, front_append_slash hne, ← front_append_slash hne "",
          String.append_empty]
  · rename_i hend
    have hne : base ≠ "" := by
      rintro rfl
      exact hend rfl
    exact front_append_slash hne name

/-- A name adds a component. -/
theorem components_join (h : IsName name) (base : String) :
    components (join base name) = components base ++ [.name name] := by
  obtain ⟨before, hpieces, hbefore⟩ := pieces_join base h.not_isAbsolute
  have hcarried : (carried (join base name)).map componentOf =
      (carried base).map componentOf ++ [.name name] := by
    have hparent : name.toList ≠ ['.', '.'] := fun hdots => h.parent (String.toList_inj.mp hdots)
    rw [carried, hpieces, List.filter_append, hbefore, h.pieces_eq,
      List.filter_cons_of_pos h.carries, List.map_append, List.filter_nil, List.map_singleton,
      componentOf, if_neg hparent, String.ofList_toList]
  rw [components_eq, h.front_join, hcarried, components_eq, List.append_assoc]

theorem components_foldl_join {names : List String} (h : ∀ name ∈ names, IsName name)
    (base : String) :
    components (names.foldl join base) = components base ++ names.map .name := by
  induction names generalizing base with
  | nil => exact (List.append_nil _).symm
  | cons name names ih =>
    obtain ⟨hname, hnames⟩ := List.forall_mem_cons.mp h
    rw [List.foldl_cons, ih hnames, components_join hname, List.append_assoc]
    rfl

end CodeClones.FilePath
