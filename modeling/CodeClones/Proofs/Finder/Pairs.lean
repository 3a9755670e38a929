import CodeClones.Finder.Pairs
import CodeClones.Proofs.Store.Batch
import Mathlib.Data.List.Sort

/-!
# Pairs that are met first

All pairs of a symbol with a match, in the order in which they are met, make one list. Of the pairs
with the same two identifiers the first one counts, and pairs of an identifier with itself do not.
-/

namespace CodeClones

theorem orderedPair_comm (a b : String) : orderedPair a b = orderedPair b a := by
  unfold orderedPair
  split
  · rename_i h
    rw [if_neg (String.lt_asymm h)]
  · rename_i h
    split
    · rfl
    · rename_i h'
      rw [String.le_antisymm (String.not_lt.mp h) (String.not_lt.mp h')]

/-- Two identifiers make one pair, whatever their order. -/
theorem orderedPair_eq_iff {a b c d : String} :
    orderedPair a b = orderedPair c d ↔ a = c ∧ b = d ∨ a = d ∧ b = c := by
  constructor
  · intro h
    unfold orderedPair at h
    split at h <;> split at h <;> cases h <;> simp
  · rintro (⟨rfl, rfl⟩ | ⟨rfl, rfl⟩)
    · rfl
    · exact orderedPair_comm a b

/-- The pair of identifiers of a symbol and a match. -/
def pairOf (p : Symbol × Match) : String × String := orderedPair p.1.id p.2.id

/-- The symbols and matches in the answers of a search, in the order in which they are met. -/
def met (symbols : List Symbol) (answers : BatchAnswer) : List (Symbol × Match) :=
  answers.flatMap fun (position, hits) =>
    symbols[position]?.toList.flatMap fun s => hits.map (s, ·)

/-- Those of different identifiers whose pair has not been met before. -/
def firstMet (seen : List (String × String)) : List (Symbol × Match) → List (Symbol × Match)
  | [] => []
  | p :: rest =>
    if p.2.id = p.1.id ∨ pairOf p ∈ seen then firstMet seen rest
    else p :: firstMet (pairOf p :: seen) rest

theorem mem_met {symbols : List Symbol} {answers : BatchAnswer} {s : Symbol} {m : Match} :
    (s, m) ∈ met symbols answers ↔
      ∃ i hits, (i, hits) ∈ answers ∧ symbols[i]? = some s ∧ m ∈ hits := by
  simp only [met, List.mem_flatMap, Prod.exists, Option.mem_toList, List.mem_map, Prod.mk.injEq]
  constructor
  · rintro ⟨i, hits, ha, _, hs, m, hm, rfl, rfl⟩
    exact ⟨i, hits, ha, hs, hm⟩
  · rintro ⟨i, hits, ha, hs, hm⟩
    exact ⟨i, hits, ha, s, hs, m, hm, rfl, rfl⟩

theorem mem_firstMet {seen : List (String × String)} {ps : List (Symbol × Match)}
    {p : Symbol × Match} (h : p ∈ firstMet seen ps) :
    p ∈ ps ∧ p.2.id ≠ p.1.id ∧ pairOf p ∉ seen := by
  induction ps generalizing seen with
  | nil => cases h
  | cons q rest ih =>
    rw [firstMet] at h
    split at h
    · obtain ⟨hm, hne, hseen⟩ := ih h
      exact ⟨List.mem_cons_of_mem _ hm, hne, hseen⟩
    · rename_i hq
      rw [not_or] at hq
      rcases List.mem_cons.mp h with rfl | h
      · exact ⟨List.mem_cons_self .., hq⟩
      · obtain ⟨hm, hne, hseen⟩ := ih h
        exact ⟨List.mem_cons_of_mem _ hm, hne, fun hmem => hseen (List.mem_cons_of_mem _ hmem)⟩

/-- No pair is met first twice. -/
theorem pairwise_firstMet (seen : List (String × String)) (ps : List (Symbol × Match)) :
    (firstMet seen ps).Pairwise fun p q => pairOf p ≠ pairOf q := by
  induction ps generalizing seen with
  | nil => exact List.Pairwise.nil
  | cons p rest ih =>
    rw [firstMet]
    split
    · exact ih seen
    · refine List.pairwise_cons.mpr ⟨fun q hq he => ?_, ih _⟩
      exact (mem_firstMet hq).2.2 (he ▸ List.mem_cons_self ..)

/-- Every pair of different identifiers is met first at some place. -/
theorem exists_firstMet {seen : List (String × String)} {ps : List (Symbol × Match)}
    {p : Symbol × Match} (hp : p ∈ ps) (hne : p.2.id ≠ p.1.id) (hseen : pairOf p ∉ seen) :
    ∃ q ∈ firstMet seen ps, pairOf q = pairOf p := by
  induction ps generalizing seen with
  | nil => cases hp
  | cons q rest ih =>
    rw [firstMet]
    split
    · rename_i hq
      rcases List.mem_cons.mp hp with rfl | hp
      · exact absurd hq (not_or.mpr ⟨hne, hseen⟩)
      · exact ih hp hseen
    · by_cases he : pairOf p = pairOf q
      · exact ⟨q, List.mem_cons_self .., he.symm⟩
      · rcases List.mem_cons.mp hp with rfl | hp
        · exact absurd rfl he
        · have hseen' : pairOf p ∉ pairOf q :: seen := fun hmem =>
            (List.mem_cons.mp hmem).elim he hseen
          obtain ⟨r, hr, hpair⟩ := ih hp hseen'
          exact ⟨r, List.mem_cons_of_mem _ hr, hpair⟩

/-- A symbol and a match with the symbol that the match stands for. -/
def restored? (symbols : List Symbol) (p : Symbol × Match) : Option (Symbol × Symbol × Float32) :=
  (p.2.symbol? symbols).map fun other => (p.1, other, p.2.score)

private theorem filterMap_firstMet_append (symbols : List Symbol) (s : Symbol)
    (seen : List (String × String)) (hits : List Match) (more : List (Symbol × Match)) :
    (firstMet seen (hits.map (s, ·) ++ more)).filterMap (restored? symbols) =
      (pairsWith symbols s seen hits).2 ++
        (firstMet (pairsWith symbols s seen hits).1 more).filterMap (restored? symbols) := by
  induction hits generalizing seen with
  | nil => rfl
  | cons m rest ih =>
    rw [List.map_cons, List.cons_append, firstMet, pairsWith]
    by_cases h : m.id = s.id ∨ pairOf (s, m) ∈ seen
    · have hb : (m.id == s.id || seen.contains (orderedPair s.id m.id)) = true := by
        simpa [pairOf] using h
      rw [if_pos h, hb, if_pos rfl]
      exact ih seen
    · have hb : ¬(m.id == s.id || seen.contains (orderedPair s.id m.id)) = true := by
        simpa [pairOf] using h
      rw [if_neg h, if_neg hb, List.filterMap_cons]
      cases hr : restored? symbols (s, m) with
      | none =>
        have hnone : m.symbol? symbols = none := by simpa [restored?] using hr
        simp only [hnone, Option.map_none, Option.toList_none, List.nil_append]
        exact ih _
      | some found =>
        obtain ⟨other, hother, rfl⟩ := Option.map_eq_some_iff.mp hr
        have hsome : m.symbol? symbols = some other := hother
        simp only [hsome, Option.map_some, Option.toList_some, List.cons_append]
        exact congrArg _ (ih _)

/-- The pairs of a search are those met first whose matches can be restored. -/
theorem pairsIn_eq (symbols : List Symbol) (seen : List (String × String))
    (answers : BatchAnswer) :
    pairsIn symbols seen answers =
      (firstMet seen (met symbols answers)).filterMap (restored? symbols) := by
  induction answers generalizing seen with
  | nil => rfl
  | cons answer rest ih =>
    obtain ⟨position, hits⟩ := answer
    have hmet : met symbols ((position, hits) :: rest) =
        (symbols[position]?.toList.flatMap fun s => hits.map (s, ·)) ++ met symbols rest := rfl
    rw [pairsIn, hmet]
    cases symbols[position]? with
    | none => exact ih seen
    | some s =>
      rw [Option.toList_some, List.flatMap_singleton, filterMap_firstMet_append, ← ih]

namespace Duplicate

theorem before_iff {x y : Duplicate} : before x y ↔ place y.score < place x.score ∨
    place x.score = place y.score ∧
      (x.a.id < y.a.id ∨ x.a.id = y.a.id ∧ x.b.id ≤ y.b.id) := by
  simp only [before, Bool.or_eq_true, Bool.and_eq_true, decide_eq_true_eq, beq_iff_eq]

theorem before_trans (x y z : Duplicate) (hxy : before x y) (hyz : before y z) : before x z := by
  rw [before_iff] at hxy hyz ⊢
  rcases hxy with hxy | ⟨hxy, hids⟩ <;> rcases hyz with hyz | ⟨hyz, hids'⟩
  · exact Or.inl (by omega)
  · exact Or.inl (by omega)
  · exact Or.inl (by omega)
  refine Or.inr ⟨by omega, ?_⟩
  rcases hids with ha | ⟨ha, hb⟩ <;> rcases hids' with ha' | ⟨ha', hb'⟩
  · exact Or.inl (String.lt_trans ha ha')
  · exact Or.inl (ha' ▸ ha)
  · exact Or.inl (ha ▸ ha')
  · exact Or.inr ⟨ha.trans ha', String.le_trans hb hb'⟩

theorem before_total (x y : Duplicate) : before x y || before y x := by
  rw [Bool.or_eq_true, before_iff, before_iff]
  rcases Int.lt_trichotomy (place x.score) (place y.score) with h | h | h
  · exact Or.inr (Or.inl h)
  · by_cases hxy : x.a.id < y.a.id
    · exact Or.inl (Or.inr ⟨h, Or.inl hxy⟩)
    · by_cases hyx : y.a.id < x.a.id
      · exact Or.inr (Or.inr ⟨h.symm, Or.inl hyx⟩)
      · have he : x.a.id = y.a.id :=
          String.le_antisymm (String.not_lt.mp hyx) (String.not_lt.mp hxy)
        rcases String.le_total x.b.id y.b.id with hb | hb
        · exact Or.inl (Or.inr ⟨h, Or.inr ⟨he, hb⟩⟩)
        · exact Or.inr (Or.inr ⟨h.symm, Or.inr ⟨he.symm, hb⟩⟩)
  · exact Or.inl (Or.inl h)

end Duplicate

/-- The duplicates in some answers are those of the pairs met first. -/
theorem mem_duplicatesIn {symbols : List Symbol} {answers : BatchAnswer} {t : Thresholds}
    {d : Duplicate} :
    d ∈ duplicatesIn symbols answers t ↔ ∃ s m other, (s, m) ∈ firstMet [] (met symbols answers) ∧
      m.symbol? symbols = some other ∧ Duplicate.make s other m.score t = d := by
  rw [duplicatesIn, List.mem_mergeSort, pairsIn_eq]
  simp only [List.mem_map, List.mem_filterMap, restored?, Option.map_eq_some_iff]
  constructor
  · rintro ⟨_, ⟨⟨s, m⟩, hp, other, hother, rfl⟩, rfl⟩
    exact ⟨s, m, other, hp, hother, rfl⟩
  · rintro ⟨s, m, other, hp, hother, rfl⟩
    exact ⟨_, ⟨(s, m), hp, other, hother, rfl⟩, rfl⟩

/-- A duplicate in some answers is that of a symbol and what a match of it stands for. -/
theorem met_of_mem_duplicatesIn {symbols : List Symbol} {answers : BatchAnswer} {t : Thresholds}
    {d : Duplicate} (h : d ∈ duplicatesIn symbols answers t) :
    ∃ m, (d.a, m) ∈ met symbols answers ∧ m.id ≠ d.a.id ∧ m.symbol? symbols = some d.b ∧
      d.score = m.score := by
  obtain ⟨s, m, other, hfirst, hother, rfl⟩ := mem_duplicatesIn.mp h
  obtain ⟨hmem, hne, -⟩ := mem_firstMet hfirst
  exact ⟨m, hmem, hne, hother, rfl⟩

/-- A pair of different identifiers is listed, if the match stands for a symbol with its identifier
wherever this pair is met. -/
theorem exists_duplicate_of_met {symbols : List Symbol} {answers : BatchAnswer} (t : Thresholds)
    {p : Symbol × Match} (hp : p ∈ met symbols answers) (hne : p.2.id ≠ p.1.id)
    (hstands : ∀ q ∈ met symbols answers, pairOf q = pairOf p → q.2.id ≠ q.1.id →
      ∃ other, q.2.symbol? symbols = some other ∧ other.id = q.2.id) :
    ∃ d ∈ duplicatesIn symbols answers t, orderedPair d.a.id d.b.id = pairOf p ∧
      ∃ q ∈ met symbols answers, pairOf q = pairOf p ∧ d.score = q.2.score := by
  obtain ⟨⟨s, m⟩, hfirst, hpair⟩ := exists_firstMet hp hne List.not_mem_nil
  obtain ⟨hmem, hdiffer, -⟩ := mem_firstMet hfirst
  obtain ⟨other, hother, hid⟩ := hstands _ hmem hpair hdiffer
  refine ⟨_, mem_duplicatesIn.mpr ⟨s, m, other, hfirst, hother, rfl⟩, ?_, _, hmem, hpair, rfl⟩
  change orderedPair s.id other.id = _
  rw [hid]
  exact hpair

/-- The duplicate of a symbol and the symbol that a match stands for. -/
def made? (symbols : List Symbol) (t : Thresholds) (p : Symbol × Match) : Option Duplicate :=
  (p.2.symbol? symbols).map fun other => Duplicate.make p.1 other p.2.score t

theorem duplicatesIn_perm_made (symbols : List Symbol) (answers : BatchAnswer) (t : Thresholds) :
    (duplicatesIn symbols answers t).Perm
      ((firstMet [] (met symbols answers)).filterMap (made? symbols t)) := by
  have hview : made? symbols t = fun p => (restored? symbols p).map fun found =>
      Duplicate.make found.1 found.2.1 found.2.2 t := by
    funext p
    rw [made?, restored?, Option.map_map]
    rfl
  rw [hview, ← List.map_filterMap, ← pairsIn_eq]
  exact List.mergeSort_perm ..

/-- No pair is listed twice, if matches stand for symbols with their identifiers. -/
theorem pairwise_pair_duplicatesIn {symbols : List Symbol} {answers : BatchAnswer}
    (hids : ∀ p ∈ met symbols answers, p.2.id ≠ p.1.id →
      ∀ other, p.2.symbol? symbols = some other → other.id = p.2.id) (t : Thresholds) :
    (duplicatesIn symbols answers t).Pairwise fun d e =>
      orderedPair d.a.id d.b.id ≠ orderedPair e.a.id e.b.id := by
  rw [(duplicatesIn_perm_made ..).pairwise_iff fun h => Ne.symm h, List.pairwise_filterMap]
  refine (pairwise_firstMet [] (met symbols answers)).imp_of_mem ?_
  rintro ⟨s, m⟩ ⟨s', m'⟩ hp hq hne _ hfound _ hfound'
  obtain ⟨other, hother, rfl⟩ := Option.map_eq_some_iff.mp hfound
  obtain ⟨other', hother', rfl⟩ := Option.map_eq_some_iff.mp hfound'
  change orderedPair s.id other.id ≠ orderedPair s'.id other'.id
  obtain ⟨hmem, hdiffer, _⟩ := mem_firstMet hp
  obtain ⟨hmem', hdiffer', _⟩ := mem_firstMet hq
  rw [hids _ hmem hdiffer other hother, hids _ hmem' hdiffer' other' hother']
  exact hne

/-- Duplicates are listed in their order. -/
theorem pairwise_before_duplicatesIn (symbols : List Symbol) (answers : BatchAnswer)
    (t : Thresholds) :
    (duplicatesIn symbols answers t).Pairwise fun x y => Duplicate.before x y :=
  List.pairwise_mergeSort Duplicate.before_trans Duplicate.before_total _

end CodeClones
