import CodeClones.Proofs.Finder.Identifiers
import CodeClones.Proofs.Symbol

/-!
# Symbols of a tree, each once

The symbols that a walk over a tree collects are ordered by line and then by identifier, and then
only neighbours are compared to drop repeats. That is enough, because symbols of one file with the
same identifier stand in the same line, so that nothing comes between them.
-/

namespace CodeClones

namespace Symbol

/-- One symbol stands before another one: in an earlier line, or in the same line with the smaller
identifier. -/
def Precedes (a b : Symbol) : Prop :=
  a.lineNumber < b.lineNumber ∨ a.lineNumber = b.lineNumber ∧ a.id < b.id

theorem before_iff {a b : Symbol} : a.before b ↔
    a.lineNumber < b.lineNumber ∨ a.lineNumber = b.lineNumber ∧ a.id ≤ b.id := by
  simp [before]

theorem before_trans (a b c : Symbol) (hab : a.before b) (hbc : b.before c) : a.before c := by
  rw [before_iff] at hab hbc ⊢
  rcases hab with hab | ⟨hline, hid⟩ <;> rcases hbc with hbc | ⟨hline', hid'⟩
  · exact .inl (hab.trans hbc)
  · exact .inl (hline' ▸ hab)
  · exact .inl (hline ▸ hbc)
  · exact .inr ⟨hline.trans hline', le_trans hid hid'⟩

theorem before_total (a b : Symbol) : a.before b || b.before a := by
  rw [Bool.or_eq_true_iff, before_iff, before_iff]
  rcases lt_trichotomy a.lineNumber b.lineNumber with h | h | h
  · exact .inl (.inl h)
  · exact (le_total a.id b.id).imp (fun hid => .inr ⟨h, hid⟩) fun hid => .inr ⟨h.symm, hid⟩
  · exact .inr (.inl h)

/-- In order, symbols with different identifiers are strictly in order. -/
theorem precedes_of_before {a b : Symbol} (h : a.before b) (hid : a.id ≠ b.id) : a.Precedes b :=
  (before_iff.mp h).imp_right fun ⟨hline, hle⟩ => ⟨hline, lt_of_le_of_ne hle hid⟩

/-- Between two symbols of one line with one identifier there is no other identifier. -/
theorem id_eq_of_between {a b c : Symbol} (hab : a.before b) (hbc : b.before c)
    (hline : a.lineNumber = c.lineNumber) (hid : a.id = c.id) : a.id = b.id := by
  rw [before_iff] at hab hbc
  rcases hab with hlt | ⟨hsame, hle⟩
  · omega
  · rcases hbc with hlt | ⟨-, hle'⟩
    · omega
    · exact le_antisymm hle (hid ▸ hle')

end Symbol

open CodeClones.Symbol

/-- Dropping repeats loses no identifier. -/
theorem mem_ids_dropRepeats {symbols : List Symbol} {id : String} :
    id ∈ (dropRepeats symbols).map Symbol.id ↔ id ∈ symbols.map Symbol.id := by
  fun_induction dropRepeats symbols with
  | case1 => rfl
  | case2 => rfl
  | case3 a b rest hid ih =>
    rw [ih]
    simp [hid]
  | case4 a b rest hid ih =>
    rw [List.map_cons, List.mem_cons, ih]
    exact List.mem_cons.symm

/-- In order, and where one identifier stands in one line only, what is left after dropping repeats
is strictly in order. -/
theorem pairwise_precedes_dropRepeats {symbols : List Symbol}
    (horder : symbols.Pairwise fun a b => a.before b)
    (hlines : ∀ a ∈ symbols, ∀ b ∈ symbols, a.id = b.id → a.lineNumber = b.lineNumber) :
    (dropRepeats symbols).Pairwise Precedes := by
  fun_induction dropRepeats symbols with
  | case1 => exact .nil
  | case2 => exact List.pairwise_singleton ..
  | case3 a b rest hid ih =>
    have hsublist : (a :: rest).Sublist (a :: b :: rest) := (List.sublist_cons_self b rest).cons_cons a
    exact ih (horder.sublist hsublist) fun a ha b hb =>
      hlines a (hsublist.mem ha) b (hsublist.mem hb)
  | case4 a b rest hid ih =>
    obtain ⟨hfirst, hrest⟩ := List.pairwise_cons.mp horder
    refine List.pairwise_cons.mpr ⟨fun c hc => ?_, ih hrest fun c hc d hd =>
      hlines c (List.mem_cons_of_mem _ hc) d (List.mem_cons_of_mem _ hd)⟩
    have hmem : c ∈ b :: rest := mem_of_mem_dropRepeats hc
    refine precedes_of_before (hfirst c hmem) fun hsame => hid ?_
    have hline := hlines a (List.mem_cons_self ..) c (List.mem_cons_of_mem _ hmem) hsame
    rcases List.mem_cons.mp hmem with rfl | hlater
    · exact hsame
    · exact id_eq_of_between (hfirst b (List.mem_cons_self ..))
        ((List.pairwise_cons.mp hrest).1 c hlater) hline hsame

/-- Symbols strictly in order have identifiers of their own, where one identifier stands in one line
only. -/
theorem nodup_ids_of_precedes {symbols : List Symbol} (horder : symbols.Pairwise Precedes)
    (hlines : ∀ a ∈ symbols, ∀ b ∈ symbols, a.id = b.id → a.lineNumber = b.lineNumber) :
    (symbols.map Symbol.id).Nodup := by
  refine List.pairwise_map.mpr (horder.imp_of_mem fun ha hb hab hid => ?_)
  rcases hab with hlt | ⟨-, hlt⟩
  · exact hlt.ne (hlines _ ha _ hb hid)
  · exact hlt.ne hid

/-- Symbols made for one file have the same line if their identifiers have the same text. -/
theorem Declaration.lineNumber_eq_of_ownText {d d' : Declaration} {path : String}
    (h : (d.toSymbol path).ownText = (d'.toSymbol path).ownText) :
    (d.toSymbol path).lineNumber = (d'.toSymbol path).lineNumber := by
  rcases (@Coordinates.text_eq_iff ⟨_, _, _, _⟩ ⟨_, _, _, _⟩).mp h with h | h | h
  · exact h.lineNumber
  · exact h.lineNumber
  · exact h.lineNumber.symm

namespace Dialect

/-- The symbols that the walk over a tree collects, in the order of the walk. -/
def collected (d : Dialect) (src : SourceText) (filePath : String) (root : Syntax.Node) :
    List Symbol :=
  (d.outline src .module none root).map (·.toSymbol filePath)

variable {d : Dialect} {src : SourceText} {filePath : String} {root : Syntax.Node}

theorem symbols_eq :
    d.symbols src filePath root = dropRepeats ((d.collected src filePath root).mergeSort before) :=
  rfl

theorem mem_collected_of_mem_symbols {s : Symbol} (h : s ∈ d.symbols src filePath root) :
    s ∈ d.collected src filePath root :=
  List.mem_mergeSort.mp (mem_of_mem_dropRepeats h)

theorem mem_ids_symbols {id : String} :
    id ∈ (d.symbols src filePath root).map Symbol.id ↔
      id ∈ (d.collected src filePath root).map Symbol.id := by
  rw [symbols_eq, mem_ids_dropRepeats]
  exact ((List.mergeSort_perm _ _).map Symbol.id).mem_iff

/-- If digests do not collide, one identifier stands in one line only. -/
theorem lineNumber_eq_of_id
    (hdigests : ∀ a ∈ d.collected src filePath root, ∀ b ∈ d.collected src filePath root,
      a.id = b.id → a.ownText = b.ownText) :
    ∀ a ∈ d.collected src filePath root, ∀ b ∈ d.collected src filePath root,
      a.id = b.id → a.lineNumber = b.lineNumber := by
  intro a ha b hb hid
  have htext := hdigests a ha b hb hid
  obtain ⟨_, _, rfl⟩ := List.mem_map.mp ha
  obtain ⟨_, _, rfl⟩ := List.mem_map.mp hb
  exact Declaration.lineNumber_eq_of_ownText htext

/-- The symbols of a tree are strictly in order. -/
theorem pairwise_precedes_symbols
    (hlines : ∀ a ∈ d.collected src filePath root, ∀ b ∈ d.collected src filePath root,
      a.id = b.id → a.lineNumber = b.lineNumber) :
    (d.symbols src filePath root).Pairwise Precedes := by
  refine pairwise_precedes_dropRepeats ?_ fun a ha b hb =>
    hlines a (List.mem_mergeSort.mp ha) b (List.mem_mergeSort.mp hb)
  exact List.pairwise_mergeSort before_trans before_total _

end Dialect

namespace GrammarEntry

variable {g : GrammarEntry} {path source : String}

/-- A file that a grammar serves gives the symbols that the walk over its tree collects, by line and
identifier and every identifier once, if the digests of their texts do not collide. If the tree has an
error, there are none. An extractor asks for them by the path that it has normalized before. -/
theorem symbols_inOrder (hg : ofPath? (normalizePath path) = some g) (parsers : Syntax.Parsers) :
    let found := g.symbols parsers (normalizePath path) source
    grammarSymbols parsers path source = .ok found ∧
      (∀ e : Extractor, e.parsers = parsers → e.server = none →
        e.symbolsOf path source =
          (grammarSymbols parsers (normalizePath path) source).map (·, .syntaxTree)) ∧
      (∀ root, g.parse? parsers (SourceText.of source).chars = some root →
        let collected := g.dialect.collected (.of source) (normalizePath path) root
        (∀ a ∈ collected, ∀ b ∈ collected, a.id = b.id → a.ownText = b.ownText) →
          found.Pairwise Precedes ∧ (found.map Symbol.id).Nodup ∧
            (∀ id, id ∈ found.map Symbol.id ↔ id ∈ collected.map Symbol.id) ∧
              ∀ s ∈ found, s ∈ collected) ∧
      (g.parse? parsers (SourceText.of source).chars = none → found = []) := by
  intro found
  refine ⟨grammarSymbols_of_ofPath? hg parsers source, fun e hparsers hserver => ?_, ?_, ?_⟩
  · have hagain := (ofPath?_normalizePath_normalizePath path).trans hg
    rw [Extractor.symbolsOf_of_grammar (Extractor.reports?_of_server_eq_none hserver _) hg,
      grammarSymbols_of_ofPath? hagain, hparsers]
    rfl
  · intro root hroot collected hdigests
    have hfound : found = g.dialect.symbols (.of source) (normalizePath path) root := by
      simp only [found, symbols, hroot]
    have hlines := Dialect.lineNumber_eq_of_id hdigests
    have horder := Dialect.pairwise_precedes_symbols hlines
    rw [hfound]
    refine ⟨horder, nodup_ids_of_precedes horder fun a ha b hb => ?_,
      fun _ => Dialect.mem_ids_symbols, fun _ => Dialect.mem_collected_of_mem_symbols⟩
    exact hlines a (Dialect.mem_collected_of_mem_symbols ha) b
      (Dialect.mem_collected_of_mem_symbols hb)
  · intro hnone
    simp only [found, symbols, hnone]

/-- Two functions with one name in one line. -/
private def repeated : String := "fn f(){} fn f(){}"

private def grammarOfRepeated : GrammarEntry :=
  (ofPath? (normalizePath "./a.rs")).get (by decide +kernel)

private def treeOfRepeated : Syntax.Node :=
  (grammarOfRepeated.parse? .standard (SourceText.of repeated).chars).get (by decide +kernel)

/-- The function that stands twice in a line is collected twice and found once. -/
theorem symbols_inOrder_repeated :
    let collected := grammarOfRepeated.dialect.collected (.of repeated) "a.rs" treeOfRepeated
    ∃ found, grammarSymbols .standard "./a.rs" repeated = .ok found ∧
      (collected.map Symbol.id).count (identity "a.rs" "f" 1 .function) = 2 ∧
        (found.map Symbol.id).count (identity "a.rs" "f" 1 .function) = 1 ∧
          found.Pairwise Precedes := by
  intro collected
  have hpath : normalizePath "./a.rs" = "a.rs" := by decide +kernel
  have htwice : (collected.map Symbol.id).count (identity "a.rs" "f" 1 .function) = 2 := by
    decide +kernel
  have hdigests : ∀ a ∈ collected, ∀ b ∈ collected, a.id = b.id → a.ownText = b.ownText := by
    decide +kernel
  have hserved : ofPath? (normalizePath "./a.rs") = some grammarOfRepeated :=
    (Option.some_get _).symm
  obtain ⟨hfound, -, hread, -⟩ := @symbols_inOrder _ "./a.rs" repeated hserved .standard
  rw [hpath] at hread
  have hroot : grammarOfRepeated.parse? .standard (SourceText.of repeated).chars =
      some treeOfRepeated := (Option.some_get _).symm
  obtain ⟨horder, hnodup, hids, -⟩ := hread treeOfRepeated hroot hdigests
  rw [hpath] at hfound
  refine ⟨_, hfound, htwice, List.count_eq_one_of_mem hnodup ((hids _).mpr ?_), horder⟩
  exact List.count_pos_iff.mp (htwice ▸ Nat.two_pos)

end GrammarEntry

end CodeClones
