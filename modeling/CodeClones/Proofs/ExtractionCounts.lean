import CodeClones.Proofs.Extraction
import Mathlib.Algebra.GroupWithZero.Nat

/-!
# What is extracted adds up

Every file that a call lists is either read or skipped, in the order of the list, and counted once:
as failed, or under the strategy that found its symbols. So after any calls the counts of an
extractor are the totals over all that the calls listed and gave, whatever the files held and
whatever a language server said while they were read. The reports of a language server for a file
can make the program stop. Then the call gives nothing at all, not even what it has read before.
-/

namespace CodeClones

open Syntax

/-- A file that a call lists, with the tree in which it is read and the language server as it is
then. -/
structure ListedFile where
  path : String
  tree : Tree
  server : Option SymbolServer

/-- The number of files whose symbols were found by a strategy. -/
def ExtractionStats.filesBy (s : ExtractionStats) : Strategy → Nat
  | .semantic => s.semanticFiles
  | .syntaxTree => s.syntaxTreeFiles
  | .regex => s.regexFiles

namespace Extractor

/-- What reading a listed file gives. -/
def outcomeOf (root : String) (parsers : Parsers) (f : ListedFile) :
    Except ExtractError (List Symbol × Strategy) :=
  ({ root, parsers, server := f.server } : Extractor).readFile f.tree f.path

/-- Why the program stops at a listed file. -/
def stopsAt? (root : String) (parsers : Parsers) (f : ListedFile) : Option Abort :=
  abort? (outcomeOf root parsers f)

/-- Whether the symbols of a listed file are found by a strategy. -/
def isFoundBy (root : String) (parsers : Parsers) (strategy : Strategy) (f : ListedFile) : Bool :=
  (outcomeOf root parsers f).toOption.any (·.2 = strategy)

/-- Reads listed files one after the other and counts them. -/
def extractListed (e : Extractor) : List ListedFile → Extractor × Except Abort ExtractionBatch
  | [] => (e, .ok {})
  | f :: files => e.countAnd f.path (outcomeOf e.root e.parsers f) fun e => e.extractListed files

/-- Calls one after the other, with what each of them gives, up to the first one in which the program
stops. -/
def extractCalls (e : Extractor) : List (List ListedFile) → Extractor × List ExtractionBatch
  | [] => (e, [])
  | files :: calls =>
    match e.extractListed files with
    | (e, .error _) => (e, [])
    | (e, .ok batch) =>
      let (e, batches) := extractCalls e calls
      (e, batch :: batches)

/-- An extractor reads a listed file with the language server of the file. -/
theorem outcomeOf_server (e : Extractor) (t : Tree) (path : String) :
    outcomeOf e.root e.parsers ⟨path, t, e.server⟩ = e.readFile t path := by
  obtain ⟨⟨parsers, server⟩, root, stats⟩ := e
  rw [outcomeOf, ← readFile_stats _ stats]

/-- Where the language server stays as it is, files are read in this way. -/
theorem extract_eq_extractListed (e : Extractor) (trees : Nat → Tree) (paths : List String) :
    e.extract trees paths =
      e.extractListed (paths.mapIdx fun i path => ⟨path, trees i, e.server⟩) := by
  induction paths generalizing e trees with
  | nil => rfl
  | cons path paths ih =>
    have hrest : ∀ stats, ({ e with stats } : Extractor).extract (fun i => trees (i + 1)) paths =
        ({ e with stats } : Extractor).extractListed
          (paths.mapIdx fun i path => ⟨path, trees (i + 1), e.server⟩) :=
      fun stats => ih { e with stats } fun i => trees (i + 1)
    rw [extract, List.mapIdx_cons, extractListed, outcomeOf_server, countAnd, countAnd, hrest]

/-! ## One call -/

/-- A batch has every file of a call: those that are read with their symbols, and those that are
skipped with the reason. -/
structure Sorts (root : String) (parsers : Parsers) (files : List ListedFile)
    (batch : ExtractionBatch) : Prop where
  read : batch.files = files.filterMap fun f =>
    (outcomeOf root parsers f).toOption.map fun found => (f.path, found.1)
  skipped : batch.skipped = files.filterMap fun f =>
    match outcomeOf root parsers f with
    | .ok _ => none
    | .error cause => some (f.path, cause)
  /-- Every listed path is in one of the two lists, once for every time that it is listed. -/
  once : (batch.files.map Prod.fst ++ batch.skipped.map Prod.fst).Perm (files.map ListedFile.path)
  read_inOrder : (batch.files.map Prod.fst).Sublist (files.map ListedFile.path)
  skipped_inOrder : (batch.skipped.map Prod.fst).Sublist (files.map ListedFile.path)

section

variable {root : String} {parsers : Parsers} {f : ListedFile} {files : List ListedFile}
  {batch : ExtractionBatch}

/-- The files of a call are sorted one after the other. -/
theorem Sorts.cons (h : Sorts root parsers files batch) :
    Sorts root parsers (f :: files) (addOutcome f.path (outcomeOf root parsers f) batch) := by
  cases houtcome : outcomeOf root parsers f with
  | ok found =>
    refine ⟨?_, ?_, h.once.cons f.path, h.read_inOrder.cons_cons f.path,
      h.skipped_inOrder.cons f.path⟩
    · rw [List.filterMap_cons, houtcome, ← h.read]
      rfl
    · rw [List.filterMap_cons, houtcome, ← h.skipped]
      rfl
  | error cause =>
    refine ⟨?_, ?_, List.perm_middle.trans (h.once.cons f.path), h.read_inOrder.cons f.path,
      h.skipped_inOrder.cons_cons f.path⟩
    · rw [List.filterMap_cons, houtcome, ← h.read]
      rfl
    · rw [List.filterMap_cons, houtcome, ← h.skipped]
      rfl

end

/-! ## Counts -/

/-- Counts that grow by some numbers: of files that are listed, that are skipped and whose symbols
are found by a strategy, and of symbols. -/
structure Grows (listed skipped : Nat) (found : Strategy → Nat) (symbols : Nat)
    (before after : ExtractionStats) : Prop where
  processed : after.filesProcessed = before.filesProcessed + listed
  failed : after.filesFailed = before.filesFailed + skipped
  filesBy : ∀ s, after.filesBy s = before.filesBy s + found s
  symbols : after.symbolsExtracted = before.symbolsExtracted + symbols
  /-- Every file that is counted counts as failed or under a strategy. -/
  parts : listed = skipped + found .semantic + found .syntaxTree + found .regex

theorem Grows.refl (stats : ExtractionStats) : Grows 0 0 (fun _ => 0) 0 stats stats :=
  ⟨rfl, rfl, fun _ => rfl, rfl, rfl⟩

theorem Grows.trans {listed₁ listed₂ skipped₁ skipped₂ symbols₁ symbols₂ : Nat}
    {found₁ found₂ : Strategy → Nat} {s₁ s₂ s₃ : ExtractionStats}
    (h₁ : Grows listed₁ skipped₁ found₁ symbols₁ s₁ s₂)
    (h₂ : Grows listed₂ skipped₂ found₂ symbols₂ s₂ s₃) :
    Grows (listed₁ + listed₂) (skipped₁ + skipped₂) (fun s => found₁ s + found₂ s)
      (symbols₁ + symbols₂) s₁ s₃ where
  processed := by rw [h₂.processed, h₁.processed, Nat.add_assoc]
  failed := by rw [h₂.failed, h₁.failed, Nat.add_assoc]
  filesBy s := by rw [h₂.filesBy, h₁.filesBy, Nat.add_assoc]
  symbols := by rw [h₂.symbols, h₁.symbols, Nat.add_assoc]
  parts := by rw [h₁.parts, h₂.parts]; omega

/-- A file is counted once, under what it gave. -/
theorem grows_one (root : String) (parsers : Parsers) (f : ListedFile) (before : ExtractionStats) :
    Grows 1 (addOutcome f.path (outcomeOf root parsers f) {}).skipped.length
      (fun s => [f].countP (isFoundBy root parsers s))
      (addOutcome f.path (outcomeOf root parsers f) {}).symbols.length
      before (before.count (outcomeOf root parsers f)) := by
  have hfound : (fun s => [f].countP (isFoundBy root parsers s)) =
      fun s => if (outcomeOf root parsers f).toOption.any (·.2 = s) then 1 else 0 :=
    funext fun s => List.countP_singleton
  rw [hfound]
  cases outcomeOf root parsers f with
  | error cause => exact ⟨rfl, rfl, fun s => by cases s <;> rfl, rfl, rfl⟩
  | ok found =>
    obtain ⟨symbols, strategy⟩ := found
    have hsymbols : (addOutcome f.path (.ok (symbols, strategy)) {}).symbols = symbols :=
      List.append_nil symbols
    rw [hsymbols]
    cases strategy <;> exact ⟨rfl, rfl, fun s => by cases s <;> rfl, rfl, rfl⟩

/-- What an outcome adds to a batch does not depend on what is there. -/
theorem length_addOutcome (path : String)
    (outcome : Except ExtractError (List Symbol × Strategy)) (batch : ExtractionBatch) :
    (addOutcome path outcome batch).skipped.length =
        (addOutcome path outcome {}).skipped.length + batch.skipped.length ∧
      (addOutcome path outcome batch).symbols.length =
        (addOutcome path outcome {}).symbols.length + batch.symbols.length := by
  cases outcome with
  | ok found => simp [addOutcome, ExtractionBatch.symbols]
  | error cause => simp [addOutcome, ExtractionBatch.symbols, Nat.add_comm]

/-- What a call that gives a batch does: it reads and counts all of its files, and keeps the root and
the parsers. -/
structure Gives (e : Extractor) (files : List ListedFile) (e' : Extractor)
    (batch : ExtractionBatch) : Prop where
  root : e'.root = e.root
  parsers : e'.parsers = e.parsers
  sorts : Sorts e.root e.parsers files batch
  grows : Grows files.length batch.skipped.length
    (fun s => files.countP (isFoundBy e.root e.parsers s)) batch.symbols.length e.stats e'.stats

/-- A call in which the program does not stop reads and counts all of its files. -/
theorem extractListed_gives {e : Extractor} {files : List ListedFile}
    (h : ∀ f ∈ files, stopsAt? e.root e.parsers f = none) :
    ∃ e' batch, e.extractListed files = (e', .ok batch) ∧ Gives e files e' batch := by
  induction files generalizing e with
  | nil => exact ⟨e, {}, rfl, rfl, rfl, ⟨rfl, rfl, .nil, .slnil, .slnil⟩, .refl _⟩
  | cons f files ih =>
    obtain ⟨hfirst, hothers⟩ := List.forall_mem_cons.mp h
    obtain ⟨e', batch, hrest, hgives⟩ :=
      ih (e := { e with stats := e.stats.count (outcomeOf e.root e.parsers f) }) hothers
    refine ⟨e', addOutcome f.path (outcomeOf e.root e.parsers f) batch, ?_, hgives.root,
      hgives.parsers, hgives.sorts.cons, ?_⟩
    · rw [extractListed, countAnd_of_none hfirst, hrest]
      rfl
    · have hfound : (fun s => (f :: files).countP (isFoundBy e.root e.parsers s)) = fun s =>
          [f].countP (isFoundBy e.root e.parsers s) + files.countP (isFoundBy e.root e.parsers s) :=
        funext fun s => by rw [← List.singleton_append, List.countP_append]
      rw [hfound, List.length_cons, Nat.add_comm, (length_addOutcome ..).1, (length_addOutcome ..).2]
      exact (grows_one e.root e.parsers f e.stats).trans hgives.grows

/-- At the first file at which the program stops, the files before it are counted, and the call gives
nothing. -/
theorem extractListed_stops {e : Extractor} {files : List ListedFile}
    (h : ∀ f ∈ files, stopsAt? e.root e.parsers f = none) {f : ListedFile} {cause : Abort}
    (hstop : stopsAt? e.root e.parsers f = some cause) (rest : List ListedFile) :
    e.extractListed (files ++ f :: rest) = ((e.extractListed files).1, .error cause) := by
  induction files generalizing e with
  | nil => exact countAnd_of_abort hstop _
  | cons g files ih =>
    obtain ⟨hfirst, hothers⟩ := List.forall_mem_cons.mp h
    have hrest := ih (e := { e with stats := e.stats.count (outcomeOf e.root e.parsers g) })
      hothers hstop
    rw [List.cons_append, extractListed, extractListed, countAnd_of_none hfirst,
      countAnd_of_none hfirst, hrest]
    rfl

/-- A call gives nothing if the program stops at one of its files. -/
theorem extractListed_of_stop {e : Extractor} {files : List ListedFile}
    (h : ¬∀ f ∈ files, stopsAt? e.root e.parsers f = none) :
    ∃ cause, (e.extractListed files).2 = .error cause := by
  cases hfirst : files.find? fun f => (stopsAt? e.root e.parsers f).isSome with
  | none =>
    refine absurd (fun f hf => ?_) h
    exact Option.not_isSome_iff_eq_none.mp (List.find?_eq_none.mp hfirst f hf)
  | some f =>
    obtain ⟨hstop, before, rest, rfl, hbefore⟩ := List.find?_eq_some_iff_append.mp hfirst
    obtain ⟨cause, hcause⟩ := Option.isSome_iff_exists.mp hstop
    refine ⟨cause, congrArg Prod.snd (extractListed_stops (fun g hg => ?_) hcause rest)⟩
    simpa using hbefore g hg

/-! ## Calls one after the other -/

/-- Whether a call gives a batch. -/
def returns (root : String) (parsers : Parsers) (files : List ListedFile) : Bool :=
  files.all fun f => (stopsAt? root parsers f).isNone

/-- The calls up to the first one in which the program stops. -/
def returning (root : String) (parsers : Parsers) (calls : List (List ListedFile)) :
    List (List ListedFile) :=
  calls.takeWhile (returns root parsers)

theorem returns_iff {root : String} {parsers : Parsers} {files : List ListedFile} :
    returns root parsers files ↔ ∀ f ∈ files, stopsAt? root parsers f = none := by
  simp only [returns, List.all_eq_true, Option.isNone_iff_eq_none]

/-- The calls before the program stops are those that give a batch. -/
theorem extractCalls_returning (e : Extractor) (calls : List (List ListedFile)) :
    (e.extractCalls (returning e.root e.parsers calls)).2 = (e.extractCalls calls).2 := by
  induction calls generalizing e with
  | nil => rfl
  | cons files calls ih =>
    by_cases hreturns : ∀ f ∈ files, stopsAt? e.root e.parsers f = none
    · obtain ⟨e', batch, hcall, hgives⟩ := extractListed_gives hreturns
      have hrest := ih e'
      rw [hgives.root, hgives.parsers] at hrest
      rw [returning, List.takeWhile_cons_of_pos (returns_iff.mpr hreturns), ← returning,
        extractCalls, extractCalls, hcall]
      exact congrArg (List.cons batch) hrest
    · obtain ⟨cause, hcall⟩ := extractListed_of_stop hreturns
      rw [returning, List.takeWhile_cons_of_neg fun hall => hreturns (returns_iff.mp hall),
        extractCalls, extractCalls, ← Prod.eta (e.extractListed files), hcall]

/-- Calls in which the program does not stop give a batch each and count all that they list. -/
theorem extractCalls_gives {e : Extractor} {calls : List (List ListedFile)}
    (h : ∀ files ∈ calls, ∀ f ∈ files, stopsAt? e.root e.parsers f = none) :
    List.Forall₂ (Sorts e.root e.parsers) calls (e.extractCalls calls).2 ∧
      Grows (calls.map List.length).sum ((e.extractCalls calls).2.map (·.skipped.length)).sum
        (fun s => (calls.map (List.countP (isFoundBy e.root e.parsers s))).sum)
        ((e.extractCalls calls).2.map (·.symbols.length)).sum
        e.stats (e.extractCalls calls).1.stats := by
  induction calls generalizing e with
  | nil => exact ⟨.nil, .refl _⟩
  | cons files calls ih =>
    obtain ⟨hfirst, hothers⟩ := List.forall_mem_cons.mp h
    obtain ⟨e', batch, hcall, hgives⟩ := extractListed_gives hfirst
    rw [← hgives.root, ← hgives.parsers] at hothers
    obtain ⟨hsorts, hgrows⟩ := ih hothers
    rw [hgives.root, hgives.parsers] at hsorts hgrows
    rw [extractCalls, hcall]
    exact ⟨.cons hgives.sorts hsorts, hgives.grows.trans hgrows⟩

/-- The counts of an extractor are the totals over some calls and the batches that they gave. -/
structure AddsUp (root : String) (parsers : Parsers) (calls : List (List ListedFile))
    (batches : List ExtractionBatch) (stats : ExtractionStats) : Prop where
  processed : stats.filesProcessed = (calls.map List.length).sum
  parts : stats.filesProcessed =
    stats.filesFailed + stats.semanticFiles + stats.syntaxTreeFiles + stats.regexFiles
  failed : stats.filesFailed = (batches.map (·.skipped.length)).sum
  filesBy : ∀ s, stats.filesBy s = (calls.map (List.countP (isFoundBy root parsers s))).sum
  symbols : stats.symbolsExtracted = (batches.map (·.symbols.length)).sum

/-- Counts that grow from nothing are totals. -/
theorem AddsUp.of_grows {root : String} {parsers : Parsers} {calls : List (List ListedFile)}
    {batches : List ExtractionBatch} {stats : ExtractionStats}
    (h : Grows (calls.map List.length).sum (batches.map (·.skipped.length)).sum
      (fun s => (calls.map (List.countP (isFoundBy root parsers s))).sum)
      (batches.map (·.symbols.length)).sum {} stats) :
    AddsUp root parsers calls batches stats := by
  have hprocessed := h.processed.trans (Nat.zero_add _)
  have hfailed := h.failed.trans (Nat.zero_add _)
  have hfilesBy : ∀ s, stats.filesBy s =
      (calls.map (List.countP (isFoundBy root parsers s))).sum := by
    intro s
    rw [h.filesBy]
    cases s <;> exact Nat.zero_add _
  refine ⟨hprocessed, ?_, hfailed, hfilesBy, h.symbols.trans (Nat.zero_add _)⟩
  have hparts := h.parts
  rw [← hprocessed, ← hfailed, ← hfilesBy, ← hfilesBy, ← hfilesBy] at hparts
  exact hparts

/-- The first calls of a list give what they give alone. -/
theorem extractCalls_take (e : Extractor) (calls : List (List ListedFile)) (n : Nat) :
    (e.extractCalls (calls.take n)).2 = (e.extractCalls calls).2.take n := by
  induction calls generalizing e n with
  | nil => rw [List.take_nil, extractCalls, List.take_nil]
  | cons files calls ih =>
    cases n with
    | zero => rfl
    | succ n =>
      rw [List.take_succ_cons, extractCalls, extractCalls]
      cases e.extractListed files with
      | mk e' outcome =>
        cases outcome with
        | error cause => rfl
        | ok batch => exact congrArg (List.cons batch) (ih e' n)

/-- Whatever files the calls of a new extractor list, the calls before the program stops give all of
their files, read or skipped, and after each of them the counts are the totals over the calls so far.
The program stops at a text for which the language server reports a symbol that leaves the word. Then
the call gives nothing, and only the files listed before it are counted. A call reads its files as
`extract` does, except that the language server may say something else for every file. -/
theorem extractions_accounted (root : String) (parsers : Parsers) (server : Option SymbolServer)
    (calls : List (List ListedFile)) :
    let e : Extractor := { root, parsers, server }
    let returned := returning root parsers calls
    let batches := (e.extractCalls calls).2
    (∀ (e : Extractor) (trees : Nat → Tree) (paths : List String), e.extract trees paths =
        e.extractListed (paths.mapIdx fun i path => ⟨path, trees i, e.server⟩)) ∧
      List.Forall₂ (Sorts root parsers) returned batches ∧
      (∀ n, AddsUp root parsers (returned.take n) (batches.take n)
        (e.extractCalls (returned.take n)).1.stats) ∧
      (∀ f : ListedFile, (stopsAt? root parsers f).isSome ↔
        ({ root, parsers, server := f.server } : Extractor).LeavesWord f.tree f.path) ∧
      ∀ (e : Extractor) (before rest : List ListedFile) (f : ListedFile) (cause : Abort),
        (∀ g ∈ before, stopsAt? e.root e.parsers g = none) →
          stopsAt? e.root e.parsers f = some cause →
            e.extractListed (before ++ f :: rest) = ((e.extractListed before).1, .error cause) := by
  intro e returned batches
  have hreturned : ∀ files ∈ returned, ∀ f ∈ files, stopsAt? root parsers f = none :=
    fun files hfiles => returns_iff.mp (List.mem_takeWhile_imp hfiles)
  have hbatches : (e.extractCalls returned).2 = batches := e.extractCalls_returning calls
  refine ⟨extract_eq_extractListed, ?_, fun n => ?_, fun f => ?_,
    fun e before rest f cause h hstop => extractListed_stops h hstop rest⟩
  · rw [← hbatches]
    exact (extractCalls_gives (e := e) hreturned).1
  · have hfirst : ∀ files ∈ returned.take n, ∀ f ∈ files, stopsAt? root parsers f = none :=
      fun files hfiles => hreturned files (List.mem_of_mem_take hfiles)
    rw [← hbatches, ← extractCalls_take]
    exact .of_grows (extractCalls_gives (e := e) hfirst).2
  · rw [stopsAt?, outcomeOf, abort?_readFile_isSome_iff]

end Extractor

end CodeClones
