import CodeClones.Proofs.Finder.Sources

/-!
# Vectors without a record

A purge removes the rows that are recorded for a file, so that a row without a record can outlive
its file. Such rows arise exactly where a run has stored vectors and does not record the symbols
they belong to. A run that is not cut off records them all, unless its files get into each other's
way.
-/

namespace CodeClones

namespace Finder

/-- The file states record an identifier for some file. -/
def Recorded (f : Finder) (id : String) : Prop :=
  ∃ path record, f.fileState.get? path = some record ∧ id ∈ record.symbolIds

/-- Every stored row is recorded for some file. -/
def NoOrphans (f : Finder) : Prop := ∀ id, (f.row? id).isSome → f.Recorded id

/-- The selected symbols are among those that were found. -/
theorem mem_of_mem_selected {f : Finder} {symbols : List Symbol} {s : Symbol}
    (h : s ∈ f.selected symbols) : s ∈ symbols ∧ f.filter.accepts s :=
  List.mem_filter.mp (List.mem_of_mem_take h)

end Finder

namespace Call

open Finder

/-- A call during which files stay as they are, and whose files do not get into each other's way:
the same path in the workspace means the same content, and no file is both indexed and forgotten. -/
structure Coherent (f : Finder) (call : Call) : Prop where
  still : call.conditions.Still
  same : ∀ plan, call.plan? f = some plan → ∀ p ∈ plan.targets, ∀ q ∈ plan.targets,
    relativePath f.root p = relativePath f.root q →
      call.conditions.views.scan.read p = call.conditions.views.scan.read q
  kept : ∀ plan, call.plan? f = some plan →
    ∀ p ∈ plan.targets, relativePath f.root p ∉ plan.deleted

/-- A call that does not fail before it stores vectors records all symbols they belong to. -/
def RecordsAll (f : Finder) (call : Call) : Prop :=
  (∀ e, call.failure? f = some e → ¬e.Early) → ∀ plan, call.plan? f = some plan →
    ∀ s ∈ f.selected (f.symbolsIn call.conditions plan.targets), (call.after f).Recorded s.id

/-- A run that makes all its changes records every symbol that it finds. -/
private theorem recorded_of_complete {f g : Finder} {call : Call} {plan : Plan}
    {vectors : List Embedding} (hf : f.Rooted) (hc : call.Coherent f)
    (hplan : call.plan? f = some plan)
    (h : Reindexed call.conditions plan.targets plan.deleted (call.rowsUnder f plan)
      (call.statesUnder f) f vectors
      ((f.recordsIn call.conditions plan.targets).length + plan.deleted.length) g)
    {s : Symbol} (hs : s ∈ f.symbolsIn call.conditions plan.targets) : g.Recorded s.id := by
  obtain ⟨p, hp, found, hfound, hsym⟩ := (mem_symbolsIn_iff hf hc.still hplan).mp hs
  have hmem : recordOf f.root p found ∈ f.recordsIn call.conditions plan.targets :=
    (mem_recordsIn_iff hf hc.still hplan).mpr ⟨p, hp, found, hfound, rfl⟩
  -- the last record under the path decides, and it records the same content
  cases hlast : (f.recordsIn call.conditions plan.targets).reverse.find?
      fun e => e.1 == relativePath f.root p with
  | none =>
    rw [List.find?_eq_none] at hlast
    exact absurd (beq_self_eq_true _) (hlast _ (List.mem_reverse.mpr hmem))
  | some e =>
    have he := List.mem_reverse.mp (List.mem_of_find?_eq_some hlast)
    obtain ⟨q, hq, found', hfound', rfl⟩ := (mem_recordsIn_iff hf hc.still hplan).mp he
    have hpath : relativePath f.root q = relativePath f.root p := by
      simpa [recordOf] using List.find?_some hlast
    have hread := hc.same plan hplan q hq p hp hpath
    have hsame : f.foundAt? call.conditions.views.scan q =
        f.foundAt? call.conditions.views.scan p := by
      rw [foundAt?, foundAt?, hpath, hread]
    obtain rfl : found' = found :=
      Option.some.inj (hfound'.symm.trans (hsame.trans hfound))
    refine ⟨relativePath f.root p, (recordOf f.root q found').2, ?_, List.mem_map_of_mem hsym⟩
    rw [h.fileState_all, get?_committed, if_neg (hc.kept plan hplan p hp), hlast]
    rfl

/-- The record of a row that a call did not purge stays. -/
private theorem recorded_of_rowsUnder {f g : Finder} {call : Call} {plan : Plan}
    {vectors : List Embedding} {n : Nat} (hf : f.Rooted) (hstill : call.conditions.Still)
    (hplan : call.plan? f = some plan) (horphans : f.NoOrphans)
    (h : Reindexed call.conditions plan.targets plan.deleted (call.rowsUnder f plan)
      (call.statesUnder f) f vectors n g)
    {id : String} (hid : (call.rowsUnder f plan id).isSome) : g.Recorded id := by
  rw [rowsUnder] at hid
  split at hid
  · cases hid
  rename_i hkept
  rw [not_or] at hkept
  obtain ⟨path, record, hget, hmem⟩ := horphans id hid
  have hpath : path ∉ plan.paths f.root := fun hp =>
    hkept.2 (mem_recordedIds.mpr ⟨path, hp, record, hget, hmem⟩)
  rw [Plan.paths, List.mem_append, not_or] at hpath
  refine ⟨path, record, ?_, hmem⟩
  rw [h.fileState, get?_committed_of_not_mem, statesUnder, if_neg hkept.1, hget]
  · intro e he hpe
    obtain ⟨q, hq, found, _, rfl⟩ :=
      (mem_recordsIn_iff hf hstill hplan).mp (List.mem_of_mem_take he)
    exact hpath.1 (hpe ▸ List.mem_map_of_mem hq)
  · exact fun hd => hpath.2 (List.mem_of_mem_take hd)

/-- Every row that is stored by a run, or was there and has not been purged, is recorded, if the
stored symbols are. -/
private theorem noOrphans_of_reindexed {f g : Finder} {call : Call} {plan : Plan}
    {vectors : List Embedding} {n : Nat} (hf : f.Rooted) (hstill : call.conditions.Still)
    (hplan : call.plan? f = some plan) (horphans : f.NoOrphans)
    (h : Reindexed call.conditions plan.targets plan.deleted (call.rowsUnder f plan)
      (call.statesUnder f) f vectors n g)
    (hstored : ∀ s ∈ f.selected (f.symbolsIn call.conditions plan.targets), g.Recorded s.id) :
    g.NoOrphans := by
  intro id hid
  rw [h.rows id] at hid
  cases hlast : Backend.lastWith (symbolRecords
      (f.selected (f.symbolsIn call.conditions plan.targets)) vectors) id with
  | some r =>
    obtain ⟨s, hs, rfl⟩ := mem_of_lastWith_symbolRecords hlast
    exact hstored s hs
  | none =>
    rw [hlast] at hid
    exact recorded_of_rowsUnder hf hstill hplan horphans h hid

/-- A call that stores nothing records what it stores. -/
private theorem recordsAll_of_early {f : Finder} {call : Call}
    (hearly : (∃ e, call.failure? f = some e ∧ e.Early) ∨ ∃ c, call = clear c) :
    call.RecordsAll f := by
  intro hfailure plan hplan
  rcases hearly with ⟨e, he, hearly⟩ | ⟨c, rfl⟩
  · exact absurd hearly (hfailure e he)
  · cases hplan

/-- A call leaves no orphan behind exactly if it records all symbols that it stores. -/
theorem noOrphans_after_iff {f : Finder} {call : Call} (hf : f.Rooted)
    (hstill : call.conditions.Still) (horphans : f.NoOrphans) :
    (call.after f).NoOrphans ↔ call.RecordsAll f := by
  cases call.ends f with
  | stopped e hfailure hsetup hstate hrows hearly hkept =>
    refine iff_of_true (fun id hid => ?_)
      (recordsAll_of_early (hearly.imp_left fun h => ⟨e, hfailure, h⟩))
    rcases hrows id with hrow | hrow
    · obtain ⟨path, record, hget, hmem⟩ := horphans id (hrow ▸ hid)
      exact ⟨path, record, hstate ▸ hget, hmem⟩
    · rw [hrow] at hid
      cases hid
  | emptied hanew hsetup hstate hrows hearly =>
    refine iff_of_true (fun id hid => ?_) (recordsAll_of_early hearly)
    rw [hrows id] at hid
    cases hid
  | stored plan r hplan hfailure h =>
    obtain ⟨vectors, n, hr⟩ := h.reindexed
    constructor
    · intro hnone _ plan' hplan' s hs
      obtain rfl := Option.some.inj (hplan.symm.trans hplan')
      refine hnone s.id ?_
      have hlength := (Engine.length_embed hr.embed).trans (List.length_map _)
      rw [hr.rows, Option.isSome_or, Option.isSome_map,
        lastWith_symbolRecords_isSome hlength hs, Bool.true_or]
    · intro hall
      refine noOrphans_of_reindexed hf hstill hplan horphans hr (hall (fun e he => ?_) plan hplan)
      rw [hfailure] at he
      cases r with
      | ok report => cases he
      | error e =>
        cases he
        exact h.not_early rfl

/-- A coherent call that is not cut off records all symbols that it stores. -/
theorem Coherent.recordsAll {f : Finder} {call : Call} (hf : f.Rooted) (hc : call.Coherent f)
    (hcut : ∀ e, call.failure? f = some e → ¬e.CutsOff) : call.RecordsAll f := by
  cases call.ends f with
  | stopped e hfailure hsetup hstate hrows hearly hkept =>
    exact recordsAll_of_early (hearly.imp_left fun h => ⟨e, hfailure, h⟩)
  | emptied hanew hsetup hstate hrows hearly => exact recordsAll_of_early hearly
  | stored plan r hplan hfailure h =>
    intro _ plan' hplan' s hs
    obtain rfl := Option.some.inj (hplan.symm.trans hplan')
    cases h with
    | complete vectors hr h => exact recorded_of_complete hf hc hplan h (mem_of_mem_selected hs).1
    | cutOff vectors n e hr he h =>
      subst hr
      exact absurd he (hcut e hfailure)

end Call

namespace Finder

/-- After every history of calls that record what they store, every row is recorded; the next call
keeps that exactly if it records what it stores, too, and a coherent one does so unless it is cut
off. -/
theorem noOrphans_of_history {first f : Finder} (hfirst : first.Rooted) (hnone : first.NoOrphans)
    (h : History (fun f call => call.conditions.Still ∧ call.RecordsAll f) first f) :
    f.NoOrphans ∧ ∀ call : Call,
      (call.conditions.Still → ((call.after f).NoOrphans ↔ call.RecordsAll f)) ∧
      (call.Coherent f → (∀ e, call.failure? f = some e → ¬e.CutsOff) → call.RecordsAll f) := by
  have horphans : f.NoOrphans := h.preserves hnone fun f call hsetup hf hcall =>
    (Call.noOrphans_after_iff (hfirst.of_setup hsetup) hcall.1 hf).mpr hcall.2
  have hrooted := hfirst.of_setup h.setup
  exact ⟨horphans, fun call => ⟨fun hstill => Call.noOrphans_after_iff hrooted hstill horphans,
    fun hcall hcut => hcall.recordsAll hrooted hcut⟩⟩

/-- The failing run has stored the symbol of the new text, which the record of the old text has. -/
private theorem recorded_afterRefusal :
    ((fullRun oneLine).failure? unindexed = none ∧
      (fullRun oneLine).plan? unindexed = some ⟨["/ws/a.py"], []⟩) ∧
    ((refusedRefresh otherLine).failure? ((fullRun oneLine).after unindexed)).map (·.stage) =
      some .findingDuplicates ∧
    (refusedRefresh otherLine).plan? ((fullRun oneLine).after unindexed) =
      some ⟨["/ws/a.py"], []⟩ ∧
    (afterRefusal.row? (Symbol.identity "a.py" "f" 1 .function)).isSome ∧
    ∀ s ∈ ((fullRun oneLine).after unindexed).symbolsIn (refusedRefresh otherLine).conditions
      ["/ws/a.py"], ∃ record ∈ afterRefusal.fileState.get? "a.py", s.id ∈ record.symbolIds := by
  decide +kernel

/-- A full run over one text and a failing run over another one, both of which store a row, leave no
row without a record. -/
theorem noOrphans_after_refusedRefresh :
    ((refusedRefresh otherLine).failure? ((fullRun oneLine).after unindexed)).map (·.stage) =
      some .findingDuplicates ∧
    (afterRefusal.row? (Symbol.identity "a.py" "f" 1 .function)).isSome ∧
    afterRefusal.NoOrphans := by
  obtain ⟨⟨hdone, hplan⟩, hfails, hplan', hrow, hrecorded⟩ := recorded_afterRefusal
  have hfirst : unindexed.NoOrphans := fun id h => nomatch h
  have hcoherent : (fullRun oneLine).Coherent unindexed :=
    { still := rfl
      same := fun plan h p hp q hq _ => by
        cases hplan.symm.trans h
        rw [List.mem_singleton.mp hp, List.mem_singleton.mp hq]
      kept := fun plan h p _ => by
        cases hplan.symm.trans h
        exact List.not_mem_nil }
  have hrecords : (fullRun oneLine).RecordsAll unindexed :=
    hcoherent.recordsAll ⟨rfl, rfl⟩ fun e he => nomatch hdone.symm.trans he
  have hrecords' : (refusedRefresh otherLine).RecordsAll ((fullRun oneLine).after unindexed) := by
    intro _ plan h s hs
    cases hplan'.symm.trans h
    obtain ⟨record, hget, hid⟩ := hrecorded s (mem_of_mem_selected hs).1
    exact ⟨"a.py", record, hget, hid⟩
  have hhistory : History (fun f call => call.conditions.Still ∧ call.RecordsAll f) unindexed
      afterRefusal :=
    (History.nil.snoc ⟨rfl, hrecords⟩).snoc ⟨rfl, hrecords'⟩
  exact ⟨hfails, hrow, (noOrphans_of_history ⟨rfl, rfl⟩ hfirst hhistory).1⟩

end Finder

end CodeClones
