import CodeClones.Proofs.Finder.Sources

/-!
# Records without vectors

A run by digests passes over every file whose record has the digest of its content. Such a file must
have all its vectors, or it is lost without notice. A run that purges the rows of a file and then
fails, or cannot read the file, leaves its record behind; no other run does.
-/

namespace CodeClones

namespace Finder

/-- A record is that of a content of its file, and all accepted symbols in it are stored. -/
def Holds (f : Finder) (world : Set (String × ByteArray)) (path : String) (record : FileRecord) :
    Prop :=
  ∃ bytes symbols, (path, bytes) ∈ world ∧ f.extractor.found? path bytes = some symbols ∧
    record = ⟨Digest.Blake3.hexOf bytes, symbols.map (·.id)⟩ ∧
    ∀ s ∈ symbols, f.filter.accepts s → (f.row? s.id).isSome

/-- All accepted symbols of all recorded files are stored. -/
def Covered (f : Finder) (world : Set (String × ByteArray)) : Prop :=
  ∀ path record, f.fileState.get? path = some record → f.Holds world path record

theorem Holds.of_rows {f g : Finder} {world : Set (String × ByteArray)} {path : String}
    {record : FileRecord} (h : f.Holds world path record) (hsetup : g.setup = f.setup)
    (hrows : ∀ id ∈ record.symbolIds, (f.row? id).isSome → (g.row? id).isSome) :
    g.Holds world path record := by
  obtain ⟨bytes, symbols, hworld, hfound, rfl, hstored⟩ := h
  have hreaders : g.extractor.toReaders = f.extractor.toReaders := congrArg Setup.readers hsetup
  have hfilter : g.filter = f.filter := congrArg Setup.filter hsetup
  refine ⟨bytes, symbols, hworld, ?_, rfl, fun s hs haccept => ?_⟩
  · rw [Extractor.found?_congr hreaders, hfound]
  · rw [hfilter] at haccept
    exact hrows s.id (List.mem_map_of_mem hs) (hstored s hs haccept)

end Finder

namespace Call

open Finder

variable {world : Set (String × ByteArray)}

/-- A call takes no row of an accepted symbol away from a record that it leaves as it is. -/
def Spares (world : Set (String × ByteArray)) (f : Finder) (call : Call) : Prop :=
  ∀ path bytes symbols, (path, bytes) ∈ world → f.extractor.found? path bytes = some symbols →
    f.fileState.get? path = some ⟨Digest.Blake3.hexOf bytes, symbols.map (·.id)⟩ →
    (call.after f).fileState.get? path = some ⟨Digest.Blake3.hexOf bytes, symbols.map (·.id)⟩ →
      ∀ s ∈ symbols, f.filter.accepts s → (f.row? s.id).isSome →
        ((call.after f).row? s.id).isSome

/-- A call spares the records of a covered finder exactly if it still has the rows of those that it
leaves as they are. -/
theorem spares_iff {f : Finder} {call : Call} (hworld : Distinguished f.extractor world)
    (hcovered : f.Covered world) : call.Spares world f ↔
      ∀ path record, f.fileState.get? path = some record →
        (call.after f).fileState.get? path = some record →
          (call.after f).Holds world path record := by
  have hsetup := setup_after f call
  have hreaders : (call.after f).extractor.toReaders = f.extractor.toReaders :=
    congrArg Setup.readers hsetup
  have hfilter : (call.after f).filter = f.filter := congrArg Setup.filter hsetup
  constructor
  · intro hspares path record hold hnew
    obtain ⟨bytes, symbols, hin, hfound, rfl, hstored⟩ := hcovered path record hold
    refine ⟨bytes, symbols, hin, ?_, rfl, fun s hs haccept => ?_⟩
    · rw [Extractor.found?_congr hreaders, hfound]
    · rw [hfilter] at haccept
      exact hspares path bytes symbols hin hfound hold hnew s hs haccept (hstored s hs haccept)
  · intro hholds path bytes symbols hin hfound hold hnew s hs haccept _
    obtain ⟨bytes', symbols', hin', hfound', hrecord, hstored⟩ := hholds path _ hold hnew
    obtain rfl : bytes = bytes' :=
      hworld.contents _ hin _ hin' (congrArg FileRecord.digest hrecord)
    rw [Extractor.found?_congr hreaders, hfound] at hfound'
    cases hfound'
    rw [← hfilter] at haccept
    exact hstored s hs haccept

/-- A call that does not stop halfway. One that clears the index is not kept from clearing the file
states. Any other one changes no row, or fails at most in its report and reads all targets that have
a record. -/
structure Steady (f : Finder) (call : Call) : Prop where
  cleared : call.startsAnew f → call.conditions.stateRefusal .clear = none
  finished : ¬call.startsAnew f → (∀ id, (call.after f).row? id = f.row? id) ∨
    (∀ e, call.failure? f = some e → e.Late) ∧
      ∀ plan, call.plan? f = some plan → ∀ p ∈ plan.targets,
        (f.fileState.get? (relativePath f.root p)).isSome →
          (f.foundAt? call.conditions.views.scan p).isSome

/-- A record that a run writes is held by the rows that it stores. -/
private theorem holds_of_mem_recordsIn {f g : Finder} {call : Call} {plan : Plan}
    {vectors : List Embedding} {n : Nat} (hf : f.Rooted) (hc : call.Within world f)
    (hplan : call.plan? f = some plan)
    (h : Reindexed call.conditions plan.targets plan.deleted (call.rowsUnder f plan)
      (call.statesUnder f) f vectors n g)
    {path : String} {record : FileRecord}
    (he : (path, record) ∈ f.recordsIn call.conditions plan.targets) :
    g.Holds world path record := by
  obtain ⟨p, hp, ⟨bytes, symbols⟩, hfound, hrecord⟩ :=
    (mem_recordsIn_iff hf hc.still hplan).mp he
  cases hrecord
  obtain ⟨hread, hsymbols⟩ := foundAt?_eq_some_iff.mp hfound
  have hreaders : g.extractor.toReaders = f.extractor.toReaders := congrArg Setup.readers h.setup
  have hfilter : g.filter = f.filter := congrArg Setup.filter h.setup
  refine ⟨bytes, symbols, hc.inside plan hplan p hp bytes hread, ?_, rfl, fun s hs haccept => ?_⟩
  · rw [Extractor.found?_congr hreaders]
    exact hsymbols
  · rw [hfilter] at haccept
    have hselected := hc.mem_selected hf hplan hp hfound hs haccept
    have hlength := (Engine.length_embed h.embed).trans (List.length_map _)
    rw [h.rows, Option.isSome_or, Option.isSome_map,
      lastWith_symbolRecords_isSome hlength hselected, Bool.true_or]

/-- A record after a run that stored vectors is held by their rows, or it stood there before. -/
private theorem holds_or_kept {f g : Finder} {call : Call} {plan : Plan}
    {r : Except FinderError Report} (hf : f.Rooted) (hc : call.Within world f)
    (hplan : call.plan? f = some plan)
    (h : Stores call.conditions plan.targets plan.deleted (call.rowsUnder f plan)
      (call.statesUnder f) f r g)
    {path : String} {record : FileRecord} (hget : g.fileState.get? path = some record) :
    g.Holds world path record ∨ ¬call.startsAnew f ∧ f.fileState.get? path = some record := by
  obtain ⟨vectors, n, hr⟩ := h.reindexed
  rcases hr.record_cases hget with he | hold
  · exact Or.inl (holds_of_mem_recordsIn hf hc hplan hr he)
  · exact Or.inr (of_get?_statesUnder hold)

/-- A call keeps all recorded files covered exactly if it leaves no record behind whose rows it
removes. -/
theorem covered_after_iff {f : Finder} {call : Call} (hf : f.Rooted) (hc : call.Within world f)
    (hworld : Distinguished f.extractor world) (hcovered : f.Covered world) :
    (call.after f).Covered world ↔ call.Spares world f := by
  rw [spares_iff hworld hcovered]
  constructor
  · intro h path record _ hget
    exact h path record hget
  intro hspares path record hget
  cases call.ends f with
  | stopped e hfailure hsetup hstate => exact hspares path record (hstate ▸ hget) hget
  | emptied hanew hsetup hstate =>
    rw [hstate] at hget
    cases hget
  | stored plan r hplan hfailure h =>
    rcases holds_or_kept hf hc hplan h hget with hholds | ⟨_, hold⟩
    · exact hholds
    · exact hspares path record hold hget

/-- A row that is recorded for a path outside of a plan is under the rows that the plan stores. -/
private theorem rowsUnder_isSome {f : Finder} {call : Call} {plan : Plan} {path : String}
    {record : FileRecord} (hworld : Distinguished f.extractor world) (hcovered : f.Covered world)
    (hanew : ¬call.startsAnew f) (hget : f.fileState.get? path = some record)
    (hpath : path ∉ plan.paths f.root) {id : String} (hid : id ∈ record.symbolIds)
    (hrow : (f.row? id).isSome) : (call.rowsUnder f plan id).isSome := by
  have hkept : id ∉ recordedIds f.fileState (plan.paths f.root) := by
    intro hmem
    obtain ⟨path', hpath', record', hget', hid'⟩ := mem_recordedIds.mp hmem
    obtain ⟨bytes, symbols, hin, hfound, rfl, _⟩ := hcovered path record hget
    obtain ⟨bytes', symbols', hin', hfound', rfl, _⟩ := hcovered path' record' hget'
    obtain ⟨s, hs, rfl⟩ := List.mem_map.mp hid
    obtain ⟨s', hs', hsame⟩ := List.mem_map.mp hid'
    obtain rfl := hworld.path_eq hin hin' hfound hfound' hs hs' hsame.symm
    exact hpath hpath'
  rw [rowsUnder, if_neg (not_or.mpr ⟨hanew, hkept⟩)]
  exact hrow

/-- A steady call spares all records. -/
theorem Steady.spares {f : Finder} {call : Call} (hf : f.Rooted) (hc : call.Within world f)
    (hworld : Distinguished f.extractor world) (hcovered : f.Covered world)
    (hsteady : call.Steady f) : call.Spares world f := by
  rw [spares_iff hworld hcovered]
  intro path record hold hnew
  have hsetup := setup_after f call
  have hkept : (∀ id, (call.after f).row? id = f.row? id) →
      (call.after f).Holds world path record := fun hrows =>
    (hcovered path record hold).of_rows hsetup fun id _ hid => (hrows id).symm ▸ hid
  by_cases hanew : call.startsAnew f
  · cases call.ends f with
    | stopped e hfailure _ hstate hrows hearly hsame =>
      exact hkept (hsame hanew (hsteady.cleared hanew))
    | emptied _ _ hstate =>
      rw [hstate] at hnew
      cases hnew
    | stored plan r hplan hfailure h =>
      exact (holds_or_kept hf hc hplan h hnew).resolve_right fun hold => hold.1 hanew
  · rcases hsteady.finished hanew with hrows | ⟨hlate, hread⟩
    · exact hkept hrows
    cases call.ends f with
    | stopped e hfailure _ _ _ hearly =>
      rcases hearly with hearly | ⟨c, rfl⟩
      · exact absurd hearly (hlate e hfailure).not_early
      · exact absurd rfl hanew
    | emptied h => exact absurd h hanew
    | stored plan r hplan hfailure h =>
      cases h with
      | cutOff vectors n e hr he h =>
        subst hr
        exact absurd he (hlate e hfailure).not_cutsOff
      | complete vectors hr h =>
        rw [h.fileState_all] at hnew
        rcases committed_cases hnew with he | ⟨hdeleted, hnone, _⟩
        · exact holds_of_mem_recordsIn hf hc hplan h he
        have hpath :=
          not_mem_paths_of_kept hf hc.still hplan (hread plan hplan) hold hdeleted hnone
        refine (hcovered path record hold).of_rows hsetup fun id hid hrow => ?_
        rw [h.rows, Option.isSome_or,
          rowsUnder_isSome hworld hcovered hanew hold hpath hid hrow, Bool.or_true]

end Call

namespace Finder

/-- After every history of calls that spare the records a file whose record has the digest of its
content has all its accepted symbols stored; the next call keeps all records covered exactly if it
spares them, too, and a steady one does. -/
theorem stored_of_digest_recorded {world : Set (String × ByteArray)} {first f : Finder}
    (hfirst : first.Rooted) (hworld : Distinguished first.extractor world)
    (hcovered : first.Covered world)
    (h : History (fun f call => call.Within world f ∧ call.Spares world f) first f) :
    (∀ (t : Tree) (path : String) (bytes : ByteArray) (record : FileRecord),
      t.read path = .ok bytes → (relativePath f.root path, bytes) ∈ world →
      f.fileState.get? (relativePath f.root path) = some record →
      t.digest? path = some record.digest →
        ∃ symbols, f.foundAt? t path = some (bytes, symbols) ∧
          record.symbolIds = symbols.map (·.id) ∧
          ∀ s ∈ symbols, f.filter.accepts s → (f.row? s.id).isSome) ∧
    ∀ call : Call, call.Within world f →
      ((call.after f).Covered world ↔ call.Spares world f) ∧
      (call.Steady f → call.Spares world f) := by
  have hworld' : ∀ {f : Finder}, f.setup = first.setup → Distinguished f.extractor world :=
    fun hsetup => hworld.congr (congrArg Setup.readers hsetup)
  have hall : f.Covered world := h.preserves hcovered fun f call hsetup hf hcall =>
    (Call.covered_after_iff (hfirst.of_setup hsetup) hcall.1 (hworld' hsetup) hf).mpr hcall.2
  have hrooted := hfirst.of_setup h.setup
  refine ⟨fun t path bytes record hread hin hget hdigest => ?_, fun call hcall =>
    ⟨Call.covered_after_iff hrooted hcall (hworld' h.setup) hall,
      fun hsteady => hsteady.spares hrooted hcall (hworld' h.setup) hall⟩⟩
  obtain ⟨bytes', symbols, hin', hfound, rfl, hstored⟩ := hall _ record hget
  rw [Tree.digest?, hread] at hdigest
  obtain rfl : bytes = bytes' := hworld.contents _ hin _ hin' (Option.some.inj hdigest)
  exact ⟨symbols, foundAt?_eq_some_iff.mpr ⟨hread, hfound⟩, rfl, hstored⟩

/-- The failing run plans to read the file again, and leaves the record of its old text and rows for
the symbols of both texts. -/
private theorem refusedRefresh_runs :
    ((refusedRefresh otherLine).failure? ((fullRun oneLine).after unindexed)).map (·.stage) =
      some .findingDuplicates ∧
    (refusedRefresh otherLine).plan? ((fullRun oneLine).after unindexed) =
      some ⟨["/ws/a.py"], []⟩ ∧
    (((fullRun oneLine).after unindexed).filter.apply (((fullRun oneLine).after
      unindexed).symbolsIn (refusedRefresh otherLine).conditions ["/ws/a.py"])).length ≤
        ((fullRun oneLine).after unindexed).config.finder.maxSymbols ∧
    (afterRefusal.fileState.get? (relativePath afterRefusal.root "/ws/a.py")).map (·.digest) =
      (Tree.oneFile oneLine.toUTF8).digest? "/ws/a.py" ∧
    (∀ s ∈ (unindexed.extractor.found? "a.py" oneLine.toUTF8).getD [],
      (afterRefusal.row? s.id).isSome) ∧
    ∀ s ∈ (unindexed.extractor.found? "a.py" otherLine.toUTF8).getD [],
      (afterRefusal.row? s.id).isSome := by
  decide +kernel

/-- After a full run over one text and a failing run over another one, all accepted symbols of the
first text are stored. -/
theorem stored_after_refusedRefresh : ∃ record symbols,
    ((refusedRefresh otherLine).failure? ((fullRun oneLine).after unindexed)).map (·.stage) =
      some .findingDuplicates ∧
    afterRefusal.fileState.get? (relativePath afterRefusal.root "/ws/a.py") = some record ∧
    afterRefusal.foundAt? (.oneFile oneLine.toUTF8) "/ws/a.py" = some (oneLine.toUTF8, symbols) ∧
    record.symbolIds = symbols.map (·.id) ∧
    ∀ s ∈ symbols, afterRefusal.filter.accepts s → (afterRefusal.row? s.id).isSome := by
  obtain ⟨hfails, hplan, hroom, hdigest, hone, hother⟩ := refusedRefresh_runs
  obtain ⟨record, hget, hrecord⟩ := Option.map_eq_some_iff.mp hdigest
  have hcovered : unindexed.Covered twoVersions := fun path record h => nomatch h
  have hwithin : (fullRun oneLine).Within twoVersions unindexed :=
    within_oneFile rfl rfl (by decide +kernel) (Or.inl rfl) (by decide +kernel)
  have hsteady : (fullRun oneLine).Steady unindexed := ⟨fun _ => rfl, fun h => absurd rfl h⟩
  have hspares := hsteady.spares ⟨rfl, rfl⟩ hwithin distinguished_twoVersions hcovered
  have hsetup : ((fullRun oneLine).after unindexed).setup = unindexed.setup := Call.setup_after _ _
  have hwithin' : (refusedRefresh otherLine).Within twoVersions ((fullRun oneLine).after unindexed) :=
    within_oneFile (congrArg Setup.root hsetup) rfl hplan (Or.inr rfl) hroom
  have hspares' :
      (refusedRefresh otherLine).Spares twoVersions ((fullRun oneLine).after unindexed) := by
    intro path bytes symbols hin hfound _ _ s hs _ _
    rw [Extractor.found?_congr (congrArg Setup.readers hsetup)] at hfound
    rcases hin with hin | hin
    all_goals
      cases hin
      have hs' := hs
      rw [← Option.getD_some (a := symbols) (b := []), ← hfound] at hs'
    · exact hone s hs'
    · exact hother s hs'
  have hin : (relativePath afterRefusal.root "/ws/a.py", oneLine.toUTF8) ∈ twoVersions :=
    Or.inl (Prod.ext (by decide +kernel) rfl)
  obtain ⟨symbols, hfound, hids, hstored⟩ := (stored_of_digest_recorded ⟨rfl, rfl⟩
    distinguished_twoVersions hcovered
      ((History.nil.snoc ⟨hwithin, hspares⟩).snoc ⟨hwithin', hspares'⟩)).1 _ _ _ record
      (Tree.read_oneFile _) hin hget (hdigest ▸ by rw [hget]; rfl)
  exact ⟨record, symbols, hfails, hget, hfound, hids, hstored⟩

end Finder

end CodeClones
