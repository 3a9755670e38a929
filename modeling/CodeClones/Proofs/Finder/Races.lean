import CodeClones.Proofs.Finder.Incremental

/-!
# Edits during a run

A run reads a file twice: the symbols come from the first reading, the recorded digest from the
second one. A file that is edited in between is recorded with the digest of a content in which its
symbols were not looked for, and a later run by digests does not see this edit. It sees all edits of
a file exactly if both readings gave the same digest.
-/

namespace CodeClones

namespace Finder

/-- The files that a run reads, each with its bytes at that moment and the symbols found in them. -/
def readings (f : Finder) (c : RunConditions) (files : List String) :
    List (String × ByteArray × List Symbol) :=
  files.zipIdx.filterMap fun p => (f.foundAt? (c.views.reads p.2) p.1).map (p.1, ·)

/-- The paths that a run by digests takes for changed if it finds some files. -/
def changedPaths (f : Finder) (c : RunConditions) (files : List String) : List String :=
  (FileState.detect f.fileState (digests c.views.digests f.root files)).changed

/-- A file that the run reads, under its path in the workspace. -/
structure Read (f : Finder) (c : RunConditions) (files : List String) (path : String) (j : Nat)
    (p : String) (found : ByteArray × List Symbol) : Prop where
  reading : (f.readings c files)[j]? = some (p, found)
  path_eq : relativePath f.root p = path

/-- Every edit of a file since some bytes of it were read is seen: whatever files a run by digests
finds, it takes the path for changed if the digest that it finds there is not that of the bytes. -/
def SeesEdits (f : Finder) (path : String) (bytes : ByteArray) : Prop :=
  ∀ (c : RunConditions) (files : List String) (later : String),
    (digests c.views.digests f.root files).get? path = some later →
      later ≠ Digest.Blake3.hexOf bytes → path ∈ f.changedPaths c files

/-- What the extractor reads are these files. -/
theorem readings_extractor {f : Finder} {c : RunConditions} (hf : f.Rooted)
    {files : List String} (hfiles : ∀ path ∈ files, FilePath.isAbsolute path) :
    f.extractor.readings c.views.reads files 0 =
      (f.readings c files).map fun r => (r.1, r.2.2) := by
  rw [readings, List.map_filterMap]
  refine List.filterMap_congr fun p hp => ?_
  have hmem : p.1 ∈ files := List.fst_mem_of_mem_zipIdx hp
  have hread := congrArg (Option.map (p.1, ·))
    (readFile_eq_foundAt? hf (c.views.reads p.2) (hfiles p.1 hmem))
  rw [Option.map_map, Option.map_map] at hread
  rw [Option.map_map]
  exact hread

/-- The record of a file has the identifiers of the symbols that were found in its first reading,
and the digest of its second one. -/
theorem mem_recordsIn_readings {f : Finder} {c : RunConditions} (hf : f.Rooted)
    {files : List String} (hfiles : ∀ path ∈ files, FilePath.isAbsolute path)
    {e : String × FileRecord} :
    e ∈ f.recordsIn c files ↔ ∃ j p found, f.Read c files e.1 j p found ∧
      (c.views.records j).digest? p = some e.2.digest ∧
      e.2.symbolIds = found.2.map (·.id) := by
  rw [recordsIn, recordsOf, readings_extractor hf hfiles, List.zipIdx_map, List.mem_filterMap]
  constructor
  · rintro ⟨_, hmem, he⟩
    obtain ⟨⟨⟨p, found⟩, j⟩, hj, rfl⟩ := List.mem_map.mp hmem
    obtain ⟨digest, hdigest, rfl⟩ := Option.map_eq_some_iff.mp he
    exact ⟨j, p, found, ⟨List.mem_zipIdx_iff_getElem?.mp hj, rfl⟩, hdigest, rfl⟩
  · rintro ⟨j, p, found, ⟨hj, hpath⟩, hdigest, hids⟩
    refine ⟨_, List.mem_map.mpr ⟨((p, found), j), List.mem_zipIdx_iff_getElem?.mpr hj, rfl⟩, ?_⟩
    obtain ⟨path, digest, ids⟩ := e
    obtain rfl : relativePath f.root p = path := hpath
    obtain rfl : ids = found.2.map (·.id) := hids
    exact Option.map_eq_some_iff.mpr ⟨digest, hdigest, rfl⟩

/-- A path is taken for changed exactly if the digest that is found there is not the recorded
one. -/
theorem mem_changedPaths_iff {f : Finder} {c : RunConditions} {files : List String}
    {path later : String} {record : FileRecord}
    (hrecord : f.fileState.get? path = some record)
    (hlater : (digests c.views.digests f.root files).get? path = some later) :
    path ∈ f.changedPaths c files ↔ later ≠ record.digest := by
  rw [changedPaths, FileState.mem_detect_changed, hlater]
  simp only [Option.some.injEq, exists_eq_left', FileState.differs_iff, hrecord, Option.map_some,
    ne_eq]
  exact not_congr eq_comm

/-- All edits since a reading are seen exactly if the recorded digest is that of the bytes read,
provided that the recorded one was the digest of the file at some time. -/
theorem seesEdits_iff {f : Finder} {t : Tree} {p : String} {bytes : ByteArray}
    {record : FileRecord} (hrecord : f.fileState.get? (relativePath f.root p) = some record)
    (hdigest : t.digest? p = some record.digest) :
    f.SeesEdits (relativePath f.root p) bytes ↔ record.digest = Digest.Blake3.hexOf bytes := by
  constructor
  · intro hsees
    by_contra hne
    -- a run that finds the file as it was when its digest was taken does not see it
    let c : RunConditions :=
      { views := .still t, search := { usage := fun _ => 0, query := fun _ => {} } }
    have hlater : (digests c.views.digests f.root [p]).get? (relativePath f.root p) =
        some record.digest := by
      refine (get?_digests fun q hq q' hq' _ => ?_).mpr ⟨p, List.mem_singleton_self p, rfl, hdigest⟩
      rw [List.mem_singleton.mp hq, List.mem_singleton.mp hq']
    exact (mem_changedPaths_iff hrecord hlater).mp (hsees c [p] _ hlater hne) rfl
  · intro hsame c files later hlater hne
    exact (mem_changedPaths_iff hrecord hlater).mpr (hsame ▸ hne)

end Finder

namespace Call

open Finder

/-- After a run that succeeds, in whatever trees its accesses were made, a path that it forgets has
no record, a path of which it could take no digest keeps its record, and any other path has a record
of the run: with the identifiers of what was found in a file there, and the digest that the file had
at a second reading. Later runs by digests see all edits of the file since its first reading exactly
if this is the digest of what was read first. -/
theorem record_after {f : Finder} {call : Call} {plan : Plan} (hf : f.Rooted)
    (hplan : call.plan? f = some plan) (hdone : call.failure? f = none) (path : String) :
    (path ∈ plan.deleted ∧ (call.after f).fileState.get? path = none) ∨
    (path ∉ plan.deleted ∧
      (∀ j p found, f.Read call.conditions plan.targets path j p found →
        (call.conditions.views.records j).digest? p = none) ∧
      (call.after f).fileState.get? path = (call.statesUnder f).get? path) ∨
    (path ∉ plan.deleted ∧
      ∃ j p found record, f.Read call.conditions plan.targets path j p found ∧
        (call.conditions.views.records j).digest? p = some record.digest ∧
        record.symbolIds = found.2.map (·.id) ∧
        (call.after f).fileState.get? path = some record ∧
        ((call.after f).SeesEdits path found.1 ↔
          record.digest = Digest.Blake3.hexOf found.1)) := by
  obtain ⟨vectors, hr⟩ := reindexed_of_done hplan hdone
  have habsolute : ∀ q ∈ plan.targets, FilePath.isAbsolute q := fun q hq =>
    isAbsolute_of_mem_targets hf.absolute hplan hq
  have hroot : (call.after f).root = f.root := congrArg Setup.root hr.setup
  have hget := get?_committed (f.recordsIn call.conditions plan.targets) plan.deleted
    (call.statesUnder f) path
  rw [← hr.fileState_all] at hget
  by_cases hdeleted : path ∈ plan.deleted
  · rw [if_pos hdeleted] at hget
    exact Or.inl ⟨hdeleted, hget⟩
  rw [if_neg hdeleted] at hget
  cases hlast : (f.recordsIn call.conditions plan.targets).reverse.find? fun e => e.1 == path with
  | none =>
    rw [hlast] at hget
    refine Or.inr (Or.inl ⟨hdeleted, fun j p found hread => ?_, hget⟩)
    by_contra hsome
    obtain ⟨digest, hdigest⟩ := Option.ne_none_iff_exists'.mp hsome
    have hmem : (path, (⟨digest, found.2.map (·.id)⟩ : FileRecord)) ∈
        f.recordsIn call.conditions plan.targets :=
      (mem_recordsIn_readings hf habsolute).mpr ⟨j, p, found, hread, hdigest, rfl⟩
    exact List.find?_eq_none.mp hlast _ (List.mem_reverse.mpr hmem) (beq_self_eq_true path)
  | some e =>
    rw [hlast] at hget
    have hmem := List.mem_reverse.mp (List.mem_of_find?_eq_some hlast)
    have hpath : e.1 = path := by simpa using List.find?_some hlast
    obtain ⟨j, p, found, hread, hdigest, hids⟩ := (mem_recordsIn_readings hf habsolute).mp hmem
    rw [hpath] at hread
    refine Or.inr (Or.inr ⟨hdeleted, j, p, found, e.2, hread, hdigest, hids, hget, ?_⟩)
    obtain rfl := hread.path_eq
    rw [← hroot] at hget ⊢
    exact seesEdits_iff hget hdigest

/-- A full run during which the text of the file is replaced after it was read and before its digest
is taken. -/
def overtaken : Call :=
  .full
    { views := { Views.still (.oneFile oneLine.toUTF8) with
        records := fun _ => .oneFile otherLine.toUTF8 }
      search := { usage := fun _ => 0, query := fun _ => {} } } {} "." []

/-- The file is recorded with the digest of the new text, so that the edit is not seen. -/
theorem not_seesEdits_overtaken : overtaken.plan? unindexed = some ⟨["/ws/a.py"], []⟩ ∧
    overtaken.failure? unindexed = none ∧
    ∃ record, (overtaken.after unindexed).fileState.get? "a.py" = some record ∧
      record.digest = Digest.Blake3.hexOf otherLine.toUTF8 ∧
      ¬(overtaken.after unindexed).SeesEdits "a.py" oneLine.toUTF8 := by
  have hrooted : unindexed.Rooted := ⟨by decide +kernel, rfl⟩
  have hplan : overtaken.plan? unindexed = some ⟨["/ws/a.py"], []⟩ := by decide +kernel
  have hdone : overtaken.failure? unindexed = none := by
    have hok : (overtaken.failure? unindexed).isNone := by decide +kernel
    exact Option.isNone_iff_eq_none.mp hok
  have hdigest : (((overtaken.after unindexed).fileState.get? "a.py").map (·.digest)) =
      some (Digest.Blake3.hexOf otherLine.toUTF8) := by
    decide +kernel
  have hfirst : (unindexed.readings overtaken.conditions ["/ws/a.py"]).map (·.2.1) =
      [oneLine.toUTF8] := by
    decide +kernel
  have hdiffer : Digest.Blake3.hexOf otherLine.toUTF8 ≠ Digest.Blake3.hexOf oneLine.toUTF8 := by
    decide +kernel
  refine ⟨hplan, hdone, ?_⟩
  rcases record_after hrooted hplan hdone "a.py" with ⟨hin, _⟩ | ⟨_, _, hkept⟩ |
    ⟨_, j, p, found, record, hread, _, _, hget, hsees⟩
  · cases hin
  · rw [hkept] at hdigest
    cases hdigest
  · rw [hget] at hdigest
    have hnew : record.digest = Digest.Blake3.hexOf otherLine.toUTF8 := Option.some.inj hdigest
    have hbytes : found.1 ∈ [oneLine.toUTF8] :=
      hfirst ▸ List.mem_map_of_mem (List.mem_of_getElem? hread.reading)
    rw [List.mem_singleton.mp hbytes, hnew] at hsees
    exact ⟨record, hget, hnew, fun h => hdiffer (hsees.mp h)⟩

end Call

end CodeClones
