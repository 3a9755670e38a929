import CodeClones.Proofs.Workspace.Changes

/-!
# Settling what has changed

Detection compares the records with the present digests from both sides. Once every changed file is
recorded with its present digest and every file that is gone is forgotten, in whatever order, the
records have the present digests and no others, so that nothing is detected any more.
-/

namespace CodeClones.FileState

/-- A change of the file states. -/
inductive Update where
  | record (path : String) (record : FileRecord)
  | remove (path : String)

namespace Update

/-- The path that is recorded or forgotten. -/
def path : Update → String
  | record path _ => path
  | remove path => path

/-- What is recorded of the path afterwards. -/
def recorded? : Update → Option FileRecord
  | record _ r => some r
  | remove _ => none

/-- Makes a change. -/
def apply (s : FileState) : Update → FileState
  | record path r => s.insert path r
  | remove path => s.erase path

theorem get?_apply (s : FileState) (u : Update) (path : String) :
    (u.apply s).get? path = if path = u.path then u.recorded? else s.get? path := by
  cases u with
  | record key r => exact s.get?_insert key r path
  | remove key => exact s.get?_erase key path

end Update

/-- The file states after some changes, made one after the other. -/
def updated (s : FileState) (updates : List Update) : FileState := updates.foldl Update.apply s

/-- The last change of a path counts, and paths that are not touched keep their records. -/
theorem get?_updated (s : FileState) (updates : List Update) (path : String) :
    (s.updated updates).get? path =
      ((updates.reverse.find? fun u => u.path == path).map Update.recorded?).getD
        (s.get? path) := by
  induction updates generalizing s with
  | nil => rfl
  | cons u updates ih =>
    rw [updated, List.foldl_cons, ← updated, ih, Update.get?_apply, List.reverse_cons,
      List.find?_append, List.find?_singleton]
    cases updates.reverse.find? fun u => u.path == path with
    | some last => rfl
    | none =>
      by_cases hpath : path = u.path
      · simp [hpath]
      · simp [hpath, beq_eq_false_iff_ne.mpr (Ne.symm hpath)]

/-- The changes that a change set asks for, in any order: every changed file is recorded with its
present digest, whatever symbols are recorded of it, and every file that is gone is forgotten. -/
structure Settles (current : SortedMap String) (c : ChangeSet) (updates : List Update) : Prop where
  recorded : ∀ path, (∃ r, .record path r ∈ updates) ↔ path ∈ c.changed
  present : ∀ path r, .record path r ∈ updates → current.get? path = some r.digest
  removed : ∀ path, .remove path ∈ updates ↔ path ∈ c.deleted

variable {s : FileState} {current : SortedMap String}

/-- After the changes every path is recorded with its present digest, or not at all. -/
theorem Settles.digest_eq {updates : List Update}
    (h : Settles current (detect s current) updates) (path : String) :
    ((s.updated updates).get? path).map (·.digest) = current.get? path := by
  rw [get?_updated]
  cases hlast : updates.reverse.find? fun u => u.path == path with
  | some u =>
    have hmem : u ∈ updates := List.mem_reverse.mp (List.mem_of_find?_eq_some hlast)
    obtain rfl : u.path = path := by simpa using List.find?_some hlast
    cases u with
    | record path r => exact (h.present path r hmem).symm
    | remove path => exact (mem_detect_deleted.mp ((h.removed path).mp hmem)).2.symm
  | none =>
    -- a path that no change touches is neither changed nor gone
    have huntouched : ∀ u ∈ updates, u.path ≠ path := by simpa using hlast
    have hchanged : path ∉ (detect s current).changed := by
      intro hmem
      obtain ⟨r, hr⟩ := (h.recorded path).mpr hmem
      exact huntouched _ hr rfl
    have hdeleted : path ∉ (detect s current).deleted := fun hmem =>
      huntouched _ ((h.removed path).mpr hmem) rfl
    cases hcurrent : current.get? path with
    | some digest =>
      by_contra hdiffers
      exact hchanged (mem_detect_changed.mpr ⟨digest, hcurrent, differs_iff.mpr hdiffers⟩)
    | none =>
      cases hrecord : s.get? path with
      | none => rfl
      | some r => exact absurd (mem_detect_deleted.mpr ⟨by rw [hrecord]; rfl, hcurrent⟩) hdeleted

/-- Where all records have the present digests, nothing is detected. -/
theorem detect_eq_nil (h : ∀ path, (s.get? path).map (·.digest) = current.get? path) :
    detect s current = ⟨[], []⟩ := by
  have hchanged : (detect s current).changed = [] := by
    refine List.eq_nil_iff_forall_not_mem.mpr fun path hmem => ?_
    obtain ⟨digest, hcurrent, hdiffers⟩ := mem_detect_changed.mp hmem
    exact differs_iff.mp hdiffers ((h path).trans hcurrent)
  have hdeleted : (detect s current).deleted = [] := by
    refine List.eq_nil_iff_forall_not_mem.mpr fun path hmem => ?_
    obtain ⟨hrecorded, hcurrent⟩ := mem_detect_deleted.mp hmem
    have hnone := (h path).trans hcurrent
    rw [Option.map_eq_none_iff] at hnone
    rw [hnone] at hrecorded
    cases hrecorded
  exact congrArg₂ ChangeSet.mk hchanged hdeleted

/-- What a comparison of the records with the present digests has to give: the paths with a present
digest that is not the recorded one, and the recorded paths without one, each in ascending order. -/
structure Compares (s : FileState) (current : SortedMap String) (c : ChangeSet) : Prop where
  changed : ∀ path, path ∈ c.changed ↔ ∃ digest, current.get? path = some digest ∧
    ∀ r, s.get? path = some r → r.digest ≠ digest
  deleted : ∀ path, path ∈ c.deleted ↔ path ∈ s.keys ∧ path ∉ current.keys
  changed_ascending : c.changed.Pairwise (· < ·)
  deleted_ascending : c.deleted.Pairwise (· < ·)
  disjoint : c.changed.Disjoint c.deleted

theorem compares_detect (s : FileState) (current : SortedMap String) :
    Compares s current (detect s current) where
  changed path := by
    refine mem_detect_changed.trans (exists_congr fun digest => and_congr_right fun _ => ?_)
    rw [differs_iff]
    cases s.get? path <;> simp
  deleted path := by
    rw [mem_detect_deleted, SortedMap.mem_keys_iff, SortedMap.mem_keys_iff]
    simp
  changed_ascending := List.pairwise_map.mpr (current.ascending.filter _)
  deleted_ascending := s.ascending_keys.filter _
  disjoint path hchanged hdeleted := by
    obtain ⟨digest, hcurrent, _⟩ := mem_detect_changed.mp hchanged
    rw [(mem_detect_deleted.mp hdeleted).2] at hcurrent
    cases hcurrent

/-- Detection gives exactly what differs, and once this is settled, in whatever order, it gives
nothing any more and the recorded paths are those with a present digest. -/
theorem detect_settles (s : FileState) (current : SortedMap String) :
    Compares s current (detect s current) ∧
      ∀ updates, Settles current (detect s current) updates →
        detect (s.updated updates) current = ⟨[], []⟩ ∧
          (s.updated updates).keys = current.keys := by
  refine ⟨compares_detect s current, fun updates h => ⟨detect_eq_nil h.digest_eq, ?_⟩⟩
  refine SortedMap.keys_congr fun path => ?_
  rw [← h.digest_eq path, Option.isSome_map]

/-- The records of three files. -/
private def recorded : FileState :=
  (({} : FileState).insert "a.py" ⟨"1", ["f"]⟩).insert "b.py" ⟨"2", ["g"]⟩ |>.insert "gone.py"
    ⟨"3", ["h"]⟩

/-- The digests after one file was edited, one removed and one made. -/
private def edited : SortedMap String :=
  (({} : SortedMap String).insert "a.py" "1").insert "b.py" "5" |>.insert "new.py" "4"

/-- The changes in another order than that of the paths. -/
private def disordered : List Update :=
  [.record "new.py" ⟨"4", []⟩, .remove "gone.py", .record "b.py" ⟨"5", ["g", "i"]⟩]

/-- An edit, a removal and a new file are settled. -/
theorem detect_settles_edited :
    detect recorded edited = ⟨["b.py", "new.py"], ["gone.py"]⟩ ∧
      Settles edited (detect recorded edited) disordered ∧
      detect (recorded.updated disordered) edited = ⟨[], []⟩ ∧
      (recorded.updated disordered).keys = edited.keys := by
  have hdetect : detect recorded edited = ⟨["b.py", "new.py"], ["gone.py"]⟩ := by decide
  have hsettles : Settles edited (detect recorded edited) disordered := by
    rw [hdetect]
    refine ⟨fun path => ?_, fun path r h => ?_, fun path => by simp [disordered]⟩
    · simp [disordered, exists_or, or_comm]
    · simp only [disordered, List.mem_cons, Update.record.injEq, reduceCtorEq, List.not_mem_nil,
        or_false, false_or] at h
      rcases h with ⟨rfl, rfl⟩ | ⟨rfl, rfl⟩ <;> decide
  exact ⟨hdetect, hsettles, (detect_settles recorded edited).2 disordered hsettles⟩

end CodeClones.FileState
