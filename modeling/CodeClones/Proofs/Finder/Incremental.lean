import CodeClones.Proofs.Finder.Index
import CodeClones.Proofs.Workspace.Changes
import CodeClones.Proofs.Workspace.Tree

/-!
# Runs by digests against full runs

A full run indexes the files of the workspace as they are. A run by digests keeps what is recorded
for files with the recorded digests, removes the rows of all others, and indexes those again that
are still there. It sees a changed file only under its path in the workspace, so that it leaves the
index of a full run exactly if every changed file is read again under this path.
-/

namespace CodeClones

namespace Finder

variable {vectorOf : String → Embedding} {world : Set (String × ByteArray)}

/-- The record of a file is missing or has another digest than the file. -/
def Changed (f : Finder) (t : Tree) (path : String) : Prop :=
  (f.fileState.get? (relativePath f.root path)).map (·.digest) ≠ t.digest? path

/-- The path of a file in the workspace leads back to the file. -/
structure LeadsBack (f : Finder) (t : Tree) (path : String) : Prop where
  seen : relativePath f.root (FilePath.join f.root (relativePath f.root path)) =
    relativePath f.root path
  read : t.read (FilePath.join f.root (relativePath f.root path)) = t.read path

theorem LeadsBack.alike {f : Finder} {t : Tree} {path : String} (h : f.LeadsBack t path) :
    f.Alike t (FilePath.join f.root (relativePath f.root path)) path := by
  refine ⟨h.seen, ?_⟩
  rw [foundAt?, foundAt?, h.seen, h.read]

/-- Files whose names are plain from the workspace on are led back to. -/
theorem leadsBack_of_plainNames {f : Finder} (hf : f.Rooted) (t : Tree) {names : List String}
    (hne : names ≠ []) (h : ∀ name ∈ names, PlainName name) :
    f.LeadsBack t (names.foldl FilePath.join f.root) := by
  have hback := join_relativePath_of_plainNames hf.absolute hne h
  exact ⟨by rw [hback], by rw [hback]⟩

theorem digest?_of_foundAt? {f : Finder} {t : Tree} {path : String}
    {found : ByteArray × List Symbol} (h : f.foundAt? t path = some found) :
    t.digest? path = some (Digest.Blake3.hexOf found.1) := by
  rw [Tree.digest?, (foundAt?_eq_some_iff.mp h).1]
  rfl

section ChangedPlan

variable {f : Finder} {c : RunConditions} {t : Tree} {files : List String}

private theorem get?_digests_views (hviews : c.views = .still t)
    (hapart : ∀ p ∈ files, ∀ q ∈ files, relativePath f.root p = relativePath f.root q → p = q)
    {key digest : String} :
    (digests c.views.digests f.root files).get? key = some digest ↔
      ∃ p ∈ files, relativePath f.root p = key ∧ t.digest? p = some digest := by
  rw [show c.views.digests = fun _ => t from congrArg Views.digests hviews]
  exact get?_digests fun p hp q hq hpath => by rw [hapart p hp q hq hpath]

/-- The targets of a run by digests are the changed files that can be read. -/
theorem mem_targets_changedPlan (hviews : c.views = .still t)
    (hapart : ∀ p ∈ files, ∀ q ∈ files, relativePath f.root p = relativePath f.root q → p = q)
    {path : String} : path ∈ (changedPlan f c files).targets ↔ ∃ p ∈ files,
      (t.digest? p).isSome ∧ f.Changed t p ∧
        FilePath.join f.root (relativePath f.root p) = path := by
  simp only [changedPlan, List.mem_map, FileState.mem_detect_changed,
    get?_digests_views hviews hapart, FileState.differs_iff]
  constructor
  · rintro ⟨_, ⟨digest, ⟨p, hp, rfl, hdigest⟩, hdiffers⟩, rfl⟩
    refine ⟨p, hp, by rw [hdigest]; rfl, ?_, rfl⟩
    rw [Changed, hdigest]
    exact hdiffers
  · rintro ⟨p, hp, hread, hchanged, rfl⟩
    obtain ⟨digest, hdigest⟩ := Option.isSome_iff_exists.mp hread
    rw [Changed, hdigest] at hchanged
    exact ⟨_, ⟨_, ⟨p, hp, rfl, hdigest⟩, hchanged⟩, rfl⟩

/-- The paths that a run by digests forgets are recorded, and no file with them can be read. -/
theorem mem_deleted_changedPlan (hviews : c.views = .still t)
    (hapart : ∀ p ∈ files, ∀ q ∈ files, relativePath f.root p = relativePath f.root q → p = q)
    {path : String} : path ∈ (changedPlan f c files).deleted ↔
      (f.fileState.get? path).isSome ∧
        ∀ p ∈ files, relativePath f.root p = path → t.digest? p = none := by
  rw [changedPlan, FileState.mem_detect_deleted, Option.eq_none_iff_forall_ne_some]
  refine and_congr_right fun _ => ⟨fun hnone p hp hpath => ?_, fun hnone digest hget => ?_⟩
  · rw [Option.eq_none_iff_forall_ne_some]
    exact fun digest hdigest =>
      hnone digest ((get?_digests_views hviews hapart).mpr ⟨p, hp, hpath, hdigest⟩)
  · obtain ⟨p, hp, hpath, hdigest⟩ := (get?_digests_views hviews hapart).mp hget
    exact absurd (hnone p hp hpath) (hdigest ▸ Option.some_ne_none _)

end ChangedPlan

end Finder

namespace Call

open Finder

variable {vectorOf : String → Embedding} {world : Set (String × ByteArray)} {f : Finder}
  {call : Call} {t t₀ : Tree} {files files₀ : List String}

theorem Surveys.views (h : call.Surveys world f t files) : call.conditions.views = .still t := by
  rw [← h.scan]
  exact h.still

/-- A run by digests indexes the changed files again, under their paths in the workspace. -/
theorem Surveys.mem_targets (h : call.Surveys world f t files) {path : String} :
    path ∈ (changedPlan f call.conditions files).targets ↔
      ∃ p ∈ files, f.Changed t p ∧ FilePath.join f.root (relativePath f.root p) = path := by
  rw [mem_targets_changedPlan h.views h.apart]
  refine exists_congr fun p => and_congr_right fun hp => ?_
  obtain ⟨found, hfound, _⟩ := h.readable p hp
  rw [digest?_of_foundAt? hfound]
  exact and_iff_right rfl

/-- A run by digests forgets the paths that no file has any more. -/
theorem Surveys.mem_deleted (h : call.Surveys world f t files) {path : String} :
    path ∈ (changedPlan f call.conditions files).deleted ↔
      (f.fileState.get? path).isSome ∧ ∀ p ∈ files, relativePath f.root p ≠ path := by
  rw [mem_deleted_changedPlan h.views h.apart]
  refine and_congr_right fun _ => forall₂_congr fun p hp => ?_
  obtain ⟨found, hfound, _⟩ := h.readable p hp
  rw [digest?_of_foundAt? hfound]
  exact imp_congr_right fun _ => iff_of_false (Option.some_ne_none _) not_false

/-- What is found in an unchanged file was found before under the same path in the workspace. -/
theorem Surveys.found_before (hworld : Distinguished f.extractor world)
    (h₀ : f.Indexes world vectorOf t₀ files₀)
    (h : call.Surveys world f t files) {p : String} (hp : p ∈ files) (hsame : ¬f.Changed t p)
    {found : ByteArray × List Symbol} (hfound : f.foundAt? t p = some found) :
    ∃ p₀ ∈ files₀, f.foundAt? t₀ p₀ = some found ∧
      relativePath f.root p₀ = relativePath f.root p := by
  rw [Changed, not_not, digest?_of_foundAt? hfound, Option.map_eq_some_iff] at hsame
  obtain ⟨record, hget, hdigest⟩ := hsame
  obtain ⟨p₀, hp₀, found₀, hfound₀, hrecord⟩ := (h₀.records _ _).mp hget
  obtain ⟨hpath, rfl⟩ := Prod.mk.inj hrecord
  obtain rfl := found_eq_of_digest hworld hfound₀ hfound (h₀.known p₀ hp₀ _ hfound₀)
    (h.known p hp _ hfound) hpath hdigest
  exact ⟨p₀, hp₀, hfound₀, hpath⟩

/-- A run by digests indexes by its plan and does not start anew. -/
theorem Surveys.plan?_eq (hincremental : f.config.finder.enableIncremental)
    (hcall : call.IsIncremental) (h : call.Surveys world f t files) :
    call.plan? f = some (changedPlan f call.conditions files) ∧ ¬call.startsAnew f := by
  cases call with
  | full => cases hcall
  | clear => cases hcall
  | changes c o listed =>
    cases listed with
    | some => cases hcall
    | none =>
      refine ⟨?_, by simp [startsAnew, hincremental]⟩
      rw [plan?, if_pos hincremental, show c.views.scan = t from h.scan, h.covers]
      rfl

/-- Where the paths of changed files lead back, the run reads exactly these again. -/
theorem Surveys.aims (h : call.Surveys world f t files)
    (hback : ∀ p ∈ files, f.Changed t p → f.LeadsBack t p) :
    f.Aims world t (changedPlan f call.conditions files).targets
      fun p => p ∈ files ∧ f.Changed t p where
  only q hq := by
    obtain ⟨p, hp, hchanged, rfl⟩ := h.mem_targets.mp hq
    exact ⟨p, ⟨hp, hchanged⟩, (hback p hp hchanged).alike⟩
  all p hp :=
    ⟨_, h.mem_targets.mpr ⟨p, hp.1, hp.2, rfl⟩, (hback p hp.1 hp.2).alike⟩
  apart p hp p' hp' := h.apart p hp.1 p' hp'.1
  inside p hp := h.known p hp.1

/-- Where the paths of changed files lead back, the run renews the index of the workspace. -/
theorem Surveys.renews (hincremental : f.config.finder.enableIncremental)
    (hcall : call.IsIncremental) (hworld : Distinguished f.extractor world)
    (h₀ : f.Indexes world vectorOf t₀ files₀) (h : call.Surveys world f t files)
    (hback : ∀ p ∈ files, f.Changed t p → f.LeadsBack t p) :
    call.Renews world f (changedPlan f call.conditions files) t t₀ files files₀
      (f.Changed t) where
  toSurveys := h
  planned := (h.plan?_eq hincremental hcall).1
  keeps := (h.plan?_eq hincremental hcall).2
  aims := h.aims hback
  other p hp hsame := by
    obtain ⟨found, hfound, _⟩ := h.readable p hp
    obtain ⟨p₀, hp₀, hfound₀, hpath⟩ := h.found_before hworld h₀ hp hsame hfound
    exact ⟨p₀, hp₀, hfound₀.trans hfound.symm, hpath⟩
  mem_deleted := h.mem_deleted

/-- A run by digests leaves the index of the workspace if the paths of changed files lead back. -/
theorem indexes_after_incremental (hf : f.Regular world vectorOf)
    (hincremental : f.config.finder.enableIncremental) (hcall : call.IsIncremental)
    (h₀ : f.Indexes world vectorOf t₀ files₀) (h : call.Surveys world f t files)
    (hback : ∀ p ∈ files, f.Changed t p → f.LeadsBack t p) :
    (call.after f).Indexes world vectorOf t files :=
  (h.renews hincremental hcall hf.distinguished h₀ hback).indexes_after hf h₀

/-- Only if the paths of changed files lead back does a run by digests leave the index of the
workspace. -/
theorem leadsBack_of_indexes (hf : f.Rooted)
    (hincremental : f.config.finder.enableIncremental) (hcall : call.IsIncremental)
    (hworld : Distinguished f.extractor world) (h : call.Surveys world f t files)
    (hafter : (call.after f).Indexes world vectorOf t files) {p : String} (hp : p ∈ files)
    (hchanged : f.Changed t p) : f.LeadsBack t p := by
  obtain ⟨hplan, hanew⟩ := h.plan?_eq hincremental hcall
  obtain ⟨vectors, hr⟩ := reindexed_of_done hplan h.done
  obtain ⟨found, hfound, hin⟩ := h.readable p hp
  have hroot : (call.after f).root = f.root := congrArg Setup.root hr.setup
  have hget : (call.after f).fileState.get? (relativePath f.root p) =
      some (recordOf f.root p found).2 := by
    refine (hafter.records _ _).mpr ⟨p, hp, found, ?_, ?_⟩
    · rw [foundAt?_of_setup hr.setup, hfound]
    · rw [hroot]
      rfl
  rcases hr.record_cases hget with hwritten | hold
  · -- the record was written under the path of some changed file, and that leads back
    obtain ⟨q, hq, found', hfound', hrecord⟩ := (mem_recordsIn_iff hf h.still hplan).mp hwritten
    rw [h.scan] at hfound'
    obtain ⟨hpath, hsame⟩ := Prod.mk.inj hrecord
    obtain ⟨p', hp', _, rfl⟩ := h.mem_targets.mp hq
    have hkey := backslash_not_mem_normalizePath ((FilePath.below? f.root p').getD p')
    have hread := (foundAt?_eq_some_iff.mp hfound').1
    have hbytes : found'.1 = found.1 := hworld.contents _
      (h.inside _ hplan _ hq _ (h.scan ▸ hread)) _ hin (congrArg FileRecord.digest hsame)
    refine ⟨?_, ?_⟩
    · rw [← hpath]
      exact relativePath_join_relativePath hf.absolute hkey
    · rw [← hpath, (foundAt?_eq_some_iff.mp hfound).1, ← hbytes]
      exact Tree.read_join_relativePath hf.absolute h.directory hkey hread
  · refine absurd ?_ hchanged
    rw [(of_get?_statesUnder hold).2, digest?_of_foundAt? hfound]
    rfl

end Call

namespace Finder

/-- The finders that a full run of the workspace and then runs by digests lead to from a first one,
with the tree that the last run has seen. Files may change between the runs in any way. -/
inductive Tracks (world : Set (String × ByteArray)) (first : Finder) : Finder → Tree → Prop
  | full {call : Call} {t : Tree} {files : List String} (hfull : call.IsFull first)
    (h : call.Surveys world first t files) : Tracks world first (call.after first) t
  | incremental {f : Finder} {call : Call} {t₀ t : Tree} {files : List String}
    (h₀ : Tracks world first f t₀) (hcall : call.IsIncremental)
    (h : call.Surveys world f t files)
    (hback : ∀ p ∈ files, f.Changed t p → f.LeadsBack t p) : Tracks world first (call.after f) t

variable {vectorOf : String → Embedding} {world : Set (String × ByteArray)} {first f : Finder}
  {t : Tree}

theorem Tracks.setup (h : Tracks world first f t) : f.setup = first.setup := by
  induction h with
  | full => exact Call.setup_after _ _
  | incremental h₀ hcall h hback ih => exact (Call.setup_after _ _).trans ih

/-- All these finders have the index of the files that the last run has seen. -/
theorem Tracks.indexes (hfirst : first.Regular world vectorOf)
    (hincremental : first.config.finder.enableIncremental) (h : Tracks world first f t) :
    ∃ files, discover t first.root first.root [] first.filter = .ok files ∧
      f.Indexes world vectorOf t files := by
  induction h with
  | full hfull h =>
    exact ⟨_, h.covers, Call.indexes_after_full hfirst hfull h⟩
  | @incremental f call t₀ t files h₀ hcall h hback ih =>
    obtain ⟨files₀, _, hindexes⟩ := ih
    have hconfig : f.config = first.config := congrArg Setup.config h₀.setup
    exact ⟨files, h.covers_of_setup h₀.setup, Call.indexes_after_incremental
      (hfirst.of_setup h₀.setup) (hconfig ▸ hincremental) hcall hindexes h hback⟩

/-- A finder after a full run of the workspace, with whatever index it started. -/
inductive Rebuilt (world : Set (String × ByteArray)) (first : Finder) (t : Tree) : Finder → Prop
  | full {fresh : Finder} {call : Call} {files : List String} (hsetup : fresh.setup = first.setup)
    (hfull : call.IsFull fresh) (h : call.Surveys world fresh t files) :
    Rebuilt world first t (call.after fresh)

/-- A rebuilt index is that of the files that the run has seen. -/
theorem Rebuilt.indexes (hfirst : first.Regular world vectorOf) {g : Finder}
    (h : Rebuilt world first t g) {files : List String}
    (hfiles : discover t first.root first.root [] first.filter = .ok files) :
    g.setup = first.setup ∧ g.Indexes world vectorOf t files := by
  cases h with
  | @full fresh call files' hsetup hfull h =>
    cases hfiles.symm.trans (h.covers_of_setup hsetup)
    exact ⟨(Call.setup_after _ _).trans hsetup,
      Call.indexes_after_full (hfirst.of_setup hsetup) hfull h⟩

/-- After a full run and any runs by digests, between which files are added, changed and removed,
the file states and the rows are those of a full run over the same files, as long as the paths of
changed files lead back to them. The next run by digests keeps to this exactly if they do again. -/
theorem incremental_agrees_with_full (hfirst : first.Regular world vectorOf)
    (hincremental : first.config.finder.enableIncremental) (h : Tracks world first f t) :
    (∀ g, Rebuilt world first t g → f.Agrees g) ∧
      ∀ (call : Call) (t' : Tree) (files : List String) (g : Finder), call.IsIncremental →
        call.Surveys world f t' files → Rebuilt world first t' g →
          ((call.after f).Agrees g ↔ ∀ p ∈ files, f.Changed t' p → f.LeadsBack t' p) := by
  have hsetup := h.setup
  obtain ⟨files₀, hfiles₀, h₀⟩ := h.indexes hfirst hincremental
  refine ⟨fun g hg => ?_, fun call t' files g hcall hsurveys hg => ?_⟩
  · obtain ⟨hg, hindexes⟩ := hg.indexes hfirst hfiles₀
    exact h₀.agrees hindexes (hg.trans hsetup.symm)
  have hconfig : f.config = first.config := congrArg Setup.config hsetup
  have hf := hfirst.of_setup hsetup
  obtain ⟨hg, hindexes⟩ := hg.indexes hfirst (hsurveys.covers_of_setup hsetup)
  have hafter : g.setup = (call.after f).setup :=
    hg.trans (hsetup.symm.trans (Call.setup_after f call).symm)
  constructor
  · intro hagree p hp hchanged
    exact Call.leadsBack_of_indexes hf.rooted (hconfig ▸ hincremental) hcall hf.distinguished
      hsurveys (hindexes.of_agrees hafter hagree) hp hchanged
  · intro hback
    exact (Call.indexes_after_incremental hf (hconfig ▸ hincremental) hcall h₀ hsurveys
      hback).agrees hindexes hafter

/-- A call that indexes the file `a.py` and succeeds surveys the workspace that holds only this
file. -/
theorem surveys_oneFile {call : Call} {text : String} (hsetup : f.setup = unindexed.setup)
    (hviews : call.conditions.views = .still (.oneFile text.toUTF8))
    (hfound : (unindexed.foundAt? (.oneFile text.toUTF8) "/ws/a.py").isSome)
    (hcovers : (discover (.oneFile text.toUTF8) "/ws" "/ws" [] unindexed.filter).toOption =
      some ["/ws/a.py"])
    (hwithin : call.Within world f) (hin : ("a.py", text.toUTF8) ∈ world)
    (hdone : call.failure? f = none) :
    call.Surveys world f (.oneFile text.toUTF8) ["/ws/a.py"] := by
  have hroot : f.root = "/ws" := congrArg Setup.root hsetup
  have hfilter : f.filter = unindexed.filter := congrArg Setup.filter hsetup
  have hpath : relativePath "/ws" "/ws/a.py" = "a.py" := by decide +kernel
  obtain ⟨⟨bytes, symbols⟩, hfound⟩ := Option.isSome_iff_exists.mp hfound
  cases (Tree.read_oneFile _).symm.trans (foundAt?_eq_some_iff.mp hfound).1
  exact
    { toWithin := hwithin
      scan := congrArg Views.scan hviews
      directory := by rw [hroot]; rfl
      covers := by rw [hroot, hfilter]; exact eq_ok_of_toOption hcovers
      readable := fun p hp => by
        cases List.mem_singleton.mp hp
        exact ⟨_, by rw [foundAt?_of_setup hsetup, hfound], by rw [hroot, hpath]; exact hin⟩
      apart := fun p hp q hq _ => (List.mem_singleton.mp hp).trans (List.mem_singleton.mp hq).symm
      done := hdone }

/-- The name of this file is plain. -/
theorem plainNames_oneFile : ∀ name ∈ ["a.py"], PlainName name := by
  intro name hname
  cases List.mem_singleton.mp hname
  exact ⟨by decide +kernel, by decide +kernel, by decide +kernel⟩

/-- The path of this file leads back to it. -/
theorem leadsBack_oneFile (hf : f.Rooted) (hroot : f.root = "/ws") (t : Tree) :
    f.LeadsBack t "/ws/a.py" := by
  have hpath : ["a.py"].foldl FilePath.join f.root = "/ws/a.py" := by
    rw [hroot]
    decide +kernel
  exact hpath ▸ leadsBack_of_plainNames hf t (List.cons_ne_nil _ _) plainNames_oneFile

/-- A full run over this file surveys its workspace. -/
theorem surveys_fullRun (hin : ("a.py", oneLine.toUTF8) ∈ world) :
    (fullRun oneLine).Surveys world unindexed (.oneFile oneLine.toUTF8) ["/ws/a.py"] :=
  surveys_oneFile rfl rfl (by decide +kernel) (by decide +kernel)
    (within_oneFile rfl rfl (by decide +kernel) hin (by decide +kernel)) hin (by decide +kernel)

/-- A run by digests over the file `a.py`. -/
def refresh (text : String) : Call := .changes (oneFileConditions text) {} none

/-- After its only file was changed a run by digests leaves what a full run leaves. -/
theorem agrees_after_refresh :
    ((refresh otherLine).after ((fullRun oneLine).after unindexed)).Agrees
      ((fullRun otherLine).after unindexed) := by
  have hsetup : ((fullRun oneLine).after unindexed).setup = unindexed.setup := Call.setup_after _ _
  have hregular : unindexed.Regular twoVersions (hashedWords 4) :=
    ⟨⟨rfl, rfl⟩, .of_answer fun _ => rfl, distinguished_twoVersions⟩
  have hfull : ∀ text, (fullRun text).IsFull unindexed := fun text => ⟨by decide +kernel, rfl⟩
  have hone : (fullRun oneLine).Surveys twoVersions unindexed _ _ := surveys_fullRun (Or.inl rfl)
  have hother : (fullRun otherLine).Surveys twoVersions unindexed _ _ :=
    surveys_oneFile rfl rfl (by decide +kernel) (by decide +kernel)
      (within_oneFile rfl rfl (by decide +kernel) (Or.inr rfl) (by decide +kernel)) (Or.inr rfl)
      (by decide +kernel)
  have hnext : (refresh otherLine).Surveys twoVersions ((fullRun oneLine).after unindexed) _ _ :=
    surveys_oneFile hsetup rfl (by decide +kernel) (by decide +kernel)
      (within_oneFile (congrArg Setup.root hsetup) rfl (by decide +kernel) (Or.inr rfl)
        (by decide +kernel)) (Or.inr rfl) (by decide +kernel)
  have hback : ∀ p ∈ ["/ws/a.py"],
      ((fullRun oneLine).after unindexed).Changed (.oneFile otherLine.toUTF8) p →
      ((fullRun oneLine).after unindexed).LeadsBack (.oneFile otherLine.toUTF8) p := by
    intro p hp _
    cases List.mem_singleton.mp hp
    exact leadsBack_oneFile (hregular.rooted.of_setup hsetup) (congrArg Setup.root hsetup) _
  have hcall : (refresh otherLine).IsIncremental := trivial
  exact (incremental_agrees_with_full hregular rfl
    (.incremental (.full (hfull oneLine) hone) hcall hnext hback)).1 _
      (.full rfl (hfull otherLine) hother)

end Finder

end CodeClones
