import CodeClones.Proofs.Finder.Incremental

/-!
# Complete indexes

A run by digests passes over every file whose record has the digest of its content, without a look
at the store. The index that it leaves is complete exactly if the files that it passes over were
indexed completely before. Successful runs that read all their recorded targets keep this so for all
recorded files.
-/

namespace CodeClones

namespace Finder

variable {world : Set (String × ByteArray)} {f g : Finder} {symbols : List Symbol}

/-- Under the identifier of a symbol the store has the row of a symbol of its file, with a vector
that the engine makes of it. -/
def Shows (f : Finder) (symbols : List Symbol) (s : Symbol) : Prop :=
  ∃ s' ∈ symbols, s'.id = s.id ∧ ∃ v, f.engine.Gives s'.canonicalText v ∧
    f.row? s.id = some (f.store.backend.rowOf ⟨s.id, v, s'.toMetadata⟩)

/-- All accepted symbols of a file are in the index. -/
def ShowsAll (f : Finder) (symbols : List Symbol) : Prop :=
  ∀ s ∈ symbols, f.filter.accepts s → f.Shows symbols s

/-- All accepted symbols that can be found in some files are in the index. -/
def Complete (f : Finder) (t : Tree) (files : List String) : Prop :=
  ∀ p ∈ files, ∀ found, f.foundAt? t p = some found → f.ShowsAll found.2

/-- The files that a run by digests passes over are indexed completely. -/
def PassesSafely (f : Finder) (t : Tree) (files : List String) : Prop :=
  ∀ p ∈ files, ¬f.Changed t p → ∀ found, f.foundAt? t p = some found → f.ShowsAll found.2

theorem shows_congr (hmodel : g.engine.model = f.engine.model)
    (hnormalize : g.engine.normalize = f.engine.normalize)
    (hrowOf : g.store.backend.rowOf = f.store.backend.rowOf) {s : Symbol}
    (hrow : g.row? s.id = f.row? s.id) : g.Shows symbols s ↔ f.Shows symbols s := by
  rw [Shows, Shows, Engine.gives_congr hmodel hnormalize, hrowOf, hrow]

theorem shows_of_setup (h : g.setup = f.setup) {s : Symbol} (hrow : g.row? s.id = f.row? s.id) :
    g.Shows symbols s ↔ f.Shows symbols s :=
  shows_congr (congrArg Setup.model h) (congrArg Setup.normalize h) (congrArg Setup.rowOf h) hrow

/-- A record is that of a content of its file, in which some symbols are found. -/
def Describes (f : Finder) (world : Set (String × ByteArray)) (path : String) (record : FileRecord)
    (symbols : List Symbol) : Prop :=
  ∃ bytes, (path, bytes) ∈ world ∧ f.extractor.found? path bytes = some symbols ∧
    record = ⟨Digest.Blake3.hexOf bytes, symbols.map (·.id)⟩

theorem Describes.congr {path : String} {record : FileRecord}
    (h : f.Describes world path record symbols)
    (hreaders : g.extractor.toReaders = f.extractor.toReaders) :
    g.Describes world path record symbols := by
  rw [Describes, Extractor.found?_congr hreaders]
  exact h

/-- Every record is that of a content of its file. -/
def Truthful (f : Finder) (world : Set (String × ByteArray)) : Prop :=
  ∀ path record, f.fileState.get? path = some record →
    ∃ symbols, f.Describes world path record symbols

/-- Every record is that of a content of its file which is indexed completely. -/
def Vouched (f : Finder) (world : Set (String × ByteArray)) : Prop :=
  ∀ path record, f.fileState.get? path = some record →
    ∃ symbols, f.Describes world path record symbols ∧ f.ShowsAll symbols

theorem Vouched.truthful (h : f.Vouched world) : f.Truthful world := fun path record hget =>
  let ⟨symbols, hdescribes, _⟩ := h path record hget
  ⟨symbols, hdescribes⟩

theorem vouched_of_empty (h : f.fileState = {}) : f.Vouched world := by
  intro path record hget
  rw [h] at hget
  cases hget

/-- With all records vouched for, the unchanged files are indexed completely. -/
theorem Vouched.passesSafely (hworld : Distinguished f.extractor world) (h : f.Vouched world)
    {t : Tree} {files : List String} (hknown : ∀ p ∈ files, ∀ found, f.foundAt? t p = some found →
      (relativePath f.root p, found.1) ∈ world) : f.PassesSafely t files := by
  intro p hp hsame found hfound
  rw [Changed, not_not, digest?_of_foundAt? hfound, Option.map_eq_some_iff] at hsame
  obtain ⟨record, hget, hdigest⟩ := hsame
  obtain ⟨symbols, ⟨bytes, hin, hthere, rfl⟩, hall⟩ := h _ record hget
  obtain rfl := hworld.contents _ hin _ (hknown p hp found hfound) hdigest
  have hsymbols := (foundAt?_eq_some_iff.mp hfound).2
  rw [hthere] at hsymbols
  cases hsymbols
  exact hall

end Finder

namespace Call

open Finder

variable {world : Set (String × ByteArray)} {f : Finder} {call : Call} {plan : Plan} {t : Tree}
  {files : List String}

/-- A call during which files stay as they are, all of them among the given ones. -/
structure Sees (world : Set (String × ByteArray)) (f : Finder) (call : Call) : Prop where
  still : call.conditions.Still
  inside : ∀ plan, call.plan? f = some plan → ∀ p ∈ plan.targets, ∀ bytes,
    call.conditions.views.scan.read p = .ok bytes → (relativePath f.root p, bytes) ∈ world

theorem Within.sees (h : call.Within world f) : call.Sees world f := ⟨h.still, h.inside⟩

theorem Sees.mem_world (h : call.Sees world f) (hplan : call.plan? f = some plan) {q : String}
    (hq : q ∈ plan.targets) {found : ByteArray × List Symbol}
    (hfound : f.foundAt? call.conditions.views.scan q = some found) :
    (relativePath f.root q, found.1) ∈ world :=
  h.inside plan hplan q hq _ (foundAt?_eq_some_iff.mp hfound).1

/-- After a call every record was there before or is one of those that the call writes. -/
theorem record_after_cases {path : String} {record : FileRecord}
    (hget : (call.after f).fileState.get? path = some record) :
    f.fileState.get? path = some record ∨ ∃ plan, call.plan? f = some plan ∧
      (path, record) ∈ f.recordsIn call.conditions plan.targets := by
  cases call.ends f with
  | stopped e hfailure hsetup hstate => exact Or.inl (hstate ▸ hget)
  | emptied hanew hsetup hstate =>
    rw [hstate] at hget
    cases hget
  | stored plan r hplan hfailure h =>
    obtain ⟨vectors, n, hr⟩ := h.reindexed
    rcases hr.record_cases hget with he | hold
    · exact Or.inr ⟨plan, hplan, he⟩
    · exact Or.inl (of_get?_statesUnder hold).2

/-- The records that a call writes are those of contents of its targets. -/
theorem Sees.describes (hf : f.Rooted) (h : call.Sees world f) (hplan : call.plan? f = some plan)
    {path : String} {record : FileRecord}
    (he : (path, record) ∈ f.recordsIn call.conditions plan.targets) :
    ∃ q ∈ plan.targets, ∃ found, f.foundAt? call.conditions.views.scan q = some found ∧
      relativePath f.root q = path ∧ f.Describes world path record found.2 := by
  obtain ⟨q, hq, found, hfound, hrecord⟩ := (mem_recordsIn_iff hf h.still hplan).mp he
  cases hrecord
  exact ⟨q, hq, found, hfound, rfl, found.1, h.mem_world hplan hq hfound,
    (foundAt?_eq_some_iff.mp hfound).2, rfl⟩

/-- However a call ends, all records stay true. -/
theorem Sees.truthful_after (hf : f.Rooted) (h : call.Sees world f) (htrue : f.Truthful world) :
    (call.after f).Truthful world := by
  have hreaders : (call.after f).extractor.toReaders = f.extractor.toReaders :=
    congrArg Setup.readers (setup_after f call)
  intro path record hget
  rcases record_after_cases hget with hold | ⟨plan, hplan, he⟩
  · obtain ⟨symbols, hdescribes⟩ := htrue path record hold
    exact ⟨symbols, hdescribes.congr hreaders⟩
  · obtain ⟨_, _, found, _, _, hdescribes⟩ := h.describes hf hplan he
    exact ⟨found.2, hdescribes.congr hreaders⟩

/-- A successful call leaves the rows of symbols in files outside of its plan as they are. -/
theorem row?_after_of_not_mem_paths (hf : f.Rooted) (hworld : Distinguished f.extractor world)
    (h : call.Sees world f) (htrue : f.Truthful world) (hplan : call.plan? f = some plan)
    (hdone : call.failure? f = none) (hanew : ¬call.startsAnew f) {path : String}
    {bytes : ByteArray} {symbols : List Symbol} (hin : (path, bytes) ∈ world)
    (hfound : f.extractor.found? path bytes = some symbols) {s : Symbol} (hs : s ∈ symbols)
    (hout : path ∉ plan.paths f.root) : (call.after f).row? s.id = f.row? s.id := by
  obtain ⟨vectors, hr⟩ := reindexed_of_done hplan hdone
  have hnew : Backend.lastWith (symbolRecords
      (f.selected (f.symbolsIn call.conditions plan.targets)) vectors) s.id = none := by
    refine Option.eq_none_iff_forall_ne_some.mpr fun r hlast => hout ?_
    obtain ⟨s', hs', hid⟩ := mem_of_lastWith_symbolRecords hlast
    have hextracted := List.mem_of_mem_filter (List.mem_of_mem_take hs')
    obtain ⟨q, hq, found, hthere, hs'⟩ := (mem_symbolsIn_iff hf h.still hplan).mp hextracted
    obtain rfl := hworld.path_eq hin (h.mem_world hplan hq hthere) hfound
      (foundAt?_eq_some_iff.mp hthere).2 hs hs' hid.symm
    exact List.mem_append_left _ (List.mem_map_of_mem hq)
  have hkept : s.id ∉ recordedIds f.fileState (plan.paths f.root) := by
    intro hmem
    obtain ⟨path', hpath', record, hget, hid⟩ := mem_recordedIds.mp hmem
    obtain ⟨symbols', bytes', hin', hfound', rfl⟩ := htrue path' record hget
    obtain ⟨s', hs', hsame⟩ := List.mem_map.mp hid
    obtain rfl := hworld.path_eq hin hin' hfound hfound' hs hs' hsame.symm
    exact hout hpath'
  rw [hr.rows, hnew, rowsUnder, if_neg (not_or.mpr ⟨hanew, hkept⟩)]
  rfl

/-- A successful call indexes its targets completely, where the same is found under equal paths. -/
theorem Within.showsAll_target (hf : f.Rooted) (hworld : Distinguished f.extractor world)
    (h : call.Within world f) (hplan : call.plan? f = some plan) (hdone : call.failure? f = none)
    {q : String} (hq : q ∈ plan.targets) {found : ByteArray × List Symbol}
    (hfound : f.foundAt? call.conditions.views.scan q = some found)
    (halike : ∀ q' ∈ plan.targets, relativePath f.root q' = relativePath f.root q →
      f.foundAt? call.conditions.views.scan q' = f.foundAt? call.conditions.views.scan q) :
    (call.after f).ShowsAll found.2 := by
  obtain ⟨vectors, hr⟩ := reindexed_of_done hplan hdone
  intro s hs haccept
  rw [show (call.after f).filter = f.filter from congrArg Setup.filter hr.setup] at haccept
  have hselected := h.mem_selected hf hplan hq hfound hs haccept
  have hlength := (Engine.length_embed hr.embed).trans (List.length_map _)
  obtain ⟨r, hlast⟩ :=
    Option.isSome_iff_exists.mp (lastWith_symbolRecords_isSome hlength hselected)
  -- the row is that of the last symbol with this identifier, which lies in the same file
  obtain ⟨hr', hid⟩ := Backend.lastWith_some hlast
  obtain ⟨i, s', v, hs', hv, rfl⟩ := mem_symbolRecords hr'
  have hextracted := List.mem_of_mem_filter (List.mem_of_mem_take (List.mem_of_getElem? hs'))
  obtain ⟨q', hq', found', hfound', hthere⟩ := (mem_symbolsIn_iff hf h.still hplan).mp hextracted
  have hpath := hworld.path_eq (h.sees.mem_world hplan hq' hfound')
    (h.sees.mem_world hplan hq hfound) (foundAt?_eq_some_iff.mp hfound').2
    (foundAt?_eq_some_iff.mp hfound).2 hthere hs hid
  rw [halike q' hq' hpath, hfound] at hfound'
  cases hfound'
  have hgives : f.engine.Gives s'.canonicalText v :=
    Engine.gives_of_embed hr.embed (by rw [List.getElem?_map, hs']; rfl) hv
  have hmodel : (call.after f).engine.model = f.engine.model := congrArg Setup.model hr.setup
  have hnormalize : (call.after f).engine.normalize = f.engine.normalize :=
    congrArg Setup.normalize hr.setup
  have hrowOf : (call.after f).store.backend.rowOf = f.store.backend.rowOf :=
    congrArg Setup.rowOf hr.setup
  refine ⟨s', hthere, hid, v, by rw [Engine.gives_congr hmodel hnormalize]; exact hgives, ?_⟩
  rw [hr.rows, hlast, hrowOf, ← hid]
  rfl

/-- A successful call that finds the same under equal paths, and something in every recorded target
unless it starts anew. -/
structure Thorough (world : Set (String × ByteArray)) (f : Finder) (call : Call) : Prop
    extends call.Within world f where
  done : call.failure? f = none
  alike : ∀ plan, call.plan? f = some plan → ∀ q ∈ plan.targets, ∀ q' ∈ plan.targets,
    relativePath f.root q' = relativePath f.root q →
      f.foundAt? call.conditions.views.scan q' = f.foundAt? call.conditions.views.scan q
  reads : ¬call.startsAnew f → ∀ plan, call.plan? f = some plan → ∀ q ∈ plan.targets,
    (f.fileState.get? (relativePath f.root q)).isSome →
      (f.foundAt? call.conditions.views.scan q).isSome

/-- A thorough call leaves every recorded file indexed completely. -/
theorem Thorough.vouched_after (hf : f.Rooted) (hworld : Distinguished f.extractor world)
    (h : call.Thorough world f) (hvouched : f.Vouched world) : (call.after f).Vouched world := by
  have hsetup := setup_after f call
  have hreaders : (call.after f).extractor.toReaders = f.extractor.toReaders :=
    congrArg Setup.readers hsetup
  intro path record hget
  cases call.ends f with
  | stopped e hfailure => cases h.done.symm.trans hfailure
  | emptied _ _ hstate =>
    rw [hstate] at hget
    cases hget
  | stored plan _ hplan =>
    obtain ⟨vectors, hr⟩ := reindexed_of_done hplan h.done
    rw [hr.fileState_all] at hget
    rcases committed_cases hget with he | ⟨hdeleted, hnone, hold⟩
    · obtain ⟨q, hq, found, hfound, _, hdescribes⟩ := h.sees.describes hf hplan he
      exact ⟨found.2, hdescribes.congr hreaders, h.showsAll_target hf hworld hplan h.done hq hfound
        fun q' hq' => h.alike plan hplan q hq q' hq'⟩
    obtain ⟨hanew, hold⟩ := of_get?_statesUnder hold
    obtain ⟨symbols, hdescribes, hall⟩ := hvouched path record hold
    refine ⟨symbols, hdescribes.congr hreaders, fun s hs haccept => ?_⟩
    have hout := not_mem_paths_of_kept hf h.still hplan (h.reads hanew plan hplan) hold hdeleted
      hnone
    rw [show (call.after f).filter = f.filter from congrArg Setup.filter hsetup] at haccept
    obtain ⟨bytes, hin, hfound, _⟩ := hdescribes
    exact (shows_of_setup hsetup (row?_after_of_not_mem_paths hf hworld h.sees hvouched.truthful
      hplan h.done hanew hin hfound hs hout)).mpr (hall s hs haccept)

/-- A run over a workspace without a list of files that succeeds: its files are known, have paths of
their own in the workspace, and those that changed are led back to. -/
structure Updates (world : Set (String × ByteArray)) (f : Finder) (call : Call) (t : Tree)
    (files : List String) : Prop extends call.Within world f where
  incremental : call.IsIncremental
  scan : call.conditions.views.scan = t
  covers : discover t f.root ((call.top? f).getD f.root) [] f.filter = .ok files
  known : ∀ p ∈ files, ∀ found, f.foundAt? t p = some found →
    (relativePath f.root p, found.1) ∈ world
  apart : ∀ p ∈ files, ∀ q ∈ files, relativePath f.root p = relativePath f.root q → p = q
  back : ¬call.startsAnew f → ∀ p ∈ files, f.Changed t p → f.LeadsBack t p
  done : call.failure? f = none

theorem Updates.views (h : call.Updates world f t files) : call.conditions.views = .still t := by
  rw [← h.scan]
  exact h.still

/-- The run indexes all files anew, or those that changed. -/
theorem Updates.plan?_eq (h : call.Updates world f t files) : call.plan? f = some
    (if call.startsAnew f then ⟨files, []⟩ else changedPlan f call.conditions files) := by
  have hcall := h.incremental
  cases call with
  | full => cases hcall
  | clear => cases hcall
  | changes c o listed =>
    cases listed with
    | some => cases hcall
    | none =>
      have hscan : c.views.scan = t := h.scan
      have hcovers := h.covers
      cases hon : f.config.finder.enableIncremental with
      | true =>
        simp only [top?, hon, if_true, Option.getD_none] at hcovers
        simp only [plan?, hon, if_true, startsAnew, hscan, hcovers]
        rfl
      | false =>
        simp only [top?, hon, Bool.false_eq_true, if_false, Option.getD_some] at hcovers
        simp only [plan?, fullPlan?, hon, Bool.false_eq_true, if_false, startsAnew, hscan, hcovers]
        rfl

/-- The path of an unchanged file is none of those of the plan. -/
theorem Updates.not_mem_paths (h : call.Updates world f t files) (hanew : ¬call.startsAnew f)
    {p : String} (hp : p ∈ files) (hsame : ¬f.Changed t p) {found : ByteArray × List Symbol}
    (hfound : f.foundAt? t p = some found) :
    relativePath f.root p ∉ (changedPlan f call.conditions files).paths f.root := by
  rw [Plan.paths, List.mem_append, not_or]
  refine ⟨fun hmem => ?_, fun hdeleted => ?_⟩
  · obtain ⟨q, hq, hpath⟩ := List.mem_map.mp hmem
    obtain ⟨p', hp', _, hchanged, rfl⟩ := (mem_targets_changedPlan h.views h.apart).mp hq
    rw [(h.back hanew p' hp' hchanged).seen] at hpath
    exact hsame (h.apart p' hp' p hp hpath ▸ hchanged)
  · have hgone := ((mem_deleted_changedPlan h.views h.apart).mp hdeleted).2 p hp rfl
    rw [digest?_of_foundAt? hfound] at hgone
    cases hgone

/-- A changed file is indexed completely. -/
theorem Updates.showsAll_changed (hf : f.Rooted) (hworld : Distinguished f.extractor world)
    (h : call.Updates world f t files) (hanew : ¬call.startsAnew f) {p : String} (hp : p ∈ files)
    (hchanged : f.Changed t p) {found : ByteArray × List Symbol}
    (hfound : f.foundAt? t p = some found) : (call.after f).ShowsAll found.2 := by
  have hplan := h.plan?_eq
  rw [if_neg hanew] at hplan
  have halike := (h.back hanew p hp hchanged).alike
  have hq := (mem_targets_changedPlan h.views h.apart).mpr
    ⟨p, hp, by rw [digest?_of_foundAt? hfound]; rfl, hchanged, rfl⟩
  refine h.showsAll_target hf hworld hplan h.done hq (by rw [h.scan, halike.found, hfound]) ?_
  intro q' hq' hpath
  obtain ⟨p', hp', _, hchanged', rfl⟩ := (mem_targets_changedPlan h.views h.apart).mp hq'
  rw [(h.back hanew p' hp' hchanged').seen, halike.path] at hpath
  rw [hpath]

/-- A successful run leaves a complete index exactly if it starts anew or the files that it passes
over were indexed completely. -/
theorem Updates.complete_after_iff (hf : f.Rooted) (hworld : Distinguished f.extractor world)
    (htrue : f.Truthful world) (h : call.Updates world f t files) :
    (call.after f).Complete t files ↔ call.startsAnew f ∨ f.PassesSafely t files := by
  have hsetup := setup_after f call
  have hfound? : (call.after f).foundAt? = f.foundAt? := foundAt?_of_setup hsetup
  have hfilter : (call.after f).filter = f.filter := congrArg Setup.filter hsetup
  have hplan := h.plan?_eq
  rw [Complete, hfound?]
  by_cases hanew : call.startsAnew f
  · rw [if_pos hanew] at hplan
    refine iff_of_true (fun p hp found hfound => ?_) (Or.inl hanew)
    refine h.showsAll_target hf hworld hplan h.done hp (h.scan ▸ hfound) fun q hq hpath => ?_
    rw [h.apart q hq p hp hpath]
  · rw [if_neg hanew] at hplan
    rw [or_iff_right hanew]
    -- a run keeps the rows of the files that it passes over
    have hkept : ∀ p ∈ files, ¬f.Changed t p → ∀ found, f.foundAt? t p = some found →
        ((call.after f).ShowsAll found.2 ↔ f.ShowsAll found.2) := by
      intro p hp hsame found hfound
      rw [ShowsAll, ShowsAll, hfilter]
      refine forall₂_congr fun s hs => imp_congr_right fun _ => shows_of_setup hsetup ?_
      exact row?_after_of_not_mem_paths hf hworld h.sees htrue hplan h.done hanew
        (h.known p hp found hfound) (foundAt?_eq_some_iff.mp hfound).2 hs
        (h.not_mem_paths hanew hp hsame hfound)
    constructor
    · intro hcomplete p hp hsame found hfound
      exact (hkept p hp hsame found hfound).mp (hcomplete p hp found hfound)
    · intro hpasses p hp found hfound
      by_cases hchanged : f.Changed t p
      · exact h.showsAll_changed hf hworld hanew hp hchanged hfound
      · exact (hkept p hp hchanged found hfound).mpr (hpasses p hp hchanged found hfound)

end Call

end CodeClones
