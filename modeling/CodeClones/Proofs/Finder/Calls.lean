import CodeClones.Proofs.Finder.Indexing

/-!
# Calls on a finder

What a whole call does to the index, whatever way it ends. A full run starts from an empty index; an
incremental run first removes the rows that are recorded for the paths of its plan. The file states
are changed at the end of a run only, one after the other.
-/

namespace CodeClones

namespace Finder

/-- The identifiers that are recorded for some paths. -/
def recordedIds (s : FileState) (paths : List String) : List String :=
  paths.flatMap fun path => ((s.get? path).map (·.symbolIds)).getD []

theorem mem_recordedIds {s : FileState} {paths : List String} {id : String} :
    id ∈ recordedIds s paths ↔
      ∃ path ∈ paths, ∃ record, s.get? path = some record ∧ id ∈ record.symbolIds := by
  rw [recordedIds, List.mem_flatMap]
  refine exists_congr fun path => and_congr_right fun _ => ?_
  cases s.get? path <;> simp

theorem recordedIds_cons (s : FileState) (path : String) (paths : List String) :
    recordedIds s (path :: paths) =
      ((s.get? path).map (·.symbolIds)).getD [] ++ recordedIds s paths :=
  List.flatMap_cons

/-- The normalized paths that a plan is about. -/
def Plan.paths (root : String) (plan : Plan) : List String :=
  plan.targets.map (relativePath root) ++ plan.deleted

/-- The plan for the discovered files whose digests differ from the recorded ones. -/
def changedPlan (f : Finder) (c : RunConditions) (files : List String) : Plan where
  targets := (FileState.detect f.fileState (digests c.views.digests f.root files)).changed.map
    (FilePath.join f.root)
  deleted := (FileState.detect f.fileState (digests c.views.digests f.root files)).deleted

/-- Two finders that find and embed the same symbols. -/
structure SameSources (f g : Finder) : Prop where
  setup : g.setup = f.setup
  extractor : g.extractor = f.extractor
  engine : g.engine = f.engine

/-- Indexing may as well be told from a finder with the same sources. -/
theorem Reindexed.of_sameSources {c : RunConditions} {files deleted : List String}
    {rows : String → Option Row} {states : FileState} {f f₁ g : Finder}
    {vectors : List Embedding} {n : Nat}
    (h : Reindexed c files deleted rows states f₁ vectors n g) (hs : SameSources f f₁) :
    Reindexed c files deleted rows states f vectors n g := by
  have hroot : f₁.root = f.root := congrArg Setup.root hs.setup
  have hrow : f₁.store.backend.rowOf = f.store.backend.rowOf := congrArg Setup.rowOf hs.setup
  have hselected : f₁.selected = f.selected := selected_of_setup hs.setup
  have hsymbols : f₁.symbolsIn c files = f.symbolsIn c files := by
    rw [symbolsIn, symbolsIn, hs.extractor]
  have hrecords : f₁.recordsIn c files = f.recordsIn c files := by
    rw [recordsIn, recordsIn, hs.extractor, hroot]
  obtain ⟨hsetup, hembed, hrows, hstate⟩ := h
  rw [hsymbols, hselected, hs.engine] at hembed
  refine ⟨hsetup.trans hs.setup, hembed, fun id => ?_, ?_⟩
  · rw [hrows id, hsymbols, hselected, hrow]
  · rw [hstate, hrecords]

/-- Stored vectors may as well be told from a finder with the same sources. -/
theorem Stores.of_sameSources {c : RunConditions} {files deleted : List String}
    {rows : String → Option Row} {states : FileState} {f f₁ g : Finder}
    {r : Except FinderError Report} (h : Stores c files deleted rows states f₁ r g)
    (hs : SameSources f f₁) : Stores c files deleted rows states f r g := by
  have hroot : f₁.root = f.root := congrArg Setup.root hs.setup
  have hrecords : f₁.recordsIn c files = f.recordsIn c files := by
    rw [recordsIn, recordsIn, hs.extractor, hroot]
  cases h with
  | cutOff vectors n e hr he h => exact .cutOff vectors n e hr he (h.of_sameSources hs)
  | complete vectors hr h =>
    rw [hrecords] at h
    exact .complete vectors hr (h.of_sameSources hs)

/-- The end of a run that fails changes at most its progress. -/
theorem fail_eq (f : Finder) (e : FinderError) : ∃ progress, f.fail e = { f with progress } := by
  rw [fail]
  split <;> exact ⟨_, rfl⟩

/-- A run starts with a new progress and ends like its work. -/
theorem running_cases {α : Type} {work : RunStep α} {f g : Finder} {r : Except FinderError α}
    (h : running work f = (r, g)) :
    ∃ g₁, work { f with progress := Progress.advance {} .extractingSymbols } = (r, g₁) ∧
      SameIndex g₁ g := by
  rw [running] at h
  rcases hw : work { f with progress := Progress.advance {} .extractingSymbols } with ⟨_ | _, g₁⟩
  · rw [hw] at h
    cases h
    obtain ⟨progress, hfail⟩ := g₁.fail_eq ‹_›
    rw [hfail]
    exact ⟨_, rfl, rfl, rfl, rfl⟩
  · rw [hw] at h
    cases h
    exact ⟨_, rfl, rfl, rfl, rfl⟩

theorem running_ok {α : Type} {work : RunStep α} {a : α} {f g : Finder}
    (h : running work f = (.ok a, g)) :
    work { f with progress := Progress.advance {} .extractingSymbols } = (.ok a, g) := by
  rw [running] at h
  rcases hw : work { f with progress := Progress.advance {} .extractingSymbols } with ⟨_ | b, g₁⟩
  · rw [hw] at h
    cases h
  · rw [hw] at h
    exact h

/-- Clearing fails with the index as it was, or removes all rows; then the file states are cleared
too, unless that is refused. -/
theorem clearAll_cases {c : RunConditions} {f g : Finder} {r : Except FinderError Unit}
    (h : clearAll c f = (r, g)) :
    SameSources f g ∧ g.progress = f.progress ∧
      ((∃ e, r = .error e ∧ e.stage = f.progress.current ∧ SameIndex f g) ∨
        (∀ id, g.row? id = none) ∧
          ((∃ e, r = .error e ∧ e.stage = f.progress.current ∧
              (c.stateRefusal .clear).isSome ∧ g.fileState = f.fileState) ∨
            r = .ok () ∧ g.fileState = {})) := by
  rw [clearAll, get_bind] at h
  obtain ⟨s, _, hs, ⟨cause, rfl, rfl, rfl⟩ | ⟨_, rfl, hk⟩⟩ := callStore_bind_cases h
  · obtain ⟨_, _, hb⟩ | ⟨hr, _⟩ := VectorStore.clear_cases hs
    · have hsetup : ({ f with store := s } : Finder).setup = f.setup := by
        simp only [setup, hb]
      exact ⟨⟨hsetup, rfl, rfl⟩, rfl, Or.inl ⟨_, rfl, rfl, hsetup, hb, rfl⟩⟩
    · cases hr
  obtain ⟨_, hr, _⟩ | ⟨_, hb⟩ := VectorStore.clear_cases hs
  · cases hr
  have hsetup : ({ f with store := s } : Finder).setup = f.setup := by
    simp only [setup, hb, Backend.rowOf_clear]
  have hrows : ∀ id, ({ f with store := s } : Finder).row? id = none := by
    intro id
    rw [row?, hb, Backend.row?_clear]
  rcases accessState_bind_cases hk with ⟨reason, hrefused, rfl, rfl⟩ | ⟨_, hk⟩
  · exact ⟨⟨hsetup, rfl, rfl⟩, rfl,
      Or.inr ⟨hrows, Or.inl ⟨_, rfl, rfl, by rw [hrefused]; rfl, rfl⟩⟩⟩
  · cases hk
    exact ⟨⟨hsetup, rfl, rfl⟩, rfl, Or.inr ⟨hrows, Or.inr ⟨rfl, rfl⟩⟩⟩

/-- Rows are removed from the index as a whole or not at all. -/
theorem delete_cases {stage : Stage} {c : Conditions} {ids : List String} {f g : Finder}
    {r : Except FinderError Nat} (h : callStore stage (·.delete c ids) f = (r, g)) :
    g = { f with store := g.store } ∧ g.setup = f.setup ∧
      ((∃ e, r = .error e ∧ e.stage = stage ∧ ∀ id, g.row? id = f.row? id) ∨
        (∃ n, r = .ok n) ∧ ∀ id, g.row? id = if id ∈ ids then none else f.row? id) := by
  obtain ⟨s, answer, hs, rfl, hr⟩ := callStore_cases h
  obtain ⟨hrowOf, hrows⟩ := VectorStore.delete_cases hs
  refine ⟨rfl, by simp only [setup, hrowOf], ?_⟩
  rcases hr with ⟨n, rfl, rfl⟩ | ⟨cause, rfl, rfl⟩
  · obtain ⟨_, he, _⟩ | ⟨_, hrows⟩ := hrows
    · cases he
    · exact Or.inr ⟨⟨n, rfl⟩, hrows⟩
  · obtain ⟨_, _, hbackend⟩ | ⟨hok, _⟩ := hrows
    · exact Or.inl ⟨_, rfl, rfl, fun id => by rw [row?, hbackend]; rfl⟩
    · cases hok

/-- A purge fails at its first path, or goes on without the rows that are recorded for it. -/
theorem purgeFrom_cons_cases {c : RunConditions} {position : Nat} {path : String}
    {rest : List String} {f g : Finder} {r : Except FinderError Unit}
    (h : purgeFrom c position (path :: rest) f = (r, g)) :
    (g = { f with store := g.store } ∧ g.setup = f.setup ∧
        (∃ e, r = .error e ∧ e.stage = .extractingSymbols) ∧ ∀ id, g.row? id = f.row? id) ∨
      ∃ f₁ : Finder, f₁ = { f with store := f₁.store } ∧ f₁.setup = f.setup ∧
        (∀ id, f₁.row? id = if id ∈ ((f.fileState.get? path).map (·.symbolIds)).getD [] then none
          else f.row? id) ∧ purgeFrom c (position + 1) rest f₁ = (r, g) := by
  rw [purgeFrom] at h
  rcases accessState_bind_cases h with ⟨_, _, rfl, rfl⟩ | ⟨_, hk⟩
  · exact Or.inl ⟨rfl, rfl, ⟨_, rfl, rfl⟩, fun _ => rfl⟩
  rw [get_bind] at hk
  cases hget : f.fileState.get? path with
  | none =>
    rw [hget] at hk
    exact Or.inr ⟨f, rfl, rfl, fun id => by simp, hk⟩
  | some record =>
    rw [hget] at hk
    rcases RunStep.bind_cases hk with ⟨e, he, rfl⟩ | ⟨_, f₁, hd, hk'⟩
    · obtain ⟨hg, hsetup, ⟨_, hr, hstage, hrows⟩ | ⟨⟨_, hr⟩, _⟩⟩ := delete_cases he
      · cases hr
        exact Or.inl ⟨hg, hsetup, ⟨e, rfl, hstage⟩, hrows⟩
      · cases hr
    · obtain ⟨hf₁, hsetup, ⟨_, hr, _⟩ | ⟨_, hrows⟩⟩ := delete_cases hd
      · cases hr
      · exact Or.inr ⟨f₁, hf₁, hsetup, hrows, hk'⟩

/-- A purge removes exactly the rows that are recorded for its paths, or fails after some of them.
-/
theorem purgeFrom_cases {c : RunConditions} {position : Nat} {paths : List String} {f g : Finder}
    {r : Except FinderError Unit} (h : purgeFrom c position paths f = (r, g)) :
    g = { f with store := g.store } ∧ g.setup = f.setup ∧
      ((r = .ok () ∧ ∀ id, g.row? id =
          if id ∈ recordedIds f.fileState paths then none else f.row? id) ∨
        (∃ e, r = .error e ∧ e.stage = .extractingSymbols) ∧
          ∀ id, g.row? id = f.row? id ∨
            id ∈ recordedIds f.fileState paths ∧ g.row? id = none) := by
  induction paths generalizing position f with
  | nil =>
    cases h
    exact ⟨rfl, rfl, Or.inl ⟨rfl, fun id => by simp [recordedIds]⟩⟩
  | cons path rest ih =>
    rw [recordedIds_cons]
    rcases purgeFrom_cons_cases h with ⟨hg, hsetup, hr, hrows⟩ | ⟨f₁, hf₁, hsetup₁, hrows₁, hrest⟩
    · exact ⟨hg, hsetup, Or.inr ⟨hr, fun id => Or.inl (hrows id)⟩⟩
    obtain ⟨hg, hsetup, hend⟩ := ih hrest
    have hstate : f₁.fileState = f.fileState := by rw [hf₁]
    rw [hstate] at hend
    refine ⟨hg.trans (by rw [hf₁]), hsetup.trans hsetup₁, ?_⟩
    simp only [List.mem_append]
    rcases hend with ⟨hr, hrows⟩ | ⟨hr, hrows⟩
    · refine Or.inl ⟨hr, fun id => ?_⟩
      rw [hrows id, hrows₁ id, ← ite_or]
      exact if_congr or_comm rfl rfl
    · refine Or.inr ⟨hr, fun id => ?_⟩
      rcases hrows id with hid | ⟨hmem, hid⟩
      · rw [hrows₁ id] at hid
        split at hid
        · rename_i hmem
          exact Or.inr ⟨Or.inl hmem, hid⟩
        · exact Or.inl hid
      · exact Or.inr ⟨Or.inr hmem, hid⟩

/-- An incremental run stops with some of the rows of its plan removed, or stores the vectors of the
targets over the rows that are not recorded for its plan. -/
theorem runPlan_cases {c : RunConditions} {o : RunOptions} {plan : Plan} {f g : Finder}
    {r : Except FinderError Report} (hp : f.progress.current = .extractingSymbols)
    (h : runPlan c o plan f = (r, g)) :
    (∃ e, r = .error e ∧ e.Early ∧ g.setup = f.setup ∧ g.fileState = f.fileState ∧
        ∀ id, g.row? id = f.row? id ∨ g.row? id = none) ∨
      Stores c plan.targets plan.deleted
        (fun id => if id ∈ recordedIds f.fileState (plan.paths f.root) then none else f.row? id)
        f.fileState f r g := by
  rw [runPlan, get_bind] at h
  rcases RunStep.bind_cases h with ⟨e, he, rfl⟩ | ⟨_, f₁, hpurge, hk⟩
  · obtain ⟨hg, hsetup, ⟨hr, _⟩ | ⟨⟨_, hr, hstage⟩, hrows⟩⟩ := purgeFrom_cases he
    · cases hr
    · cases hr
      exact Or.inl ⟨e, rfl, Or.inl hstage, hsetup, by rw [hg],
        fun id => (hrows id).imp_right And.right⟩
  obtain ⟨hf₁, hsetup, ⟨_, hrows⟩ | ⟨⟨_, hr, _⟩, _⟩⟩ := purgeFrom_cases hpurge
  · have hp₁ : f₁.progress.current = .extractingSymbols := by rw [hf₁, hp]
    have hstate : f₁.fileState = f.fileState := by rw [hf₁]
    have hsources : SameSources f f₁ := ⟨hsetup, by rw [hf₁], by rw [hf₁]⟩
    have hpurged : f₁.row? = fun id =>
        if id ∈ recordedIds f.fileState (plan.paths f.root) then none else f.row? id :=
      funext hrows
    rcases indexFiles_cases hp₁ hk with ⟨e, rfl, hearly, hsame⟩ | hstores
    · refine Or.inl ⟨e, rfl, hearly, hsame.setup.trans hsetup, hsame.fileState.trans hstate,
        fun id => ?_⟩
      rw [hsame.row? id, hpurged]
      dsimp only
      split
      · exact Or.inr rfl
      · exact Or.inl rfl
    · rw [hpurged, hstate] at hstores
      exact Or.inr (hstores.of_sameSources hsources)
  · cases hr

/-- The plan of a run by digests is that of the discovered files. -/
theorem planChanged_cases {c : RunConditions} {f g : Finder} {r : Except FinderError Plan}
    (h : planChanged c f = (r, g)) :
    g = f ∧ ((∃ e, r = .error e ∧ e.stage = .extractingSymbols) ∨
      ∃ files, discover c.views.scan f.root f.root [] f.filter = .ok files ∧
        r = .ok (changedPlan f c files)) := by
  rw [planChanged, get_bind] at h
  cases hd : discover c.views.scan f.root f.root [] f.filter with
  | error refused =>
    rw [hd] at h
    cases h
    exact ⟨rfl, Or.inl ⟨_, rfl, rfl⟩⟩
  | ok files =>
    rw [hd] at h
    rcases accessState_bind_cases h with ⟨_, _, rfl, rfl⟩ | ⟨_, hk⟩
    · exact ⟨rfl, Or.inl ⟨_, rfl, rfl⟩⟩
    · cases hk
      exact ⟨rfl, Or.inr ⟨files, rfl, rfl⟩⟩

/-- Stored vectors stay when only the progress is changed. -/
theorem Stores.sameIndex {c : RunConditions} {files deleted : List String}
    {rows : String → Option Row} {states : FileState} {f g g' : Finder}
    {r : Except FinderError Report} (h : Stores c files deleted rows states f r g)
    (hs : SameIndex g g') : Stores c files deleted rows states f r g' := by
  have hstep : ∀ {vectors n}, Reindexed c files deleted rows states f vectors n g →
      Reindexed c files deleted rows states f vectors n g' := by
    intro vectors n h
    exact ⟨hs.setup.trans h.setup, h.embed, fun id => (hs.row? id).trans (h.rows id),
      hs.fileState.trans h.fileState⟩
  cases h with
  | cutOff vectors n e hr he h => exact .cutOff vectors n e hr he (hstep h)
  | complete vectors hr h => exact .complete vectors hr (hstep h)

/-- A full run that succeeds clears the index and then indexes the files that it discovers. -/
theorem steps_of_analyze {c : RunConditions} {o : RunOptions} {top : String}
    {patterns : List String} {f g : Finder} {report : Report}
    (h : analyze c o top patterns f = (.ok report, g)) :
    ∃ files f₁ g₁,
      discover c.views.scan f.root (FilePath.tidy (FilePath.join f.root top)) patterns f.filter =
        .ok files ∧
      clearAll c { f with progress := Progress.advance {} .extractingSymbols } = (.ok (), f₁) ∧
      indexFiles c o files [] .full none f₁ = (.ok report, g₁) ∧ SameIndex g₁ g := by
  obtain ⟨g₁, hwork, hend⟩ := running_cases h
  rw [get_bind] at hwork
  dsimp only at hwork
  split at hwork
  · rw [RunStep.bind_of_error (failAt_apply ..)] at hwork
    cases hwork
  obtain ⟨_, f₁, hclear, hk⟩ := RunStep.bind_ok hwork
  cases hfiles : discover c.views.scan f.root (FilePath.tidy (FilePath.join f.root top)) patterns
      f.filter with
  | error refused =>
    rw [hfiles] at hk
    cases hk
  | ok files =>
    rw [hfiles] at hk
    exact ⟨files, f₁, g₁, rfl, hclear, hk, hend⟩

/-- A full run stops with the index as it was, loses the rows where the file states cannot be
cleared, stops with an empty index, or stores the vectors of the discovered files in an empty
index. -/
theorem analyze_cases {c : RunConditions} {o : RunOptions} {top : String} {patterns : List String}
    {f g : Finder} {r : Except FinderError Report} (h : analyze c o top patterns f = (r, g)) :
    (∃ e, r = .error e ∧ e.Early ∧ g.setup = f.setup ∧
        (g.fileState = f.fileState ∧ (∀ id, g.row? id = f.row? id) ∨
          (c.stateRefusal .clear).isSome ∧ g.fileState = f.fileState ∧ (∀ id, g.row? id = none) ∨
          g.fileState = {} ∧ ∀ id, g.row? id = none)) ∨
      ∃ files, discover c.views.scan f.root (FilePath.tidy (FilePath.join f.root top)) patterns
          f.filter = .ok files ∧
        Stores c files [] (fun _ => none) {} f r g := by
  obtain ⟨g₁, hwork, hend⟩ := running_cases h
  rw [get_bind] at hwork
  dsimp only at hwork
  split at hwork
  · rw [RunStep.bind_of_error (failAt_apply ..)] at hwork
    cases hwork
    exact Or.inl ⟨_, rfl, Or.inl rfl, hend.setup, Or.inl ⟨hend.fileState, hend.row?⟩⟩
  rcases RunStep.bind_cases hwork with ⟨e, he, rfl⟩ | ⟨_, f₁, hclear, hk⟩
  · obtain ⟨hsources, _, ⟨_, hr, hstage, hsame⟩ | ⟨hrows, ⟨_, hr, hstage, hrefused, hstate⟩ |
      ⟨hr, _⟩⟩⟩ := clearAll_cases he
    · cases hr
      exact Or.inl ⟨e, rfl, Or.inl hstage, hend.setup.trans hsources.setup,
        Or.inl ⟨hend.fileState.trans hsame.fileState,
          fun id => (hend.row? id).trans (hsame.row? id)⟩⟩
    · cases hr
      exact Or.inl ⟨e, rfl, Or.inl hstage, hend.setup.trans hsources.setup,
        Or.inr (Or.inl ⟨hrefused, hend.fileState.trans hstate,
          fun id => (hend.row? id).trans (hrows id)⟩)⟩
    · cases hr
  obtain ⟨hsources, hprogress, ⟨_, hr, _, _⟩ | ⟨hrows, ⟨_, hr, _⟩ | ⟨_, hstate⟩⟩⟩ :=
    clearAll_cases hclear
  · cases hr
  · cases hr
  have hp₁ : f₁.progress.current = .extractingSymbols := by rw [hprogress]; rfl
  have hempty : f₁.row? = fun _ => none := funext hrows
  cases hd : discover c.views.scan f.root (FilePath.tidy (FilePath.join f.root top)) patterns
      f.filter with
  | error refused =>
    rw [hd] at hk
    cases hk
    exact Or.inl ⟨_, rfl, Or.inl rfl, hend.setup.trans hsources.setup,
      Or.inr (Or.inr ⟨hend.fileState.trans hstate, fun id => (hend.row? id).trans (hrows id)⟩)⟩
  | ok files =>
    rw [hd] at hk
    rcases indexFiles_cases hp₁ hk with ⟨e, rfl, hearly, hsame⟩ | hstores
    · exact Or.inl ⟨e, rfl, hearly, (hend.setup.trans hsame.setup).trans hsources.setup,
        Or.inr (Or.inr ⟨(hend.fileState.trans hsame.fileState).trans hstate,
          fun id => ((hend.row? id).trans (hsame.row? id)).trans (hrows id)⟩)⟩
    · rw [hempty, hstate] at hstores
      have hf : SameSources f f₁ := ⟨hsources.setup, hsources.extractor, hsources.engine⟩
      exact Or.inr ⟨files, rfl, (hstores.of_sameSources hf).sameIndex hend⟩

end Finder

end CodeClones
