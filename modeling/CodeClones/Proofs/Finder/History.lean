import CodeClones.Proofs.Finder.Calls

/-!
# Histories of a finder

A history is a sequence of calls that change the index, each in surroundings of its own, so that the
files may change from call to call. A call may end in any failure; its end tells what it did to the
rows of the store and to the file states.
-/

namespace CodeClones

/-- A call that changes the index. -/
inductive Call where
  | full (c : RunConditions) (o : RunOptions) (top : String) (patterns : List String)
  | changes (c : RunConditions) (o : RunOptions) (files : Option (List String))
  | clear (c : RunConditions)

namespace Call

open Finder

/-- The surroundings of a call. -/
def conditions : Call → RunConditions
  | full c .. => c
  | changes c .. => c
  | clear c => c

/-- The failure of a step, if it failed. -/
def failureOf {α : Type} : Except FinderError α → Option FinderError
  | .ok _ => none
  | .error e => some e

/-- Runs a call and leaves out its report. -/
def run (f : Finder) : Call → Option FinderError × Finder
  | full c o top patterns => (analyze c o top patterns f).map failureOf id
  | changes c o files => (analyzeChanges c o files f).map failureOf id
  | clear c => (clearAll c f).map failureOf id

/-- The failure in which a call ends. -/
def failure? (f : Finder) (call : Call) : Option FinderError := (call.run f).1

/-- The finder after a call. -/
def after (f : Finder) (call : Call) : Finder := (call.run f).2

/-- Whether a call removes the whole index first. -/
def startsAnew (f : Finder) : Call → Bool
  | full .. => true
  | changes _ _ (some _) => false
  | changes _ _ none => !f.config.finder.enableIncremental
  | clear _ => true

/-- The directory that a call indexes anew. -/
def top? (f : Finder) : Call → Option String
  | full _ _ top _ => some (FilePath.tidy (FilePath.join f.root top))
  | changes _ _ none =>
    if f.config.finder.enableIncremental then none
    else some (FilePath.tidy (FilePath.join f.root f.root))
  | _ => none

/-- What a full run indexes. -/
def fullPlan? (f : Finder) (c : RunConditions) (top : String) (patterns : List String) :
    Option Plan :=
  (discover c.views.scan f.root (FilePath.tidy (FilePath.join f.root top)) patterns
    f.filter).toOption.map fun files => ⟨files, []⟩

/-- What a call indexes and forgets, unless it only clears the index or finds no files. -/
def plan? (f : Finder) : Call → Option Plan
  | full c _ top patterns => fullPlan? f c top patterns
  | changes c _ (some files) => some (planListed c.views.scan f.root files)
  | changes c _ none =>
    if f.config.finder.enableIncremental then
      (discover c.views.scan f.root f.root [] f.filter).toOption.map (changedPlan f c)
    else fullPlan? f c f.root []
  | clear _ => none

/-- A finder as a run finds it. -/
def begun (f : Finder) : Finder := { f with progress := Progress.advance {} .extractingSymbols }

/-- A call that removes the whole index first clears it, or is a full run. -/
theorem run_of_startsAnew {f : Finder} {call : Call} (h : call.startsAnew f) :
    (∃ c, call = clear c) ∨ ∃ o top patterns,
      call.run f = (analyze call.conditions o top patterns f).map failureOf id ∧
      call.plan? f = fullPlan? f call.conditions top patterns ∧
      call.top? f = some (FilePath.tidy (FilePath.join f.root top)) := by
  cases call with
  | full c o top patterns => exact Or.inr ⟨o, top, patterns, rfl, rfl, rfl⟩
  | clear c => exact Or.inl ⟨c, rfl⟩
  | changes c o files =>
    cases files with
    | some files => cases h
    | none =>
      have hoff : f.config.finder.enableIncremental = false := by simpa [startsAnew] using h
      refine Or.inr ⟨o, f.root, [], ?_, by simp [plan?, conditions, hoff], by simp [top?, hoff]⟩
      rw [run, analyzeChanges, get_bind]
      simp only [hoff, Bool.false_eq_true, if_false]
      rfl

/-- A call that does not remove the whole index first fails to find its plan, or runs by it. -/
theorem run_of_not_startsAnew {f : Finder} {call : Call} (h : ¬call.startsAnew f) :
    ∃ o r g₁, call.failure? f = failureOf r ∧ SameIndex g₁ (call.after f) ∧ call.top? f = none ∧
      ((∃ e, r = .error e ∧ planChanged call.conditions (begun f) = (.error e, g₁)) ∨
        ∃ plan, call.plan? f = some plan ∧
          runPlan call.conditions o plan (begun f) = (r, g₁)) := by
  cases call with
  | full c o top patterns => exact absurd rfl h
  | clear c => exact absurd rfl h
  | changes c o files =>
    rw [failure?, after, run]
    cases files with
    | some files =>
      have hrun : analyzeChanges c o (some files) f =
          running (runPlan c o (planListed c.views.scan f.root files)) f := rfl
      rw [hrun]
      rcases hwhole : running (runPlan c o (planListed c.views.scan f.root files)) f with ⟨r, g⟩
      obtain ⟨g₁, hwork, hend⟩ := running_cases hwhole
      exact ⟨o, r, g₁, rfl, hend, rfl, Or.inr ⟨_, rfl, hwork⟩⟩
    | none =>
      have hon : f.config.finder.enableIncremental = true := by simpa [startsAnew] using h
      have hrun : analyzeChanges c o none f = running (do runPlan c o (← planChanged c)) f := by
        rw [analyzeChanges, get_bind]
        simp only [hon, if_true]
      rw [hrun]
      rcases hwhole : running (do runPlan c o (← planChanged c)) f with ⟨r, g⟩
      obtain ⟨g₁, hwork, hend⟩ := running_cases hwhole
      refine ⟨o, r, g₁, rfl, hend, by simp [top?, hon], ?_⟩
      rcases RunStep.bind_cases hwork with ⟨e, he, hr⟩ | ⟨plan, f₁, hp, hk⟩
      · exact Or.inl ⟨e, hr, he⟩
      · obtain ⟨rfl, ⟨_, hr, _⟩ | ⟨files, hfiles, hr⟩⟩ := planChanged_cases hp
        · cases hr
        · cases hr
          refine Or.inr ⟨_, ?_, hk⟩
          simp only [plan?, hon, if_true]
          rw [show discover c.views.scan f.root f.root [] f.filter = .ok files from hfiles]
          rfl

/-- The rows over which a call stores vectors. -/
def rowsUnder (f : Finder) (call : Call) (plan : Plan) (id : String) : Option Row :=
  if call.startsAnew f ∨ id ∈ recordedIds f.fileState (plan.paths f.root) then none else f.row? id

/-- The file states that a call changes in the end. -/
def statesUnder (f : Finder) (call : Call) : FileState :=
  if call.startsAnew f then {} else f.fileState

/-- A call that starts anew keeps no record. -/
theorem of_get?_statesUnder {f : Finder} {call : Call} {path : String} {record : FileRecord}
    (h : (call.statesUnder f).get? path = some record) :
    ¬call.startsAnew f ∧ f.fileState.get? path = some record := by
  rw [statesUnder] at h
  split at h
  · cases h
  · rename_i hanew
    exact ⟨hanew, h⟩

/-- How a call may end. -/
inductive Ends (f : Finder) (call : Call) (failure : Option FinderError) (g : Finder) : Prop
  /-- It failed before it stored a vector; rows may be gone, but the file states are as before. -/
  | stopped (e : FinderError) (hfailure : failure = some e) (hsetup : g.setup = f.setup)
    (hstate : g.fileState = f.fileState)
    (hrows : ∀ id, g.row? id = f.row? id ∨ g.row? id = none)
    (hearly : e.Early ∨ ∃ c, call = clear c)
    (hkept : call.startsAnew f → call.conditions.stateRefusal .clear = none →
      ∀ id, g.row? id = f.row? id)
  /-- It removed the whole index and stored nothing. -/
  | emptied (hanew : call.startsAnew f) (hsetup : g.setup = f.setup) (hstate : g.fileState = {})
    (hrows : ∀ id, g.row? id = none)
    (hearly : (∃ e, failure = some e ∧ e.Early) ∨ ∃ c, call = clear c)
  /-- It stored the vectors of its plan. -/
  | stored (plan : Plan) (r : Except FinderError Report) (hplan : call.plan? f = some plan)
    (hfailure : failure = failureOf r)
    (h : Stores call.conditions plan.targets plan.deleted (call.rowsUnder f plan)
      (call.statesUnder f) f r g)

private theorem ends_of_analyze {f g : Finder} {call : Call} {o : RunOptions} {top : String}
    {patterns : List String} {r : Except FinderError Report} (hanew : call.startsAnew f)
    (hplan : call.plan? f = fullPlan? f call.conditions top patterns)
    (h : analyze call.conditions o top patterns f = (r, g)) : call.Ends f (failureOf r) g := by
  rcases analyze_cases h with ⟨e, rfl, hearly, hsetup, ⟨hstate, hrows⟩ | ⟨hrefused, hstate, hrows⟩ |
    ⟨hstate, hrows⟩⟩ | ⟨files, hfiles, hstores⟩
  · exact .stopped e rfl hsetup hstate (fun id => Or.inl (hrows id)) (Or.inl hearly)
      fun _ _ => hrows
  · refine .stopped e rfl hsetup hstate (fun id => Or.inr (hrows id)) (Or.inl hearly)
      fun _ hnone => ?_
    rw [hnone] at hrefused
    cases hrefused
  · exact .emptied hanew hsetup hstate hrows (Or.inl ⟨e, rfl, hearly⟩)
  · have hrows : call.rowsUnder f ⟨files, []⟩ = fun _ => none :=
      funext fun id => if_pos (Or.inl hanew)
    have hstates : call.statesUnder f = {} := if_pos hanew
    refine .stored ⟨files, []⟩ r ?_ rfl ?_
    · rw [hplan, fullPlan?, hfiles]
      rfl
    · rw [hrows, hstates]
      exact hstores

private theorem ends_of_runPlan {f g g₁ : Finder} {call : Call} {o : RunOptions} {plan : Plan}
    {r : Except FinderError Report} (hanew : ¬call.startsAnew f)
    (hplan : call.plan? f = some plan)
    (h : runPlan call.conditions o plan (begun f) = (r, g₁)) (hend : SameIndex g₁ g) :
    call.Ends f (failureOf r) g := by
  rcases runPlan_cases rfl h with ⟨e, rfl, hearly, hsetup, hstate, hrows⟩ | hstores
  · refine .stopped e rfl (hend.setup.trans hsetup) (hend.fileState.trans hstate) (fun id => ?_)
      (Or.inl hearly) fun h => absurd h hanew
    rw [hend.row? id]
    exact hrows id
  · have hrows : call.rowsUnder f plan = fun id =>
        if id ∈ recordedIds f.fileState (plan.paths f.root) then none else f.row? id :=
      funext fun id => by simp [rowsUnder, hanew]
    have hstates : call.statesUnder f = f.fileState := if_neg hanew
    refine .stored plan r hplan rfl ?_
    rw [hrows, hstates]
    have hsources : SameSources f (begun f) := ⟨rfl, rfl, rfl⟩
    exact (hstores.of_sameSources hsources).sameIndex hend

private theorem ends_of_clear (f : Finder) (c : RunConditions) :
    (clear c).Ends f ((clear c).failure? f) ((clear c).after f) := by
  rw [failure?, after, run]
  rcases h : clearAll c f with ⟨r, g⟩
  obtain ⟨hsources, _, ⟨e, hr, _, hsame⟩ | ⟨hrows, ⟨e, hr, _, hrefused, hstate⟩ |
    ⟨_, hstate⟩⟩⟩ := clearAll_cases h
  · exact .stopped e (congrArg failureOf hr) hsources.setup hsame.fileState
      (fun id => Or.inl (hsame.row? id)) (Or.inr ⟨c, rfl⟩) fun _ _ => hsame.row?
  · refine .stopped e (congrArg failureOf hr) hsources.setup hstate
      (fun id => Or.inr (hrows id)) (Or.inr ⟨c, rfl⟩) fun _ hnone => ?_
    rw [show c.stateRefusal .clear = none from hnone] at hrefused
    cases hrefused
  · exact .emptied rfl hsources.setup hstate hrows (Or.inr ⟨c, rfl⟩)

/-- Every call has one of the ends. -/
theorem ends (f : Finder) (call : Call) : call.Ends f (call.failure? f) (call.after f) := by
  by_cases hanew : call.startsAnew f
  · rcases run_of_startsAnew hanew with ⟨c, rfl⟩ | ⟨o, top, patterns, hrun, hplan, _⟩
    · exact ends_of_clear f c
    · rw [failure?, after, hrun]
      rcases h : analyze call.conditions o top patterns f with ⟨r, g⟩
      exact ends_of_analyze hanew hplan h
  · obtain ⟨o, r, g₁, hfailure, hend, _, ⟨e, rfl, hp⟩ | ⟨plan, hplan, h⟩⟩ :=
      run_of_not_startsAnew hanew
    · rw [hfailure]
      obtain ⟨rfl, ⟨_, hr, hstage⟩ | ⟨_, _, hr⟩⟩ := planChanged_cases hp
      · cases hr
        exact .stopped e rfl hend.setup hend.fileState (fun id => Or.inl (hend.row? id))
          (Or.inl (Or.inl hstage)) fun h => absurd h hanew
      · cases hr
    · rw [hfailure]
      exact ends_of_runPlan hanew hplan h hend

/-- No call changes the setup. -/
theorem setup_after (f : Finder) (call : Call) : (call.after f).setup = f.setup := by
  cases call.ends f with
  | stopped e hfailure hsetup => exact hsetup
  | emptied hanew hsetup => exact hsetup
  | stored plan r hplan hfailure h =>
    obtain ⟨_, _, hr⟩ := h.reindexed
    exact hr.setup

end Call

namespace Finder

/-- The finders that some calls lead to from a first one, where every call is made in a finder that
allows it. -/
inductive History (allowed : Finder → Call → Prop) (first : Finder) : Finder → Prop
  | nil : History allowed first first
  | snoc {f : Finder} {call : Call} (h : History allowed first f) (hc : allowed f call) :
    History allowed first (call.after f)

theorem History.setup {allowed : Finder → Call → Prop} {first f : Finder}
    (h : History allowed first f) : f.setup = first.setup := by
  induction h with
  | nil => rfl
  | snoc h hc ih => exact (Call.setup_after _ _).trans ih

/-- What every allowed call preserves holds after every history. -/
theorem History.preserves {allowed : Finder → Call → Prop} {first f : Finder} {P : Finder → Prop}
    (h : History allowed first f) (hfirst : P first)
    (hstep : ∀ f call, f.setup = first.setup → P f → allowed f call → P (call.after f)) : P f := by
  induction h with
  | nil => exact hfirst
  | snoc h hc ih => exact hstep _ _ h.setup ih hc

end Finder

end CodeClones
