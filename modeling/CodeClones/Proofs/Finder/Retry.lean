import CodeClones.Proofs.Finder.Orphans

/-!
# Runs that failed

An incremental run changes the file states at its end. As long as it has not come to its last stage,
a failure leaves them as they were, and the next run by digests finds the same files changed and
gone. In the last stage the changes are made one by one, and the report follows them: a failure
there leaves files that count as indexed although nothing was reported about them.
-/

namespace CodeClones

theorem FinderError.Early.stage_ne {e : FinderError} (h : e.Early) :
    e.stage ≠ .formattingResults := by
  rcases h with h | h | h <;> rw [h] <;> decide

namespace Finder

/-- The file states after a failed run: as before, or in the last stage with the changes that were
made before one was refused. -/
def Committed (c : RunConditions) (files deleted : List String) (f : Finder) (e : FinderError)
    (g : Finder) : Prop :=
  e.stage ≠ .formattingResults ∧ g.fileState = f.fileState ∨
    e.stage = .formattingResults ∧
      g.fileState = committedIn c (f.recordsIn c files) deleted f.fileState

private theorem detect_fileState {c : RunConditions} {symbols : List Symbol}
    {threshold : Option Float32} {f g : Finder} {r : Except FinderError Detection}
    (hp : f.progress.current = .extractingSymbols) (h : detect c symbols threshold f = (r, g)) :
    g.fileState = f.fileState ∧ (∀ e, r = .error e → e.stage ≠ .formattingResults) ∧
      ∀ d, r = .ok d → g.progress.current = .formattingResults := by
  rcases detect_cases hp h with ⟨e, rfl, hearly, hsame⟩ |
    ⟨_, _, _, hsearch, ⟨e, rfl, hstage⟩ | ⟨_, _, hcurrent, rfl⟩⟩
  · exact ⟨hsame.fileState, fun e' he => by cases he; exact hearly.stage_ne, nofun⟩
  · exact ⟨hsearch.fileState, fun e' he => by cases he; rw [hstage]; decide, nofun⟩
  · exact ⟨hsearch.fileState, nofun, fun _ _ => hcurrent⟩

/-- Indexing that fails leaves the file states as they were until it commits. -/
theorem committed_of_indexFiles {c : RunConditions} {o : RunOptions}
    {files deleted : List String} {mode : AnalysisMode} {changedFiles : Option (List String)}
    {f g : Finder} {e : FinderError} (hp : f.progress.current = .extractingSymbols)
    (h : indexFiles c o files deleted mode changedFiles f = (.error e, g)) :
    Committed c files deleted f e g := by
  cases indexFiles_steps h with
  | unread hstage hsame => exact Or.inl ⟨by rw [hstage]; decide, hsame.fileState⟩
  | undetected hf₁ hdetect =>
    obtain ⟨hstate, hstage, _⟩ := detect_fileState (by rw [hf₁.progress, hp]) hdetect
    exact Or.inl ⟨hstage e rfl, hstate.trans hf₁.same.fileState⟩
  | refused hf₁ hdetect =>
    obtain ⟨hstate, _, hcurrent⟩ := detect_fileState (by rw [hf₁.progress, hp]) hdetect
    refine Or.inr ⟨hcurrent _ rfl, ?_⟩
    rw [hstate, hf₁.same.fileState]
  | reported hf₁ hdetect _ hreport =>
    obtain ⟨hstate, _, hcurrent⟩ := detect_fileState (by rw [hf₁.progress, hp]) hdetect
    obtain ⟨hsame, hfault⟩ := finishReport_cases hreport
    refine Or.inr ⟨(hfault e rfl).2.trans (hcurrent _ rfl), ?_⟩
    rw [hsame.fileState, hstate, hf₁.same.fileState]

/-- A run by a plan that fails leaves the file states as they were until it commits. -/
theorem committed_of_runPlan {c : RunConditions} {o : RunOptions} {plan : Plan} {f g : Finder}
    {e : FinderError} (hp : f.progress.current = .extractingSymbols)
    (h : runPlan c o plan f = (.error e, g)) :
    Committed c plan.targets plan.deleted f e g := by
  rw [runPlan, get_bind] at h
  rcases RunStep.bind_cases h with ⟨e', hx, hr⟩ | ⟨_, f₁, hpurge, hk⟩
  · cases hr
    obtain ⟨hg, _, ⟨hr, _⟩ | ⟨⟨_, hr, hstage⟩, _⟩⟩ := purgeFrom_cases hx
    · cases hr
    · cases hr
      exact Or.inl ⟨by rw [hstage]; decide, by rw [hg]⟩
  · -- a purge changes nothing but the store
    obtain ⟨hf₁, _, _⟩ := purgeFrom_cases hpurge
    have hcommitted := committed_of_indexFiles (by rw [hf₁, hp]) hk
    rw [hf₁] at hcommitted
    exact hcommitted

end Finder

namespace Call

open Finder

/-- A run by digests depends on the recorded file states and on nothing else that a call changes. -/
theorem plan?_changes_congr {f g : Finder} (hsetup : g.setup = f.setup)
    (hstate : g.fileState = f.fileState) (hincremental : f.config.finder.enableIncremental = true)
    (c : RunConditions) (o : RunOptions) :
    (changes c o none).plan? g = (changes c o none).plan? f := by
  have hroot : g.root = f.root := congrArg Setup.root hsetup
  have hconfig : g.config = f.config := congrArg Setup.config hsetup
  have hfilter : g.filter = f.filter := congrArg Setup.filter hsetup
  have hchanged : g.changedPlan c = f.changedPlan c := by
    funext files
    rw [changedPlan, changedPlan, hroot, hstate]
  simp only [plan?, hconfig, hincremental, if_true, hroot, hfilter, hchanged]

/-- An incremental run that fails before its last stage leaves the file states as they were, so that
a following run by digests has the plan that it would have had before. In the last stage the changes
before the one that was refused are made, and all of them if it is the report that fails. -/
theorem fileState_after_failure {f : Finder} {c : RunConditions} {o : RunOptions}
    {files : Option (List String)} {e : FinderError}
    (hincremental : f.config.finder.enableIncremental = true)
    (h : (changes c o files).failure? f = some e) :
    (e.stage ≠ .formattingResults →
      ((changes c o files).after f).fileState = f.fileState ∧
        ∀ c' o', (changes c' o' none).plan? ((changes c o files).after f) =
          (changes c' o' none).plan? f) ∧
    (e.stage = .formattingResults → ∃ plan, (changes c o files).plan? f = some plan ∧
      ((changes c o files).after f).fileState =
        committedIn c (f.recordsIn c plan.targets) plan.deleted f.fileState) := by
  have hanew : ¬(changes c o files).startsAnew f := by
    cases files <;> simp [startsAnew, hincremental]
  obtain ⟨o', r, g₁, hfailure, hend, _, hcases⟩ := run_of_not_startsAnew hanew
  rw [hfailure] at h
  obtain rfl : r = .error e := by
    cases r <;> cases h
    rfl
  rcases hcases with ⟨e', hr, hfails⟩ | ⟨plan, hplan, hwork⟩
  · cases hr
    obtain ⟨rfl, ⟨_, hr, hstage⟩ | ⟨_, _, hr⟩⟩ := planChanged_cases hfails
    · cases hr
      refine ⟨fun _ => ⟨hend.fileState, ?_⟩, fun hlast => ?_⟩
      · exact plan?_changes_congr (setup_after ..) hend.fileState hincremental
      · rw [hstage] at hlast
        cases hlast
    · cases hr
  · rcases committed_of_runPlan rfl hwork with ⟨hstage, hstate⟩ | ⟨hstage, hstate⟩
    · have hunchanged := hend.fileState.trans hstate
      exact ⟨fun _ => ⟨hunchanged, plan?_changes_congr (setup_after ..) hunchanged hincremental⟩,
        fun hlast => absurd hlast hstage⟩
    · exact ⟨fun hearlier => absurd hstage hearlier,
        fun _ => ⟨plan, hplan, hend.fileState.trans hstate⟩⟩

/-- A run over a file that was removed, whose report fails because the store cannot be counted. -/
private def unreported : Call :=
  .changes
    { removal.conditions with
      stats := { refusal := fun _ => some (.runtime "the store is busy") } }
    {} (some ["a.py"])

/-- A run by digests after the file was removed. -/
private def retry : Call := .changes removal.conditions {} none

/-- A run whose report fails has forgotten the removed file, so that the next run does not find it
gone any more. -/
theorem fileState_after_unreported :
    (unreported.failure? oneRow).map (·.stage) = some .formattingResults ∧
      (unreported.after oneRow).fileState = committed [] ["a.py"] oneRow.fileState ∧
      retry.plan? oneRow = some ⟨[], ["a.py"]⟩ ∧
      retry.plan? (unreported.after oneRow) = some ⟨[], []⟩ := by
  have hstage : (unreported.failure? oneRow).map (·.stage) = some .formattingResults := by
    decide +kernel
  obtain ⟨e, hfailure, he⟩ := Option.map_eq_some_iff.mp hstage
  obtain ⟨plan, hplan, hstate⟩ := (fileState_after_failure rfl hfailure).2 he
  have hremoved : unreported.plan? oneRow = some ⟨[], ["a.py"]⟩ := by decide +kernel
  cases hremoved.symm.trans hplan
  exact ⟨hstage, hstate, by decide +kernel, by decide +kernel⟩

end Call

end CodeClones
