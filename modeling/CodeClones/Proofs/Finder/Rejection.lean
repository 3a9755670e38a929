import CodeClones.Proofs.Finder.Index
import CodeClones.Proofs.Finder.Orphans

/-!
# Rejected calls

A call is rejected for its configuration where its top is no directory, a pattern is no glob, or the
threshold is out of range. The first is noticed before anything is done. The other two are noticed
only after a full run has removed the whole index, and an incremental run the rows of its plan.
-/

namespace CodeClones

namespace RunStep

variable {α β : Type} {P : FinderError → Prop}

/-- Every failure of a step is as `P` says. -/
def FailsOnly (P : FinderError → Prop) (x : RunStep α) : Prop :=
  ∀ f e g, x f = (.error e, g) → P e

theorem FailsOnly.bind {x : RunStep α} {k : α → RunStep β} (hx : x.FailsOnly P)
    (hk : ∀ a, (k a).FailsOnly P) : (x >>= k).FailsOnly P := by
  intro f e g h
  rcases bind_cases h with ⟨e', hx', he⟩ | ⟨a, f₁, _, hk'⟩
  · cases he
    exact hx f e g hx'
  · exact hk a f₁ e g hk'

theorem failsOnly_pure (a : α) : (pure a : RunStep α).FailsOnly P := by
  intro f e g h
  cases h

theorem failsOnly_get : (get : RunStep Finder).FailsOnly P := by
  intro f e g h
  cases h

theorem failsOnly_set (f : Finder) : (set f : RunStep PUnit).FailsOnly P := by
  intro f e g h
  cases h

theorem failsOnly_modify (change : Finder → Finder) :
    (modify change : RunStep PUnit).FailsOnly P := by
  intro f e g h
  cases h

end RunStep

namespace Finder

open RunStep

variable {P : FinderError → Prop}

theorem failsOnly_failAt {α : Type} {fault : Fault} {stage : Stage} {reason : String}
    (h : P ⟨fault, stage, reason⟩) : (failAt fault stage reason : RunStep α).FailsOnly P := by
  intro f e g he
  cases he
  exact h

theorem failsOnly_callStore {α : Type} {stage : Stage}
    {call : VectorStore → VectorStore × Except StoreError α}
    (h : ∀ cause reason, P ⟨faultOf cause, stage, reason⟩) : (callStore stage call).FailsOnly P := by
  intro f e g he
  obtain ⟨_, _, _, _, ⟨_, _, hr⟩ | ⟨cause, _, hr⟩⟩ := callStore_cases he
  · cases hr
  · cases hr
    exact h cause _

theorem failsOnly_accessState {c : RunConditions} {stage : Stage} {access : StateAccess}
    (h : ∀ reason, P ⟨.dependency, stage, reason⟩) : (accessState c stage access).FailsOnly P := by
  intro f e g he
  obtain ⟨_, ⟨hr, _⟩ | ⟨reason, _, hr⟩⟩ := accessState_cases he
  · cases hr
  · cases hr
    exact h reason

end Finder

/-- A failure that is not for the configuration. -/
def FinderError.Accepted (e : FinderError) : Prop := e.fault ≠ .configuration

namespace Finder

open RunStep

/-! ### Steps that reject nothing -/

private theorem callStore_accepts {α : Type} (stage : Stage)
    (call : VectorStore → VectorStore × Except StoreError α) :
    (callStore stage call).FailsOnly FinderError.Accepted :=
  failsOnly_callStore fun cause _ => (faultOf_ne cause).2

private theorem accessState_accepts (c : RunConditions) (stage : Stage) (access : StateAccess) :
    (accessState c stage access).FailsOnly FinderError.Accepted :=
  failsOnly_accessState fun _ h => nomatch h

private theorem embedSymbols_accepts (symbols : List Symbol) :
    (embedSymbols symbols).FailsOnly FinderError.Accepted := by
  refine (failsOnly_modify _).bind fun _ => failsOnly_get.bind fun f =>
    (failsOnly_set _).bind fun _ => ?_
  split
  · exact failsOnly_pure _
  · exact failsOnly_failAt nofun

private theorem searchNeighbours_accepts (c : RunConditions) (symbols : List Symbol)
    (vectors : List Embedding) (threshold : Float32) :
    (searchNeighbours c symbols vectors threshold).FailsOnly FinderError.Accepted :=
  (failsOnly_modify _).bind fun _ => (callStore_accepts _ _).bind fun _ =>
    (failsOnly_modify _).bind fun _ => callStore_accepts _ _

private theorem clearAll_accepts (c : RunConditions) :
    (clearAll c).FailsOnly FinderError.Accepted :=
  failsOnly_get.bind fun _ => (callStore_accepts _ _).bind fun _ =>
    (accessState_accepts _ _ _).bind fun _ => failsOnly_modify _

private theorem purgeFrom_accepts (c : RunConditions) (position : Nat) (paths : List String) :
    (purgeFrom c position paths).FailsOnly FinderError.Accepted := by
  induction paths generalizing position with
  | nil => exact failsOnly_pure _
  | cons path rest ih =>
    refine (accessState_accepts _ _ _).bind fun _ => failsOnly_get.bind fun f => ?_
    cases f.fileState.get? path with
    | none => exact ih _
    | some record => exact (callStore_accepts _ _).bind fun _ => ih _

private theorem planChanged_accepts (c : RunConditions) :
    (planChanged c).FailsOnly FinderError.Accepted := by
  intro f e g h
  -- without patterns no pattern is refused
  obtain ⟨files, hfiles⟩ : ∃ files, discover c.views.scan f.root f.root [] f.filter = .ok files :=
    ⟨_, rfl⟩
  rw [planChanged, get_bind, hfiles] at h
  exact ((accessState_accepts c _ _).bind fun _ => failsOnly_pure _) _ _ _ h

/-! ### Where the configuration is rejected -/

/-- A search for duplicates rejects a threshold before it does anything. -/
private theorem detect_rejected {c : RunConditions} {symbols : List Symbol}
    {threshold : Option Float32} {f g : Finder} {e : FinderError}
    (h : detect c symbols threshold f = (.error e, g)) (he : ¬e.Accepted) : g = f := by
  rw [detect, get_bind] at h
  dsimp only at h
  split at h
  · rw [RunStep.bind_of_error (failAt_apply ..)] at h
    cases h
    rfl
  · refine absurd ((embedSymbols_accepts _).bind (fun vectors => ?_) _ _ _ h) he
    exact (searchNeighbours_accepts _ _ _ _).bind fun _ =>
      (failsOnly_modify _).bind fun _ => failsOnly_pure _

private theorem indexFiles_rejected {c : RunConditions} {o : RunOptions}
    {files deleted : List String} {mode : AnalysisMode} {changedFiles : Option (List String)}
    {f g : Finder} {e : FinderError}
    (h : indexFiles c o files deleted mode changedFiles f = (.error e, g)) (he : ¬e.Accepted) :
    SameIndex f g := by
  cases indexFiles_steps h with
  | unread _ hsame => exact hsame
  | undetected hf₁ hdetect =>
    obtain rfl := detect_rejected hdetect he
    exact hf₁.same
  | refused => exact absurd (fun hfault => nomatch hfault) he
  | reported _ _ _ hreport =>
    obtain ⟨cause, hfault⟩ := ((finishReport_cases hreport).2 e rfl).1
    exact absurd (fun h => (faultOf_ne cause).2 (hfault.symm.trans h)) he

/-- A full run that is rejected leaves the index as it was if its top is no directory, and an empty
index otherwise. -/
private theorem analyze_rejected {c : RunConditions} {o : RunOptions} {top : String}
    {patterns : List String} {f g : Finder} {e : FinderError}
    (h : analyze c o top patterns f = (.error e, g)) (he : ¬e.Accepted) :
    c.views.scan.holdsDirectory (FilePath.tidy (FilePath.join f.root top)) = false ∧
        SameIndex f g ∨
      c.views.scan.holdsDirectory (FilePath.tidy (FilePath.join f.root top)) = true ∧
        g.fileState = {} ∧ ∀ id, g.row? id = none := by
  obtain ⟨g₁, hwork, hend⟩ := running_cases h
  rw [get_bind] at hwork
  dsimp only at hwork
  split at hwork
  · rename_i hno
    rw [RunStep.bind_of_error (failAt_apply ..)] at hwork
    cases hwork
    exact Or.inl ⟨by simpa using hno, hend.setup, hend.backend, hend.fileState⟩
  rename_i hdirectory
  rcases RunStep.bind_cases hwork with ⟨e', hx, hr⟩ | ⟨_, f₁, hclear, hk⟩
  · cases hr
    exact absurd (clearAll_accepts _ _ _ _ hx) he
  have hempty : f₁.fileState = {} ∧ ∀ id, f₁.row? id = none := by
    obtain ⟨_, _, ⟨_, hr, _⟩ | ⟨hrows, ⟨_, hr, _⟩ | ⟨_, hstate⟩⟩⟩ := clearAll_cases hclear
    · cases hr
    · cases hr
    · exact ⟨hstate, hrows⟩
  have hsame : SameIndex f₁ g₁ := by
    cases hd : discover c.views.scan f.root (FilePath.tidy (FilePath.join f.root top)) patterns
        f.filter with
    | error refused =>
      rw [hd] at hk
      cases hk
      exact .refl _
    | ok files =>
      rw [hd] at hk
      exact indexFiles_rejected hk he
  have hall := hsame.trans hend
  exact Or.inr ⟨by simpa using hdirectory, hall.fileState.trans hempty.1,
    fun id => (hall.row? id).trans (hempty.2 id)⟩

/-- An incremental run that is rejected has removed the rows of its plan. -/
private theorem runPlan_rejected {c : RunConditions} {o : RunOptions} {plan : Plan} {f g : Finder}
    {e : FinderError} (h : runPlan c o plan f = (.error e, g)) (he : ¬e.Accepted) :
    g.fileState = f.fileState ∧ ∀ id, g.row? id =
      if id ∈ recordedIds f.fileState (plan.paths f.root) then none else f.row? id := by
  rw [runPlan, get_bind] at h
  rcases RunStep.bind_cases h with ⟨e', hx, hr⟩ | ⟨_, f₁, hpurge, hk⟩
  · cases hr
    exact absurd (purgeFrom_accepts _ _ _ _ _ _ hx) he
  have hsame := indexFiles_rejected hk he
  obtain ⟨hf₁, _, ⟨_, hrows⟩ | ⟨⟨_, hr, _⟩, _⟩⟩ := purgeFrom_cases hpurge
  · refine ⟨hsame.fileState.trans (by rw [hf₁]), fun id => ?_⟩
    rw [hsame.row? id]
    exact hrows id
  · cases hr

end Finder

namespace Call

open Finder

/-- Whether a call removes the whole index before its patterns and its threshold are looked at. -/
def Empties (f : Finder) (call : Call) : Prop :=
  ∃ top, call.top? f = some top ∧ call.conditions.views.scan.holdsDirectory top

/-- Whether a call removes the row under an identifier before its patterns and its threshold are
looked at. -/
def Drops (f : Finder) (call : Call) (id : String) : Prop :=
  call.Empties f ∨ ¬call.startsAnew f ∧
    ∃ plan, call.plan? f = some plan ∧ id ∈ recordedIds f.fileState (plan.paths f.root)

/-- What a call that is rejected for its configuration does to the index. -/
structure Rejected (f : Finder) (call : Call) (g : Finder) : Prop where
  emptied : call.Empties f → g.fileState = {}
  kept : ¬call.Empties f → g.fileState = f.fileState
  dropped : ∀ id, call.Drops f id → g.row? id = none
  spared : ∀ id, ¬call.Drops f id → g.row? id = f.row? id

private theorem rejected_of_analyze {f g : Finder} {call : Call} {o : RunOptions} {top : String}
    {patterns : List String} {e : FinderError} (hanew : call.startsAnew f)
    (htop : call.top? f = some (FilePath.tidy (FilePath.join f.root top)))
    (h : analyze call.conditions o top patterns f = (.error e, g)) (he : ¬e.Accepted) :
    call.Rejected f g := by
  have hempties : call.Empties f ↔
      call.conditions.views.scan.holdsDirectory (FilePath.tidy (FilePath.join f.root top)) := by
    rw [Empties, htop]
    simp
  have hdrops : ∀ id, call.Drops f id ↔ call.Empties f := by
    intro id
    simp [Drops, hanew]
  rcases analyze_rejected h he with ⟨hno, hsame⟩ | ⟨hdirectory, hstate, hrows⟩
  · have hnone : ¬call.Empties f := by
      rw [hempties, hno]
      exact Bool.false_ne_true
    exact ⟨fun h => absurd h hnone, fun _ => hsame.fileState,
      fun id h => absurd ((hdrops id).mp h) hnone, fun id _ => hsame.row? id⟩
  · have hall := hempties.mpr hdirectory
    exact ⟨fun _ => hstate, fun hnone => absurd hall hnone, fun id _ => hrows id,
      fun id hnone => absurd ((hdrops id).mpr hall) hnone⟩

private theorem rejected_of_runPlan {f g g₁ : Finder} {call : Call} {o : RunOptions}
    {plan : Plan} {e : FinderError} (hanew : ¬call.startsAnew f) (htop : call.top? f = none)
    (hplan : call.plan? f = some plan)
    (h : runPlan call.conditions o plan (begun f) = (.error e, g₁)) (hend : SameIndex g₁ g)
    (he : ¬e.Accepted) : call.Rejected f g := by
  obtain ⟨hstate, hrows⟩ := runPlan_rejected h he
  have hempties : ¬call.Empties f := by
    rintro ⟨top, hsome, _⟩
    rw [htop] at hsome
    cases hsome
  have hdrops : ∀ id, call.Drops f id ↔ id ∈ recordedIds f.fileState (plan.paths f.root) := by
    intro id
    simp [Drops, hempties, hanew, hplan]
  refine ⟨fun h => absurd h hempties, fun _ => hend.fileState.trans hstate, fun id h => ?_,
    fun id h => ?_⟩
  · rw [hend.row? id, hrows id]
    exact if_pos ((hdrops id).mp h)
  · rw [hend.row? id, hrows id]
    exact if_neg fun hmem => h ((hdrops id).mpr hmem)

/-- The effect of every call that is rejected for its configuration. -/
theorem rejected_after {f : Finder} {call : Call} {e : FinderError}
    (h : call.failure? f = some e) (he : e.fault = .configuration) :
    call.Rejected f (call.after f) := by
  have hrejected : ¬e.Accepted := fun h => h he
  by_cases hanew : call.startsAnew f
  · rcases run_of_startsAnew hanew with ⟨c, rfl⟩ | ⟨o, top, patterns, hrun, _, htop⟩
    · rw [failure?, run] at h
      rcases hclear : clearAll c f with ⟨_ | _, g⟩ <;> rw [hclear] at h <;> cases h
      exact absurd (clearAll_accepts _ _ _ _ hclear) hrejected
    · rw [failure?, hrun] at h
      rw [after, hrun]
      rcases hwhole : analyze call.conditions o top patterns f with ⟨_ | _, g⟩ <;>
        rw [hwhole] at h <;> cases h
      exact rejected_of_analyze hanew htop hwhole hrejected
  · obtain ⟨o, r, g₁, hfailure, hend, htop, hcases⟩ := run_of_not_startsAnew hanew
    rw [hfailure] at h
    obtain rfl : r = .error e := by
      cases r <;> cases h
      rfl
    rcases hcases with ⟨e', hr, hplan⟩ | ⟨plan, hplan, hwork⟩
    · cases hr
      exact absurd (planChanged_accepts _ _ _ _ hplan) hrejected
    · exact rejected_of_runPlan hanew htop hplan hwork hend hrejected

/-- A call that is rejected for its configuration leaves the index as it was exactly if what it
removes first was not there: the rows of its plan, and in a full run on a directory the whole
index. -/
theorem agrees_after_rejection_iff {f : Finder} {call : Call} {e : FinderError}
    (h : call.failure? f = some e) (he : e.fault = .configuration) :
    call.Rejected f (call.after f) ∧
      (f.Agrees (call.after f) ↔
        (∀ id, call.Drops f id → f.row? id = none) ∧ (call.Empties f → f.fileState = {})) := by
  have hrejected := rejected_after h he
  refine ⟨hrejected, fun hagrees => ⟨fun id hdrops => ?_, fun hempties => ?_⟩, fun hnothing => ?_⟩
  · rw [hagrees.rows id]
    exact hrejected.dropped id hdrops
  · rw [hagrees.fileState]
    exact hrejected.emptied hempties
  · refine ⟨?_, fun id => ?_⟩
    · by_cases hempties : call.Empties f
      · rw [hnothing.2 hempties, hrejected.emptied hempties]
      · exact (hrejected.kept hempties).symm
    · by_cases hdrops : call.Drops f id
      · rw [hnothing.1 id hdrops, hrejected.dropped id hdrops]
      · exact (hrejected.spared id hdrops).symm

/-- A full run whose only pattern is no glob. -/
private def badPattern : Call :=
  .full
    { views := .still (.directory [("ws", .directory [])])
      search := { usage := fun _ => 0, query := fun _ => {} } }
    {} "." ["["]

/-- A full run with a pattern that is no glob is rejected, and takes the only row away. -/
theorem not_agrees_after_badPattern :
    (badPattern.failure? oneRow).map (·.fault) = some .configuration ∧
      ¬oneRow.Agrees (badPattern.after oneRow) := by
  have hfault : (badPattern.failure? oneRow).map (·.fault) = some .configuration := by
    decide +kernel
  obtain ⟨e, hfailure, he⟩ := Option.map_eq_some_iff.mp hfault
  refine ⟨hfault, fun hagrees => ?_⟩
  have hempties : badPattern.Empties oneRow := ⟨"/ws", by decide +kernel, by decide +kernel⟩
  have hgone := ((agrees_after_rejection_iff hfailure he).2.mp hagrees).1 "f" (Or.inl hempties)
  have hrow : (oneRow.row? "f").isSome = true := by decide +kernel
  rw [hgone] at hrow
  cases hrow

end Call

end CodeClones
