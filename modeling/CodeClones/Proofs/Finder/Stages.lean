import CodeClones.Proofs.Finder.Steps

/-!
# Stages of a run

A run goes through its stages one after the other, and each of its steps knows the stage that it is
called at. So a run that succeeds has gone through all stages, and one that fails has gone through
them up to the stage that its failure names, and ends there.
-/

namespace CodeClones

/-- The stages of a run that nothing stops. -/
def Stage.course : List Stage := [.initializing, .extractingSymbols, .generatingEmbeddings,
  .buildingIndex, .findingDuplicates, .formattingResults, .completed]

namespace Progress

/-- The progress of a run that has come to a stage of the course. -/
def reached (s : Stage) : Progress where
  current := s
  history := Stage.course.take (Stage.course.idxOf s + 1)

@[simp]
theorem reached_current (s : Stage) : (reached s).current = s := rfl

/-- From the stage before it, a run comes to a stage. -/
theorem advance_reached {s next : Stage} (h : next.predecessor? = some s) :
    (reached s).advance next = reached next := by
  cases next <;> cases h <;> rfl

/-- Every stage before the last one has come after those that precede it in the course. -/
theorem reached_history {s : Stage} (h : s.isTerminal = false) :
    ∃ before, (reached s).history = before ++ [s] ∧ before ++ [s] <+: Stage.course := by
  have hlast : (reached s).history = (reached s).history.dropLast ++ [s] := by
    cases s <;> first | rfl | cases h
  refine ⟨_, hlast, ?_⟩
  rw [← hlast]
  exact List.take_prefix _ _

/-- A progress tells how a run has ended: it succeeded after all stages, or it failed at the last
stage before the end, for the reason that is noted. Where the program stopped in the middle of a
stage, nothing came after that stage. -/
inductive Tells {α : Type} : Progress → Except FinderError α → Prop
  | success (a : α) : Tells ⟨.completed, Stage.course, none⟩ (.ok a)
  | failure (e : FinderError) (before : List Stage) (hreturned : e.fault ≠ .aborted)
    (h : before ++ [e.stage] <+: Stage.course) :
      Tells ⟨.failed, before ++ [e.stage, .failed], some e.message⟩ (.error e)
  | stopped (e : FinderError) (before : List Stage) (hstopped : e.fault = .aborted)
    (h : before ++ [e.stage] <+: Stage.course) :
      Tells ⟨e.stage, before ++ [e.stage], none⟩ (.error e)

end Progress

namespace RunStep

open Finder

variable {α β : Type} {s t u : Stage}

/-- However a run ends, the progress tells it. -/
def Told (x : RunStep α) : Prop := ∀ f : Finder, (x f).2.progress.Tells (x f).1

theorem Told.get_bind {k : Finder → RunStep β} (hk : ∀ f, (k f).Told) :
    ((get : RunStep Finder) >>= k).Told :=
  fun f => hk f f

/-- A step comes from one stage to another, or fails at a stage that it has come to. -/
def Leads (s t : Stage) (x : RunStep α) : Prop :=
  ∀ f r g, f.progress = .reached s → x f = (r, g) →
    ((∃ a, r = .ok a) ∧ g.progress = .reached t) ∨
      ∃ e, r = .error e ∧ e.stage.isTerminal = false ∧ g.progress = .reached e.stage

theorem Leads.bind {x : RunStep α} {k : α → RunStep β} (hx : x.Leads s t)
    (hk : ∀ a, (k a).Leads t u) : (x >>= k).Leads s u := by
  intro f r g hf h
  rcases bind_cases h with ⟨e, he, rfl⟩ | ⟨a, f₁, ha, hr⟩
  · rcases hx f _ _ hf he with ⟨⟨_, hok⟩, _⟩ | ⟨_, herror, hstage, hg⟩
    · cases hok
    · cases herror
      exact Or.inr ⟨e, rfl, hstage, hg⟩
  · rcases hx f _ _ hf ha with ⟨_, hf₁⟩ | ⟨_, herror, _⟩
    · exact hk a f₁ r g hf₁ hr
    · cases herror

/-- A step that reads the finder reads the stage that the run has come to. -/
theorem Leads.get_bind {k : Finder → RunStep β}
    (hk : ∀ f : Finder, f.progress.current = s → (k f).Leads s t) :
    ((get : RunStep Finder) >>= k).Leads s t := by
  intro f r g hf h
  exact hk f (by rw [hf, Progress.reached_current]) f r g hf h

/-- What is done after a check comes to its stage if a refusal is followed by the same. -/
theorem Leads.after_check {p : Prop} [Decidable p] {refusal : RunStep β} {x : RunStep α}
    (hrefusal : refusal.Leads s s) (hx : x.Leads s t) :
    (if p then refusal >>= fun _ => x else x).Leads s t := by
  split
  · exact hrefusal.bind fun _ => hx
  · exact hx

theorem leads_pure (a : α) : (pure a : RunStep α).Leads s s := by
  intro f r g hf h
  cases h
  exact Or.inl ⟨⟨a, rfl⟩, hf⟩

theorem leads_modify {change : Finder → Finder} (h : ∀ f, (change f).progress = f.progress) :
    (modify change : RunStep PUnit).Leads s s := by
  intro f r g hf hr
  cases hr
  exact Or.inl ⟨⟨_, rfl⟩, (h f).trans hf⟩

end RunStep

namespace Finder

open RunStep

/-- A run that ends at the stage that it has reached has a truthful progress. -/
theorem fail_tells {α : Type} {f : Finder} {e : FinderError} (h : e.stage.isTerminal = false)
    (hf : f.progress = .reached e.stage) :
    (f.fail e).progress.Tells (.error e : Except FinderError α) := by
  obtain ⟨before, hhistory, hprefix⟩ := Progress.reached_history h
  by_cases hfault : e.fault = .aborted
  · have hstopped : f.progress = ⟨e.stage, before ++ [e.stage], none⟩ := by
      rw [hf, ← hhistory]
      rfl
    rw [fail, if_pos hfault, hstopped]
    exact .stopped e before hfault hprefix
  · rw [fail, if_neg hfault, hf, Progress.fail, hhistory, List.append_assoc]
    exact .failure e before hfault hprefix

theorem leads_advance {s next : Stage} (h : next.predecessor? = some s) :
    (advance next).Leads s next := by
  intro f r g hf hr
  rw [advance_apply] at hr
  cases hr
  exact Or.inl ⟨⟨(), rfl⟩, by rw [hf, Progress.advance_reached h]⟩

/-! ### Steps that stay at a stage -/

section

variable {s : Stage} (hs : s.isTerminal = false)

include hs

theorem leads_failAt {α : Type} (fault : Fault) (reason : String) (t : Stage) :
    (failAt fault s reason : RunStep α).Leads s t := by
  intro f r g hf hr
  rw [failAt_apply] at hr
  cases hr
  exact Or.inr ⟨_, rfl, hs, hf⟩

theorem leads_callStore {α : Type} (call : VectorStore → VectorStore × Except StoreError α) :
    (callStore s call).Leads s s := by
  intro f r g hf hr
  obtain ⟨_, _, _, rfl, ⟨a, _, rfl⟩ | ⟨_, _, rfl⟩⟩ := callStore_cases hr
  · exact Or.inl ⟨⟨a, rfl⟩, hf⟩
  · exact Or.inr ⟨_, rfl, hs, hf⟩

theorem leads_accessState (c : RunConditions) (access : StateAccess) :
    (accessState c s access).Leads s s := by
  intro f r g hf hr
  obtain ⟨rfl, ⟨rfl, _⟩ | ⟨_, _, rfl⟩⟩ := accessState_cases hr
  · exact Or.inl ⟨⟨(), rfl⟩, hf⟩
  · exact Or.inr ⟨_, rfl, hs, hf⟩

theorem leads_clearAll (c : RunConditions) : (clearAll c).Leads s s := by
  refine .get_bind fun f hf => ?_
  rw [hf]
  exact (leads_callStore hs _).bind fun _ => (leads_accessState hs c _).bind fun _ =>
    leads_modify fun _ => rfl

theorem leads_commitFrom (c : RunConditions) (changes : List (FileState → FileState))
    (position : Nat) : (commitFrom c s position changes).Leads s s := by
  induction changes generalizing position with
  | nil => exact leads_pure _
  | cons change rest ih =>
    refine (leads_accessState hs c _).bind fun _ => Leads.bind ?_ fun _ => ih _
    exact leads_modify fun _ => rfl

theorem leads_commit (c : RunConditions) (records : List (String × FileRecord))
    (deleted : List String) : (commit c records deleted).Leads s s := by
  refine .get_bind fun f hf => ?_
  rw [hf]
  exact leads_commitFrom hs c _ _

theorem leads_describe (c : RunConditions) : (describe c).Leads s s := by
  intro f r g hf h
  rw [describe, get_bind, components] at h
  rcases hstats : f.store.stats c.stats c.usage with ⟨store, stats | cause⟩
  all_goals
    rw [hstats] at h
    cases h
  · exact Or.inr ⟨_, rfl, by rwa [hf], by rw [hf]; rfl⟩
  · exact Or.inl ⟨⟨_, rfl⟩, hf⟩

end

/-! ### Steps that go on to later stages -/

theorem leads_extractTargets (c : RunConditions) (files : List String) :
    (extractTargets c files).Leads .extractingSymbols .extractingSymbols := by
  intro f r g hf h
  obtain ⟨_, _, _, hprogress, ⟨e, rfl, hstage⟩ | rfl⟩ := extractTargets_cases h
  · exact Or.inr ⟨e, rfl, by rw [hstage]; rfl, by rw [hprogress, hf, hstage]⟩
  · exact Or.inl ⟨⟨_, rfl⟩, hprogress.trans hf⟩

theorem leads_embedSymbols (symbols : List Symbol) :
    (embedSymbols symbols).Leads .extractingSymbols .generatingEmbeddings := by
  refine (leads_advance rfl).bind fun _ => ?_
  intro f r g hf h
  rw [get_bind] at h
  rcases he : f.engine.embed (symbols.map Symbol.canonicalText) with ⟨engine, cause | vectors⟩
  all_goals
    rw [he] at h
    cases h
  · exact Or.inr ⟨_, rfl, rfl, hf⟩
  · exact Or.inl ⟨⟨_, rfl⟩, hf⟩

theorem leads_searchNeighbours (c : RunConditions) (symbols : List Symbol)
    (vectors : List Embedding) (threshold : Float32) :
    (searchNeighbours c symbols vectors threshold).Leads .generatingEmbeddings .findingDuplicates :=
  (leads_advance rfl).bind fun _ => (leads_callStore rfl _).bind fun _ =>
    (leads_advance rfl).bind fun _ => leads_callStore rfl _

theorem leads_detect (c : RunConditions) (symbols : List Symbol) (threshold : Option Float32) :
    (detect c symbols threshold).Leads .extractingSymbols .formattingResults := by
  refine .get_bind fun f hf => ?_
  dsimp only
  split
  · -- a threshold out of range is refused before anything is embedded
    rw [hf]
    exact (leads_failAt rfl _ _ .extractingSymbols).bind fun _ =>
      (leads_embedSymbols _).bind fun _ => (leads_searchNeighbours _ _ _ _).bind fun _ =>
        (leads_advance rfl).bind fun _ => leads_pure _
  · exact (leads_embedSymbols _).bind fun _ => (leads_searchNeighbours _ _ _ _).bind fun _ =>
      (leads_advance rfl).bind fun _ => leads_pure _

theorem leads_finishReport (c : RunConditions) (o : RunOptions) (d : Detection)
    (mode : AnalysisMode) (changedFiles : Option (List String)) :
    (finishReport c o d mode changedFiles).Leads .formattingResults .completed :=
  (leads_describe rfl c).bind fun _ => (leads_advance rfl).bind fun _ =>
    .get_bind fun _ _ => leads_pure _

theorem leads_indexFiles (c : RunConditions) (o : RunOptions) (files deleted : List String)
    (mode : AnalysisMode) (changedFiles : Option (List String)) :
    (indexFiles c o files deleted mode changedFiles).Leads .extractingSymbols .completed :=
  (leads_extractTargets _ _).bind fun _ => (leads_detect _ _ _).bind fun _ =>
    (leads_commit rfl _ _ _).bind fun _ => leads_finishReport _ _ _ _ _

theorem leads_purgeFrom (c : RunConditions) (position : Nat) (paths : List String) :
    (purgeFrom c position paths).Leads .extractingSymbols .extractingSymbols := by
  induction paths generalizing position with
  | nil => exact leads_pure _
  | cons path rest ih =>
    refine (leads_accessState rfl _ _).bind fun _ => .get_bind fun f _ => ?_
    cases f.fileState.get? path with
    | none => exact ih _
    | some record => exact (leads_callStore rfl _).bind fun _ => ih _

theorem leads_planChanged (c : RunConditions) :
    (planChanged c).Leads .extractingSymbols .extractingSymbols := by
  refine .get_bind fun f _ => ?_
  split
  · exact leads_failAt rfl _ _ _
  · exact (leads_accessState rfl c _).bind fun _ => leads_pure _

theorem leads_runPlan (c : RunConditions) (o : RunOptions) (plan : Plan) :
    (runPlan c o plan).Leads .extractingSymbols .completed :=
  .get_bind fun _ _ => (leads_purgeFrom _ _ _).bind fun _ => leads_indexFiles _ _ _ _ _ _

/-! ### Whole runs -/

/-- The progress of a run whose work goes through all stages tells how the run has ended. -/
theorem told_running {α : Type} {work : RunStep α}
    (h : work.Leads .extractingSymbols .completed) : (running work).Told := by
  intro f
  obtain ⟨f₁, hf₁, hstart⟩ : ∃ f₁ : Finder, f₁.progress = .reached .extractingSymbols ∧
      { f with progress := Progress.advance {} .extractingSymbols } = f₁ := ⟨_, rfl, rfl⟩
  rw [running, hstart]
  rcases hw : work f₁ with ⟨r, g⟩
  rcases h f₁ r g hf₁ hw with ⟨⟨a, rfl⟩, hg⟩ | ⟨e, rfl, hstage, hg⟩
  · dsimp only
    rw [hg]
    exact .success a
  · exact fail_tells hstage hg

theorem told_analyze (c : RunConditions) (o : RunOptions) (top : String)
    (patterns : List String) : (analyze c o top patterns).Told := by
  refine told_running (.get_bind fun f _ => .after_check (leads_failAt rfl _ _ _) ?_)
  refine (leads_clearAll rfl c).bind fun _ => ?_
  split
  · exact leads_failAt rfl _ _ _
  · exact leads_indexFiles _ _ _ _ _ _

theorem told_analyzeChanges (c : RunConditions) (o : RunOptions) (files : Option (List String)) :
    (analyzeChanges c o files).Told := by
  refine .get_bind fun f => ?_
  cases files with
  | some files => exact told_running (leads_runPlan _ _ _)
  | none =>
    dsimp only
    split
    · exact told_running ((leads_planChanged c).bind fun _ => leads_runPlan _ _ _)
    · exact told_analyze _ _ _ _

theorem told_findDuplicates (c : RunConditions) (symbols : List Symbol)
    (threshold : Option Float32) : (findDuplicates c symbols threshold).Told :=
  told_running <| (leads_detect _ _ _).bind fun _ => (leads_advance rfl).bind fun _ =>
    leads_pure _

/-- Whatever fails in a run, and in whatever state the finder is, the progress tells how the run has
ended: after a success it lists all stages in their order, and after a failure those that were gone
through, the last one being that of the failure, then the end and its reason. -/
theorem progress_tells (c : RunConditions) :
    (∀ symbols threshold, (findDuplicates c symbols threshold).Told) ∧
      (∀ o top patterns, (analyze c o top patterns).Told) ∧
        ∀ o files, (analyzeChanges c o files).Told :=
  ⟨told_findDuplicates c, told_analyze c, told_analyzeChanges c⟩

end Finder

end CodeClones
