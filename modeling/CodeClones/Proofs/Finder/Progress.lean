import CodeClones.Proofs.Finder.Stages

/-!
# Progress under any calls

Whoever holds the progress of a run may ask for any stage and report any failure, in any order. Only
the stage that follows in the course is taken up, and none after a failure. So the history starts
with the course up to some stage and ends with the failures.
-/

namespace CodeClones.Progress

/-- A call that may change the progress of a run. -/
inductive Move where
  | advance (next : Stage)
  | fail (reason : String)
  deriving DecidableEq, Repr

namespace Move

/-- The progress after the call. -/
def apply (p : Progress) : Move → Progress
  | advance next => p.advance next
  | fail reason => p.fail reason

/-- Why the run has failed, if the call says so. -/
def reason? : Move → Option String
  | advance _ => none
  | fail reason => some reason

end Move

/-- The progress after some calls. -/
def after (p : Progress) (moves : List Move) : Progress := moves.foldl Move.apply p

/-- The reasons of the failures among some calls. -/
def reasons (moves : List Move) : List String := moves.filterMap Move.reason?

theorem after_append (p : Progress) (moves more : List Move) :
    p.after (moves ++ more) = (p.after moves).after more := List.foldl_append

/-! ## Failures -/

section

variable (p : Progress) (causes : List String)

theorem current_foldl_fail :
    (causes.foldl fail p).current = if causes = [] then p.current else .failed := by
  induction causes generalizing p with
  | nil => rfl
  | cons cause causes ih =>
    rw [List.foldl_cons, ih, fail, ite_self, if_neg (List.cons_ne_nil _ _)]

theorem history_foldl_fail :
    (causes.foldl fail p).history = p.history ++ List.replicate causes.length .failed := by
  induction causes generalizing p with
  | nil => exact (List.append_nil _).symm
  | cons cause causes ih =>
    rw [List.foldl_cons, ih, fail, List.append_assoc, List.length_cons, List.replicate_succ]
    rfl

theorem failure_foldl_fail :
    (causes.foldl fail p).failure = causes.getLast?.or p.failure := by
  induction causes generalizing p with
  | nil => rfl
  | cons cause causes ih =>
    rw [List.foldl_cons, ih, fail, List.getLast?_cons]
    cases causes.getLast? <;> rfl

end

/-! ## The course -/

/-- No stage comes after a failure. -/
theorem advance_of_failed {p : Progress} (h : p.current = .failed) (next : Stage) :
    p.advance next = p := by
  have hnext : next.predecessor? ≠ some p.current := by
    rw [h]
    cases next <;> exact nofun
  exact if_neg hnext

theorem mem_course_of_predecessor? {next s : Stage} (h : next.predecessor? = some s) :
    next ∈ Stage.course := by
  cases next <;> simp [Stage.predecessor?, Stage.course] at h ⊢

/-- A stage goes on with the course exactly if it follows the one that was reached. -/
theorem reached_history_append_prefix_iff {s next : Stage} :
    (reached s).history ++ [next] <+: Stage.course ↔ next.predecessor? = some s := by
  cases s <;> cases next <;> decide

theorem reached_history_ne_nil {s : Stage} : (reached s).history ≠ [] := by
  cases s <;> decide

theorem getLast?_reached_history {s : Stage} (hs : s ∈ Stage.course) :
    (reached s).history.getLast? = some s := by
  cases s <;> first | rfl | exact absurd hs (by decide)

/-- From a stage of the course, a run comes to the stage that it is called to exactly if that goes
on with the course, or is the same. -/
theorem current_advance_reached_iff {s next : Stage} :
    ((reached s).advance next).current = next ↔
      next = s ∨ (reached s).history ++ [next] <+: Stage.course := by
  rw [reached_history_append_prefix_iff]
  by_cases hnext : next.predecessor? = some s
  · rw [advance_reached hnext]
    exact iff_of_true rfl (.inr hnext)
  · have hstays : (reached s).advance next = reached s := if_neg hnext
    rw [hstays, or_iff_left hnext, eq_comm, reached_current]

/-- A history that ends with a failure does not go on with the course. -/
theorem not_append_prefix_of_failed {passed : List Stage} {n : Nat} (hn : n ≠ 0) (next : Stage) :
    ¬passed ++ List.replicate n .failed ++ [next] <+: Stage.course := by
  intro h
  have hmem : Stage.failed ∈ Stage.course := h.subset (by simp [hn])
  exact absurd hmem (by decide)

/-! ## Any calls -/

theorem reasons_append (moves more : List Move) :
    reasons (moves ++ more) = reasons moves ++ reasons more := List.filterMap_append

/-- Whatever is called, the progress is that of a run which came to a stage of the course and then
failed as often as failures were reported. -/
theorem exists_reached (moves : List Move) :
    ∃ s ∈ Stage.course, after {} moves = (reasons moves).foldl fail (reached s) := by
  induction moves using List.reverseRecOn with
  | nil => exact ⟨.initializing, by decide, rfl⟩
  | append_singleton moves move ih =>
    obtain ⟨s, hs, hafter⟩ := ih
    rw [after_append, hafter, reasons_append]
    cases move with
    | fail reason =>
      refine ⟨s, hs, ?_⟩
      rw [List.foldl_append]
      rfl
    | advance next =>
      have hreasons : reasons moves ++ reasons [.advance next] = reasons moves := List.append_nil _
      rw [hreasons]
      by_cases hfailed : reasons moves = []
      · rw [hfailed]
        by_cases hnext : next.predecessor? = some s
        · exact ⟨next, mem_course_of_predecessor? hnext, advance_reached hnext⟩
        · exact ⟨s, hs, if_neg hnext⟩
      · refine ⟨s, hs, advance_of_failed ?_ next⟩
        rw [current_foldl_fail, if_neg hfailed]

/-- A run has failed exactly if a failure was reported. -/
theorem current_after_eq_failed_iff (moves : List Move) :
    (after {} moves).current = .failed ↔ reasons moves ≠ [] := by
  obtain ⟨s, hs, hafter⟩ := exists_reached moves
  rw [hafter, current_foldl_fail]
  split
  · rename_i hnone
    refine iff_of_false ?_ (not_not.mpr hnone)
    rintro rfl
    exact absurd hs (by decide)
  · rename_i hsome
    exact iff_of_true rfl hsome

/-- After any calls, the history is a beginning of the course with one entry for every reported
failure behind it. Its last entry is the present stage, and the last failure gives the reason. A
stage that is asked for is taken up exactly if it goes on with the course, or is the present one
anyway, and nothing takes a run up again that has failed. -/
theorem history_after (moves : List Move) :
    (∃ passed, passed ≠ [] ∧ passed <+: Stage.course ∧
        (after {} moves).history =
          passed ++ List.replicate (reasons moves).length .failed) ∧
      (after {} moves).history.getLast? = some (after {} moves).current ∧
      (after {} moves).failure = (reasons moves).getLast? ∧
      (∀ next, (after {} (moves ++ [.advance next])).current = next ↔
        next = (after {} moves).current ∨
          (after {} moves).history ++ [next] <+: Stage.course) ∧
      ∀ more, (after {} moves).current = .failed →
        (after {} (moves ++ more)).current = .failed := by
  obtain ⟨s, hs, hafter⟩ := exists_reached moves
  have hcurrent := current_foldl_fail (reached s) (reasons moves)
  have hhistory := history_foldl_fail (reached s) (reasons moves)
  rw [← hafter] at hcurrent hhistory
  refine ⟨⟨_, reached_history_ne_nil, List.take_prefix _ _, hhistory⟩, ?_, ?_, fun next => ?_,
    fun more hfailed => ?_⟩
  · rw [hhistory, hcurrent]
    by_cases hnone : reasons moves = []
    · simp [hnone, getLast?_reached_history hs]
    · simp [hnone, List.getLast?_append, List.getLast?_replicate]
  · rw [hafter, failure_foldl_fail]
    exact Option.or_none
  · have hnext : after {} (moves ++ [.advance next]) = (after {} moves).advance next :=
      after_append {} moves _
    rw [hnext]
    by_cases hnone : reasons moves = []
    · have hreached : after {} moves = reached s := by rw [hafter, hnone]; rfl
      rw [hreached]
      exact current_advance_reached_iff
    · rw [if_neg hnone] at hcurrent
      have hlength : (reasons moves).length ≠ 0 := mt List.length_eq_zero_iff.mp hnone
      rw [advance_of_failed hcurrent, hhistory, hcurrent,
        or_iff_left (not_append_prefix_of_failed hlength next), eq_comm]
  · rw [current_after_eq_failed_iff] at hfailed ⊢
    rw [reasons_append]
    exact List.append_ne_nil_of_left_ne_nil hfailed _

/-- A run that skips a stage, repeats one, fails twice and is asked to go on. -/
def restless : List Move := [.advance .extractingSymbols, .advance .buildingIndex,
  .advance .extractingSymbols, .fail "disk on fire", .advance .generatingEmbeddings, .fail "again"]

theorem history_after_restless :
    (after {} restless).current = .failed ∧
      (after {} restless).history = [.initializing, .extractingSymbols, .failed, .failed] ∧
      (after {} restless).failure = some "again" ∧
      (after {} (restless ++ [.advance .completed])).current = .failed := by
  obtain ⟨-, -, hfailure, -, hstays⟩ := history_after restless
  exact ⟨by decide, by decide, hfailure.trans rfl, hstays [.advance .completed] (by decide)⟩

end CodeClones.Progress
