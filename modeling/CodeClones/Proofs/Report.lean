import CodeClones.Report.Basic
import Mathlib.Data.List.Forall2
import Mathlib.Data.List.Nodup

/-!
# What a report tells of its duplicates

The comparison, the reason and the severity of a duplicate come from two cascades over one score,
and the findings are counted by their severities only. Both cascades ask for the same cutoffs in the
same order, so that the counts of severities are counts of comparisons, too, whatever the scores
are, and also if a score is not a number.
-/

namespace CodeClones

/-- The duplicates of some pairs of symbols with their scores. -/
def duplicatesOf (t : Thresholds) (pairs : List (Symbol × Symbol × Float32)) : List Duplicate :=
  pairs.map fun (a, b, score) => Duplicate.make a b score t

/-! ## Identifiers of findings -/

/-- The number that a position with at least four digits stands for. -/
theorem ofDigitChars_fourDigits (n : Nat) : Nat.ofDigitChars 10 (fourDigits n).toList 0 = n := by
  have hzeros : ∀ k : Nat, Nat.ofDigitChars 10 (List.replicate k '0') 0 = 0 := by
    intro k
    induction k with
    | zero => rfl
    | succ k ih =>
      rw [List.replicate_succ, Nat.ofDigitChars_cons]
      exact ih
  rw [fourDigits, String.toList_append, Decimal.zeros, String.toList_ofList,
    Nat.ofDigitChars_append, hzeros]
  change Nat.ofDigitChars 10 n.repr.toList 0 = n
  rw [Nat.toList_repr, Nat.ofDigitChars_toDigits (by decide) (by decide)]

/-- Two positions are never written alike, also where four digits are not enough. -/
theorem fourDigits_injective : Function.Injective fourDigits := by
  intro m n h
  have hvalue := congrArg (fun s => Nat.ofDigitChars 10 s.toList 0) h
  simpa only [ofDigitChars_fourDigits] using hvalue

example : fourDigits 7 = "0007" ∧ fourDigits 12345 = "12345" := by decide

namespace Finding

/-- A finding shows a pair of symbols with their score. -/
structure Presents (whole : Bool) (pair : Symbol × Symbol × Float32) (f : Finding) : Prop where
  file : f.filePath = pair.1.filePath
  line : f.lineNumber = pair.1.lineNumber
  first : f.evidence.a = pair.1.toEvidence whole
  second : f.evidence.b = pair.2.1.toEvidence whole
  score : f.evidence.score = pair.2.2

/-- The severity of a finding, its comparison and its reason tell the same of the score. -/
structure Agrees (f : Finding) : Prop where
  critical : f.severity = .critical ↔ f.evidence.comparison = .exactMatch
  high : f.severity = .high ↔ f.evidence.comparison = .semanticSimilarity
  copied : f.evidence.reason = .copyPasteError ↔
    f.severity = .high ∧ f.evidence.a.filePath ≠ f.evidence.b.filePath

end Finding

section Classified

variable (a b : Symbol) (score : Float32) (t : Thresholds) (position : Nat) (whole : Bool)

theorem presents_toFinding :
    ((Duplicate.make a b score t).toFinding position whole).Presents whole (a, b, score) :=
  ⟨rfl, rfl, rfl, rfl, rfl⟩

/-- Both cascades take the first cutoff that the score reaches. -/
theorem agrees_toFinding : ((Duplicate.make a b score t).toFinding position whole).Agrees := by
  have hclass : ∀ sameFile : Bool,
      (severityOf score t = .critical ↔ (classify score sameFile t).1 = .exactMatch) ∧
      (severityOf score t = .high ↔ (classify score sameFile t).1 = .semanticSimilarity) ∧
      ((classify score sameFile t).2 = .copyPasteError ↔
        severityOf score t = .high ∧ sameFile = false) := by
    intro sameFile
    unfold severityOf classify
    by_cases hexact : t.exact ≤ score
    · simp [hexact]
    · by_cases hhigh : t.high ≤ score
      · cases sameFile <;> simp [hexact, hhigh]
      · by_cases hmedium : t.medium ≤ score
        · simp [hexact, hhigh, hmedium]
        · simp [hexact, hhigh, hmedium]
  obtain ⟨hcritical, hhigh, hcopied⟩ := hclass (a.filePath == b.filePath)
  refine ⟨hcritical, hhigh, hcopied.trans (and_congr_right fun _ => ?_)⟩
  rw [beq_eq_false_iff_ne]
  exact Iff.rfl

end Classified

namespace Report

/-- Every finding has one severity. -/
theorem total_countsOf (findings : List Finding) :
    (countsOf findings).critical + (countsOf findings).high + (countsOf findings).medium +
      (countsOf findings).low = findings.length := by
  simp only [countsOf]
  induction findings with
  | nil => rfl
  | cons f findings ih =>
    simp only [List.countP_cons, List.length_cons]
    cases f.severity <;> simp <;> omega

/-- Every finding has one comparison. -/
theorem total_comparisons (findings : List Finding) :
    (findings.countP fun f => f.evidence.comparison == .exactMatch) +
      (findings.countP fun f => f.evidence.comparison == .semanticSimilarity) +
      (findings.countP fun f => f.evidence.comparison == .structuralSimilarity) =
        findings.length := by
  induction findings with
  | nil => rfl
  | cons f findings ih =>
    simp only [List.countP_cons, List.length_cons]
    cases f.evidence.comparison <;> simp <;> omega

/-- A report shows some pairs of symbols one after the other, each under an identifier of its own,
and counts them by their severities as by their comparisons. -/
structure Tells (r : Report) (whole : Bool) (pairs : List (Symbol × Symbol × Float32)) : Prop where
  presents : List.Forall₂ (Finding.Presents whole) pairs r.findings
  apart : (r.findings.map Finding.id).Nodup
  total : r.total = pairs.length
  sum : r.total = r.counts.critical + r.counts.high + r.counts.medium + r.counts.low
  critical : r.counts.critical =
    r.findings.countP fun f => f.evidence.comparison == .exactMatch
  high : r.counts.high = r.findings.countP fun f => f.evidence.comparison == .semanticSimilarity
  rest : r.counts.medium + r.counts.low =
    r.findings.countP fun f => f.evidence.comparison == .structuralSimilarity
  copied : ∀ f ∈ r.findings, f.evidence.reason = .copyPasteError ↔
    f.severity = .high ∧ f.evidence.a.filePath ≠ f.evidence.b.filePath

variable (t : Thresholds) (pairs : List (Symbol × Symbol × Float32)) (context : RunContext)
  (whole : Bool)

private theorem findings_make : (make (duplicatesOf t pairs) context whole).findings =
    pairs.zipIdx.map fun p =>
      (Duplicate.make p.1.1 p.1.2.1 p.1.2.2 t).toFinding p.2 whole := by
  change ((duplicatesOf t pairs).mapIdx fun i d => d.toFinding i whole) = _
  rw [List.mapIdx_eq_zipIdx_map, duplicatesOf, List.zipIdx_map, List.map_map]
  rfl

private theorem presents_make :
    List.Forall₂ (Finding.Presents whole) pairs
      (make (duplicatesOf t pairs) context whole).findings := by
  rw [findings_make, List.forall₂_map_right_iff]
  refine List.forall₂_iff_get.mpr ⟨by simp, fun i h₁ h₂ => ?_⟩
  simp only [List.get_eq_getElem, List.getElem_zipIdx]
  exact presents_toFinding ..

private theorem agrees_make : ∀ f ∈ (make (duplicatesOf t pairs) context whole).findings,
    f.Agrees := by
  rw [findings_make]
  rintro _ hf
  obtain ⟨⟨⟨a, b, score⟩, i⟩, -, rfl⟩ := List.mem_map.mp hf
  exact agrees_toFinding a b score t i whole

/-- The identifiers tell the positions of findings. -/
private theorem nodup_ids_make :
    ((make (duplicatesOf t pairs) context whole).findings.map Finding.id).Nodup := by
  have hids : (make (duplicatesOf t pairs) context whole).findings.map Finding.id =
      (List.range pairs.length).map fun i => "duplicate_" ++ fourDigits i := by
    rw [findings_make, List.map_map, List.range_eq_range', ← List.zipIdx_map_snd 0 pairs,
      List.map_map]
    rfl
  rw [hids]
  refine List.Nodup.map (fun i j hij => fourDigits_injective ?_) List.nodup_range
  have hlist := congrArg String.toList hij
  rw [String.toList_append, String.toList_append] at hlist
  exact String.toList_inj.mp (List.append_cancel_left hlist)

/-- A report of classified pairs tells all of them. -/
theorem make_tells : (make (duplicatesOf t pairs) context whole).Tells whole pairs := by
  have hpresents := presents_make t pairs context whole
  have hagrees := agrees_make t pairs context whole
  have hapart := nodup_ids_make t pairs context whole
  set r := make (duplicatesOf t pairs) context whole with hr
  have hcounts : r.counts = countsOf r.findings := rfl
  have hcritical : r.counts.critical =
      r.findings.countP fun f => f.evidence.comparison == .exactMatch := by
    rw [hcounts]
    exact List.countP_congr fun f hf => by simpa using (hagrees f hf).critical
  have hhigh : r.counts.high =
      r.findings.countP fun f => f.evidence.comparison == .semanticSimilarity := by
    rw [hcounts]
    exact List.countP_congr fun f hf => by simpa using (hagrees f hf).high
  have hsum : r.total = r.counts.critical + r.counts.high + r.counts.medium + r.counts.low :=
    (total_countsOf r.findings).symm
  refine ⟨hpresents, hapart, hpresents.length_eq.symm, hsum, hcritical, hhigh, ?_,
    fun f hf => (hagrees f hf).copied⟩
  have hall := total_comparisons r.findings
  change r.findings.length = _ at hsum
  omega

end Report

end CodeClones
