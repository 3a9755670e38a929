import CodeClones.Config.Workspace
import CodeClones.Proofs.SingleOrder
import CodeClones.Proofs.Text
import Mathlib.Data.List.Basic

/-!
# Normal configurations

A normal configuration has positive limits, ascending kinds, and names and patterns without blanks
around them. Normalization makes a configuration normal but for its limits, which are then checked,
and leaves a normal one as it is.
-/

namespace CodeClones

namespace Text

end Text

open Text

section Kinds

variable {k l : Kind} {ks : List Kind}

/-- Kinds in the order of listings, each once. -/
def Kind.Ascending (ks : List Kind) : Prop := ks.Pairwise fun k l => k.rank < l.rank

end Kinds

/-- Cutoffs from 0 to 1, each above the one before it. -/
structure Thresholds.Ascending (t : Thresholds) : Prop where
  zero_le_low : 0 ≤ t.low
  low_lt_medium : t.low < t.medium
  medium_lt_high : t.medium < t.high
  high_lt_exact : t.high < t.exact
  exact_le_one : t.exact ≤ 1

theorem Thresholds.ascending (t : Thresholds) : t.Ascending := by
  have hvalid := t.valid
  simp only [isLadder, inUnitRange, Bool.and_eq_true, decide_eq_true_eq] at hvalid
  obtain ⟨⟨⟨⟨⟨⟨⟨hlow, -⟩, -⟩, -⟩, -, hexact⟩, hlowMedium⟩, hmediumHigh⟩, hhighExact⟩ := hvalid
  exact ⟨hlow, hlowMedium, hmediumHigh, hhighExact, hexact⟩

namespace Config

variable {c : Config}

end Config

end CodeClones
