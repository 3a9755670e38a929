import CodeClones.Proofs.DoubleOrder
import CodeClones.Store.Pressure

/-!
# What memory pressure takes away

Pressure rises with the share of memory in use, and the number of queries at the same time falls.
The number of queries run together is never more than without pressure, but it does not always fall
when pressure rises: the cap of the highest pressure lies above half of a small base. Three times a
large base leaves the word, and there is no such number then.
-/

namespace CodeClones

namespace MemoryPressure

/-- How high a pressure is. -/
def level : MemoryPressure → Nat
  | normal => 0
  | warning => 1
  | throttle => 2
  | critical => 3

/-- A usage at which a pressure is reached. -/
def usage : MemoryPressure → Float
  | normal => 50
  | warning => 80
  | throttle => 90
  | critical => 99

theorem ofUsage_usage (p : MemoryPressure) : ofUsage p.usage = p := by
  cases p <;> decide +kernel

theorem usage_le_usage {p q : MemoryPressure} (h : p.level ≤ q.level) : p.usage ≤ q.usage := by
  cases p <;> cases q <;> first | decide +kernel | exact absurd h (by decide)

/-- More memory in use is no lower pressure. -/
theorem level_ofUsage_le {u v : Float} (h : u ≤ v) : (ofUsage u).level ≤ (ofUsage v).level := by
  have hreached : ∀ {limit : Float}, limit ≤ u → limit ≤ v := fun hu => Double.le_trans hu h
  rw [ofUsage]
  split
  · rename_i hcritical
    rw [ofUsage, if_pos (hreached hcritical)]
  · split
    · rename_i hthrottle
      rw [ofUsage, if_pos (hreached hthrottle)]
      split <;> decide
    · split
      · rename_i hwarning
        rw [ofUsage, if_pos (hreached hwarning)]
        split
        · decide
        · split <;> decide
      · exact Nat.zero_le _

theorem level_ofUsage_lt {u : Float} (h : u < 95) : (ofUsage u).level < critical.level := by
  rw [ofUsage, if_neg (Double.not_le_of_lt h)]
  split
  · decide
  · split <;> decide

variable {p q : MemoryPressure} {base : Nat}

theorem eq_critical_of_not_lt (h : ¬p.level < critical.level) : p = critical := by
  cases p <;> first | rfl | exact absurd (by decide) h

/-- What a pressure leaves of a base: three quarters, a half, or at most five, and at least one. -/
def share : MemoryPressure → Nat → Nat
  | normal, base => base
  | warning, base => max 1 (3 * base / 4)
  | throttle, base => max 1 (base / 2)
  | critical, base => min base 5

/-- Whether what a pressure leaves of a base can be computed in a word. -/
def Computable (p : MemoryPressure) (base : Nat) : Prop := p = warning → 3 * base < UInt64.size

theorem batchSize_of_computable (h : p.Computable base) :
    p.batchSize base = .ok (max 1 (p.share base)) := by
  cases p with
  | normal => exact congrArg Except.ok (by simp only [share]; omega)
  | throttle => exact congrArg Except.ok (by simp only [share]; omega)
  | critical => exact congrArg Except.ok (by simp only [share]; omega)
  | warning =>
    have hword : max base 1 * 3 < UInt64.size := by
      have htriple := h rfl
      rw [UInt64.size] at htriple ⊢
      omega
    simp only [batchSize, word_of_lt hword]
    exact congrArg Except.ok (by simp only [share]; omega)

/-- Otherwise the program stops at the product. -/
theorem batchSize_of_not_computable (h : ¬p.Computable base) :
    p.batchSize base = .error .product := by
  obtain ⟨rfl, hword⟩ := Classical.not_imp.mp h
  have hleft : UInt64.size ≤ max base 1 * 3 := by omega
  simp only [batchSize, word_of_le hleft]
  rfl

theorem batchSize_eq_ok_iff {size : Nat} :
    p.batchSize base = .ok size ↔ p.Computable base ∧ size = max 1 (p.share base) := by
  by_cases h : p.Computable base
  · rw [batchSize_of_computable h, Except.ok.injEq, eq_comm, and_iff_right h]
  · rw [batchSize_of_not_computable h]
    exact iff_of_false nofun fun hsize => h hsize.1

/-- Pressure never adds queries. -/
theorem share_le (p : MemoryPressure) (base : Nat) : max 1 (p.share base) ≤ max 1 base := by
  cases p <;> simp only [share] <;> omega

/-- Below the highest pressure there are no more queries where pressure rises. -/
theorem share_le_share (h : p.level ≤ q.level) (hq : q.level < critical.level) :
    max 1 (q.share base) ≤ max 1 (p.share base) := by
  cases p <;> cases q <;> simp only [level] at h hq <;> simp only [share] <;> omega

/-- The step into the highest pressure adds queries exactly if the cap is more than half of them. -/
theorem critical_le_throttle_iff :
    max 1 (critical.share base) ≤ max 1 (throttle.share base) ↔ base ≤ 1 ∨ 10 ≤ base := by
  simp only [share]
  omega

/-- The bases for which pressure never adds queries. -/
theorem batchSize_antitone_iff : (∀ (p q : MemoryPressure) (m n : Nat), p.level ≤ q.level →
    p.batchSize base = .ok m → q.batchSize base = .ok n → n ≤ m) ↔ base ≤ 1 ∨ 10 ≤ base := by
  constructor
  · intro h
    exact critical_le_throttle_iff.mp (h throttle critical _ _ (by decide)
      (batchSize_of_computable nofun) (batchSize_of_computable nofun))
  · intro h p q m n hlevel hm hn
    obtain ⟨-, rfl⟩ := batchSize_eq_ok_iff.mp hm
    obtain ⟨-, rfl⟩ := batchSize_eq_ok_iff.mp hn
    by_cases hq : q.level < critical.level
    · exact share_le_share hlevel hq
    · cases eq_critical_of_not_lt hq
      by_cases hp : p.level < critical.level
      · exact (critical_le_throttle_iff.mpr h).trans
          (share_le_share (Nat.le_of_lt_succ hp) (by decide))
      · cases eq_critical_of_not_lt hp
        exact Nat.le_refl _

end MemoryPressure

section

variable {u v : Float} {requested : Nat}

theorem concurrencyCeiling_antitone (h : u ≤ v) :
    concurrencyCeiling v requested ≤ concurrencyCeiling u requested := by
  rw [concurrencyCeiling, concurrencyCeiling]
  by_cases hu : 80 < u
  · rw [if_pos hu, if_pos (Double.lt_of_lt_of_le hu h)]
  · rw [if_neg hu]
    split
    · exact Nat.min_le_left ..
    · exact Nat.le_refl _

/-- There is a number of queries run together at every usage, a number or not, unless it is computed
from a product that leaves the word. It is at least one and no more than asked for, as is the number
of queries at the same time. More memory in use never means more queries at the same time. Nor does
it mean more queries run together for any two usages if and only if the base is at most one or at
least ten; and below the highest pressure it does not for any base. -/
theorem pressure_eases (base requested : Nat) :
    (∀ u, (∃ size, (MemoryPressure.ofUsage u).batchSize base = .ok size) ↔
      (MemoryPressure.ofUsage u = .warning → 3 * base < UInt64.size)) ∧
    (∀ u size, (MemoryPressure.ofUsage u).batchSize base = .ok size →
      1 ≤ size ∧ size ≤ max 1 base) ∧
    (∀ u, 1 ≤ concurrencyCeiling u requested ∧ concurrencyCeiling u requested ≤ max 1 requested) ∧
    (∀ u v, u ≤ v → concurrencyCeiling v requested ≤ concurrencyCeiling u requested) ∧
    ((∀ u v m n, u ≤ v → (MemoryPressure.ofUsage u).batchSize base = .ok m →
        (MemoryPressure.ofUsage v).batchSize base = .ok n → n ≤ m) ↔ base ≤ 1 ∨ 10 ≤ base) ∧
    (∀ u v m n, u ≤ v → v < 95 → (MemoryPressure.ofUsage u).batchSize base = .ok m →
      (MemoryPressure.ofUsage v).batchSize base = .ok n → n ≤ m) := by
  refine ⟨fun u => ?_, fun u size hsize => ?_, fun u => ?_, fun u v => concurrencyCeiling_antitone,
    ?_, fun u v m n h hv hm hn => ?_⟩
  · simp only [MemoryPressure.batchSize_eq_ok_iff, exists_and_left, exists_eq, and_true]
    exact Iff.rfl
  · obtain ⟨-, rfl⟩ := MemoryPressure.batchSize_eq_ok_iff.mp hsize
    exact ⟨Nat.le_max_left .., MemoryPressure.share_le ..⟩
  · rw [concurrencyCeiling]
    split <;> omega
  · rw [← MemoryPressure.batchSize_antitone_iff]
    constructor
    · intro h p q m n hlevel hm hn
      rw [← MemoryPressure.ofUsage_usage p] at hm
      rw [← MemoryPressure.ofUsage_usage q] at hn
      exact h p.usage q.usage m n (MemoryPressure.usage_le_usage hlevel) hm hn
    · exact fun h u v m n hle => h _ _ m n (MemoryPressure.level_ofUsage_le hle)
  · obtain ⟨-, rfl⟩ := MemoryPressure.batchSize_eq_ok_iff.mp hm
    obtain ⟨-, rfl⟩ := MemoryPressure.batchSize_eq_ok_iff.mp hn
    exact MemoryPressure.share_le_share (MemoryPressure.level_ofUsage_le h)
      (MemoryPressure.level_ofUsage_lt hv)

end

end CodeClones
