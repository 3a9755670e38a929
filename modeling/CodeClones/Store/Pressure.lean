import CodeClones.Word

/-!
# Memory pressure

The share of memory in use, in percent, sets how many queries are run together: the higher it is, the
fewer.
-/

namespace CodeClones

/-- How scarce memory is. -/
inductive MemoryPressure where
  | normal
  | warning
  | throttle
  | critical
  deriving DecidableEq, Repr

namespace MemoryPressure

/-- The name of a pressure. -/
def name : MemoryPressure → String
  | normal => "normal"
  | warning => "warning"
  | throttle => "throttle"
  | critical => "critical"

/-- The pressure at a share of memory in use. -/
def ofUsage (percent : Float) : MemoryPressure :=
  if 95 ≤ percent then critical
  else if 85 ≤ percent then throttle
  else if 75 ≤ percent then warning
  else normal

/-- The number of queries that are run together, instead of `base` without pressure. -/
def batchSize (p : MemoryPressure) (base : Nat) : Except Abort Nat :=
  let base := max base 1
  let adjusted : Except Abort Nat := match p with
    | normal => .ok base
    | warning => (word .product (base * 3)).map (· / 4)
    | throttle => .ok (base / 2)
    | critical => .ok (min base 5)
  adjusted.map (max · 1)

private theorem one_le_of_map {adjusted : Except Abort Nat} {size : Nat}
    (h : adjusted.map (max · 1) = .ok size) : 1 ≤ size := by
  cases adjusted with
  | error cause => cases h
  | ok n =>
    cases h
    exact Nat.le_max_right ..

/-- At least one query is run. -/
theorem one_le_of_batchSize {p : MemoryPressure} {base size : Nat}
    (h : p.batchSize base = .ok size) : 1 ≤ size :=
  one_le_of_map h

end MemoryPressure

/-- The most permits that a semaphore has room for. -/
def maxPermits : Nat := (UInt64.size - 1) / 8

/-- The number of queries that run at the same time, of `requested` ones. -/
def concurrencyCeiling (percent : Float) (requested : Nat) : Nat :=
  let requested := max requested 1
  if 80 < percent then min requested 2 else requested

end CodeClones
