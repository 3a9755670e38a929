/-!
# Machine words

What comes from outside, such as a limit of a configuration or a line that a language server reports,
is computed with in words of 64 bits. Where a result leaves its word the program stops, and nobody
gets an answer.
-/

namespace CodeClones

/-- Why the program stops in the middle of a call. -/
inductive Abort where
  /-- A sum leaves its word. -/
  | sum
  /-- A product leaves its word. -/
  | product
  /-- A semaphore has no room for so many permits. -/
  | permits
  deriving DecidableEq, Repr

/-- The text that the program stops with. -/
def Abort.message : Abort → String
  | sum => "attempt to add with overflow"
  | product => "attempt to multiply with overflow"
  | permits =>
    "a semaphore may not have more than MAX_PERMITS permits (2305843009213693951)"

/-- A result that must not leave its word. -/
def word (cause : Abort) (n : Nat) : Except Abort Nat :=
  if n < UInt64.size then .ok n else .error cause

theorem word_of_lt {cause : Abort} {n : Nat} (h : n < UInt64.size) : word cause n = .ok n :=
  if_pos h

theorem word_of_le {cause : Abort} {n : Nat} (h : UInt64.size ≤ n) : word cause n = .error cause :=
  if_neg (Nat.not_lt.mpr h)

end CodeClones
