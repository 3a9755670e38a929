/-!
# Caches of answers

An entry is used until it is older than the time to live. A full cache makes room for a new key by
dropping a quarter of its entries, the least used ones and of these the oldest. Times are counted in
microseconds.
-/

namespace CodeClones

/-- An answer with the time when it was stored and the number of times it was used. -/
structure CacheEntry (α : Type) where
  key : String
  results : α
  storedAt : Nat
  uses : Nat := 0

/-- Answers by keys. -/
structure Cache (α : Type) where
  maxEntries : Nat
  timeToLive : Nat
  entries : List (CacheEntry α) := []
  hits : Nat := 0
  misses : Nat := 0
  evictions : Nat := 0

/-- What a report says about a cache. -/
structure CacheStats where
  entries : Nat
  maxEntries : Nat
  ttlSecs : Nat
  hits : Nat
  misses : Nat
  evictions : Nat
  deriving DecidableEq, Repr

/-- The number of units of time in a second. -/
def ticksPerSecond : Nat := 1000000

/-- The order in which entries make room: the least used first, then the oldest. -/
def CacheEntry.before (a b : CacheEntry α) : Bool :=
  a.uses < b.uses || (a.uses == b.uses &&
    (a.storedAt < b.storedAt || (a.storedAt == b.storedAt && a.key ≤ b.key)))

namespace Cache

/-- An empty cache, which has room for at least one entry. -/
def make (maxEntries timeToLive : Nat) : Cache α := { maxEntries := max maxEntries 1, timeToLive }

/-- The entry of a key. -/
def find? (c : Cache α) (key : String) : Option (CacheEntry α) := c.entries.find? (·.key == key)

/-- Whether an entry is not too old. -/
def isFresh (c : Cache α) (now : Nat) (e : CacheEntry α) : Bool := now - e.storedAt ≤ c.timeToLive

/-- Drops the entry of a key. -/
def drop (c : Cache α) (key : String) : Cache α :=
  { c with entries := c.entries.filter (·.key != key) }

/-- The answer under a key. An entry that is too old is dropped. -/
def lookup (c : Cache α) (now : Nat) (key : String) : Cache α × Option α :=
  match c.find? key with
  | some e =>
    if c.isFresh now e then
      ({ c with
          entries := c.entries.map fun e => if e.key == key then { e with uses := e.uses + 1 } else e
          hits := c.hits + 1 },
        some e.results)
    else ({ c.drop key with misses := c.misses + 1 }, none)
  | none => ({ c with misses := c.misses + 1 }, none)

/-- The number of entries that make room at a time. -/
def quarter (c : Cache α) : Nat := max (c.entries.length / 4) 1

/-- Drops the least used quarter of the entries. -/
def makeRoom (c : Cache α) : Cache α :=
  let victims := ((c.entries.mergeSort CacheEntry.before).take c.quarter).map (·.key)
  { c with
    entries := c.entries.filter fun e => !victims.contains e.key
    evictions := c.evictions + victims.length }

/-- Stores an answer. -/
def insert (c : Cache α) (now : Nat) (key : String) (results : α) : Cache α :=
  let c := if (c.find? key).isNone && c.maxEntries ≤ c.entries.length then c.makeRoom else c
  { c.drop key with entries := ⟨key, results, now, 0⟩ :: (c.drop key).entries }

/-- Drops all entries. -/
def clear (c : Cache α) : Cache α := { c with entries := [] }

/-- What a report says about the cache. -/
def stats (c : Cache α) : CacheStats :=
  ⟨c.entries.length, c.maxEntries, c.timeToLive / ticksPerSecond, c.hits, c.misses, c.evictions⟩

end Cache

end CodeClones
