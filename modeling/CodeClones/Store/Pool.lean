import CodeClones.Store.Basic

/-!
# Connection pools

A pool gives out at most a fixed number of connections at a time. Taking one has two steps: a place
is reserved, together with a parked connection if there is one, and otherwise a new connection is
made. A connection that comes back is parked, or closed if connections are not used again.
-/

namespace CodeClones

/-- The number of a connection, in the order in which they are made. -/
abbrev ConnectionId := Nat

/-- A pool of connections. -/
structure Pool where
  maxConnections : Nat
  /-- How long a caller waits for a place, in milliseconds. -/
  timeout : Nat
  reuse : Bool
  /-- The parked connections, the last one that came back first. -/
  idle : List ConnectionId := []
  inUse : Nat := 0
  created : Nat := 0
  deriving DecidableEq, Repr

/-- What a report says about a pool. -/
structure PoolStats where
  maxConnections : Nat
  inUse : Nat
  idle : Nat
  created : Nat
  reuse : Bool
  deriving DecidableEq, Repr

namespace Pool

/-- A pool without connections, which has room for at least one. -/
def make (maxConnections timeout : Nat) (reuse : Bool) : Pool :=
  { maxConnections := max maxConnections 1, timeout, reuse }

/-- Reserves a place, if one is free, and takes a parked connection. -/
def reserve? (p : Pool) : Option (Pool × Option ConnectionId) :=
  if p.inUse < p.maxConnections then
    some ({ p with inUse := p.inUse + 1, idle := p.idle.tail }, p.idle.head?)
  else none

/-- Counts a new connection for a reserved place. -/
def connected (p : Pool) : Pool × ConnectionId := ({ p with created := p.created + 1 }, p.created)

/-- Gives a place back, with the connection that was taken for it. -/
def release (p : Pool) (connection : Option ConnectionId) : Pool :=
  { p with
    inUse := p.inUse - 1
    idle := if p.reuse then connection.toList ++ p.idle else p.idle }

/-- Takes a connection when nobody else uses the pool; `refusal` tells why no new one can be made. -/
def acquire (p : Pool) (refusal : Option StoreError) : Pool × Except StoreError ConnectionId :=
  match p.reserve? with
  | none => (p, .error (.poolTimeout p.timeout))
  | some (p, some connection) => (p, .ok connection)
  | some (p, none) =>
    match refusal with
    | some cause => (p.release none, .error cause)
    | none =>
      let (p, connection) := p.connected
      (p, .ok connection)

/-- What a report says about the pool. -/
def stats (p : Pool) : PoolStats := ⟨p.maxConnections, p.inUse, p.idle.length, p.created, p.reuse⟩

end Pool

end CodeClones
