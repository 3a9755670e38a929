import CodeClones.Proofs.Store.Pool
import Mathlib.Data.List.Perm.Basic

/-!
# Callers that share a pool

Any number of callers take connections from one pool and drop them, each in steps between which
there may be steps of the others. A caller first tries to reserve a place: it gets a parked
connection, goes on to make a new one, or finds no place free, and then waits to try again or gives
up. Whatever the order of the steps is, the places in use are those of the connections that are held
or being made, and every connection is parked once or held once.
-/

namespace CodeClones.Checkout

/-- A pool with what its callers have taken from it. -/
structure State where
  pool : Pool
  /-- The callers that make a new connection. -/
  connecting : List Nat := []
  /-- The callers that hold a connection, with the connection. -/
  held : List (Nat × ConnectionId) := []

/-- A step of a caller. -/
inductive Event where
  /-- A caller that comes, or that has waited, tries to reserve a place. -/
  | attempt (caller : Nat)
  /-- The new connection of a caller is made or refused. -/
  | connect (caller : Nat) (refusal : Option StoreError)
  /-- A caller drops a connection. -/
  | drop (caller : Nat) (connection : ConnectionId)

/-- What a step does. No caller drops what it does not hold. -/
def State.react (t : State) : Event → State
  | .attempt caller =>
    match t.pool.reserve? with
    | none => t
    | some (pool, some connection) => { t with pool, held := (caller, connection) :: t.held }
    | some (pool, none) => { t with pool, connecting := caller :: t.connecting }
  | .connect caller refusal =>
    if caller ∈ t.connecting then
      let connecting := t.connecting.erase caller
      match refusal with
      | some _ => { t with pool := t.pool.release none, connecting }
      | none =>
        let (pool, connection) := t.pool.connected
        { pool, connecting, held := (caller, connection) :: t.held }
    else t
  | .drop caller connection =>
    if (caller, connection) ∈ t.held then
      { t with pool := t.pool.release (some connection), held := t.held.erase (caller, connection) }
    else t

/-- Whether a step gives a place back. -/
def Event.GivesBack (t : State) : Event → Prop
  | .attempt _ => False
  | .connect caller refusal => caller ∈ t.connecting ∧ refusal.isSome
  | .drop caller connection => (caller, connection) ∈ t.held

/-- The connections that are open: those that are parked and those that are held. -/
def State.opened (t : State) : List ConnectionId := t.pool.idle ++ t.held.map Prod.snd

/-- A pool after steps of its callers, in any order. -/
def run (p : Pool) (events : List Event) : State := events.foldl State.react { pool := p }

/-- The steps of a caller that nobody interrupts are those of a caller that is alone. -/
theorem react_attempt_connect {t : State} {caller : Nat} (h : caller ∉ t.connecting)
    (refusal : Option StoreError) :
    ((t.react (.attempt caller)).react (.connect caller refusal)).pool =
      (t.pool.acquire refusal).1 := by
  rw [State.react, Pool.acquire]
  rcases t.pool.reserve? with _ | ⟨pool, _ | connection⟩
  · simp [State.react, h]
  · cases refusal <;> simp [State.react]
  · simp [State.react, h]

/-- The accounts of a pool: no place is lost, and no connection is given to two callers. -/
structure Accounted (t : State) : Prop where
  /-- The places in use are those of the connections that are held or being made. -/
  inUse : t.pool.inUse = t.held.length + t.connecting.length
  /-- There is a place for every parked connection. -/
  room : t.pool.inUse + t.pool.idle.length ≤ t.pool.maxConnections
  /-- No connection is parked and held, or held twice. -/
  apart : t.opened.Nodup
  /-- A place that is given back was in use. -/
  givesBack : ∀ e : Event, e.GivesBack t → (t.react e).pool.inUse + 1 = t.pool.inUse
  /-- Where connections are used again, all that were ever made are open. -/
  created : t.pool.reuse = true →
    t.pool.created = t.pool.idle.length + t.held.length ∧ t.pool.created ≤ t.pool.maxConnections
  /-- Where connections are not used again, none is parked. -/
  parked : t.pool.reuse = false → t.pool.idle = []

/-- What every step keeps. -/
structure Inv (t : State) : Prop where
  inUse : t.pool.inUse = t.held.length + t.connecting.length
  room : t.pool.inUse + t.pool.idle.length ≤ t.pool.maxConnections
  apart : t.opened.Nodup
  /-- The next connection gets a number of its own. -/
  numbered : ∀ connection ∈ t.opened, connection < t.pool.created
  created : t.pool.reuse = true → t.pool.created = t.opened.length
  parked : t.pool.reuse = false → t.pool.idle = []

theorem inv_make (maxConnections timeout : Nat) (reuse : Bool) :
    Inv { pool := .make maxConnections timeout reuse } where
  inUse := rfl
  room := Nat.zero_le _
  apart := List.nodup_nil
  numbered _ h := nomatch h
  created _ := rfl
  parked _ := rfl

section

variable {t t' : State} {caller : Nat} {connection : ConnectionId}

/-- A reserved place is one more in use, and the connection that was parked last comes with it. -/
private theorem reserve?_eq {p p' : Pool} {parked : Option ConnectionId}
    (h : p.reserve? = some (p', parked)) :
    p.inUse < p.maxConnections ∧ parked = p.idle.head? ∧
      p' = { p with inUse := p.inUse + 1, idle := p.idle.tail } := by
  rw [Pool.reserve?] at h
  split at h
  · cases h
    exact ⟨‹_›, rfl, rfl⟩
  · cases h

/-- Which of the open connections are parked and which are held makes no difference to their
numbers. -/
private theorem Inv.of_perm (h : Inv t) (hopened : t'.opened.Perm t.opened)
    (hcreated : t'.pool.created = t.pool.created) (hreuse : t'.pool.reuse = t.pool.reuse)
    (hinUse : t'.pool.inUse = t'.held.length + t'.connecting.length)
    (hroom : t'.pool.inUse + t'.pool.idle.length ≤ t'.pool.maxConnections)
    (hparked : t'.pool.reuse = false → t'.pool.idle = []) : Inv t' where
  inUse := hinUse
  room := hroom
  apart := hopened.nodup_iff.mpr h.apart
  numbered connection hm := hcreated ▸ h.numbered connection (hopened.mem_iff.mp hm)
  created hr := by rw [hcreated, hopened.length_eq, h.created (hreuse ▸ hr)]
  parked := hparked

/-- An attempt takes a parked connection, or a place for a new one, or nothing. -/
private theorem Inv.attempt (h : Inv t) (caller : Nat) : Inv (t.react (.attempt caller)) := by
  rw [State.react]
  cases hreserve : t.pool.reserve? with
  | none => exact h
  | some found =>
    obtain ⟨pool, parked⟩ := found
    obtain ⟨hfree, hparked, rfl⟩ := reserve?_eq hreserve
    have hinUse := h.inUse
    have hroom := h.room
    cases hidle : t.pool.idle with
    | nil =>
      rw [hidle, List.head?_nil] at hparked
      rw [hidle, List.length_nil] at hroom
      subst hparked
      refine h.of_perm (by simp [State.opened, hidle]) rfl rfl ?_ ?_ (fun _ => rfl)
      · dsimp only [List.length_cons]
        omega
      · dsimp only [List.tail_nil, List.length_nil]
        omega
    | cons first rest =>
      rw [hidle, List.head?_cons] at hparked
      rw [hidle, List.length_cons] at hroom
      subst hparked
      refine h.of_perm ?_ rfl rfl ?_ ?_ ?_
      · simp [State.opened, hidle, List.perm_middle]
      · dsimp only [List.length_cons]
        omega
      · dsimp only [List.tail_cons]
        omega
      · intro hreuse
        exact absurd (h.parked hreuse) (by simp [hidle])

/-- A new connection is one that nobody has; a refused one gives its place back. -/
private theorem Inv.connect (h : Inv t) (caller : Nat) (refusal : Option StoreError) :
    Inv (t.react (.connect caller refusal)) := by
  rw [State.react]
  split
  · rename_i hmem
    have hinUse := h.inUse
    have hroom := h.room
    have hpos := List.length_pos_of_mem hmem
    have hlength := List.length_erase_of_mem hmem
    cases refusal with
    | some cause =>
      have hidle : (t.pool.release none).idle = t.pool.idle := by simp [Pool.release]
      refine h.of_perm (by simp [State.opened, hidle]) rfl rfl ?_ ?_ ?_
      · simp only [Pool.release, hlength]
        omega
      · simp only [hidle]
        simp only [Pool.release]
        omega
      · intro hreuse
        exact hidle.trans (h.parked hreuse)
    | none =>
      have hopened : (t.pool.idle ++ t.pool.created :: t.held.map Prod.snd).Perm
          (t.pool.created :: t.opened) := List.perm_middle
      refine ⟨?_, hroom, ?_, fun connection hm => ?_, fun hreuse => ?_, h.parked⟩
      · simp only [Pool.connected, List.length_cons, hlength]
        omega
      · exact hopened.nodup_iff.mpr (List.nodup_cons.mpr
          ⟨fun hm => Nat.lt_irrefl _ (h.numbered _ hm), h.apart⟩)
      · rcases List.mem_cons.mp (hopened.mem_iff.mp hm) with rfl | hm
        · exact Nat.lt_succ_self _
        · exact Nat.lt_succ_of_lt (h.numbered connection hm)
      · exact (congrArg (· + 1) (h.created hreuse)).trans hopened.length_eq.symm
  · exact h

/-- A connection that is parked stays open. -/
private theorem Inv.park (h : Inv t) (hmem : (caller, connection) ∈ t.held)
    (hreuse : t.pool.reuse = true) :
    Inv { t with
      pool := t.pool.release (some connection), held := t.held.erase (caller, connection) } := by
  have hinUse := h.inUse
  have hroom := h.room
  have hpos := List.length_pos_of_mem hmem
  have hlength := List.length_erase_of_mem hmem
  have hheld : (t.held.map Prod.snd).Perm
      (connection :: (t.held.erase (caller, connection)).map Prod.snd) :=
    (List.perm_cons_erase hmem).map Prod.snd
  have hidle : (t.pool.release (some connection)).idle = connection :: t.pool.idle := by
    simp [Pool.release, hreuse]
  refine h.of_perm ?_ rfl rfl ?_ ?_ ?_
  · simp only [State.opened, hidle, List.cons_append]
    exact List.perm_middle.symm.trans (hheld.symm.append_left _)
  · simp only [Pool.release, hlength]
    omega
  · simp only [hidle, List.length_cons]
    simp only [Pool.release]
    omega
  · intro hnot
    exact absurd (hreuse.symm.trans hnot) (by simp)

/-- Where connections are not used again, one that is dropped leaves those that the others hold. -/
private theorem Inv.close (h : Inv t) (hmem : (caller, connection) ∈ t.held)
    (hreuse : t.pool.reuse = false) :
    Inv { t with
      pool := t.pool.release (some connection), held := t.held.erase (caller, connection) } := by
  have hinUse := h.inUse
  have hroom := h.room
  have hpos := List.length_pos_of_mem hmem
  have hlength := List.length_erase_of_mem hmem
  have hnone := h.parked hreuse
  have hidle : (t.pool.release (some connection)).idle = [] := by
    simp [Pool.release, hreuse, hnone]
  have hsub : ((t.held.erase (caller, connection)).map Prod.snd).Sublist t.opened := by
    rw [State.opened, hnone, List.nil_append]
    exact List.erase_sublist.map Prod.snd
  refine ⟨?_, ?_, ?_, fun c hm => ?_, fun hr => ?_, fun _ => hidle⟩
  · simp only [Pool.release, hlength]
    omega
  · simp only [hidle, List.length_nil]
    simp only [Pool.release]
    omega
  · simp only [State.opened, hidle, List.nil_append]
    exact h.apart.sublist hsub
  · simp only [State.opened, hidle, List.nil_append] at hm
    exact h.numbered c (hsub.subset hm)
  · exact absurd (hreuse.symm.trans hr) (by simp)

private theorem Inv.drop (h : Inv t) (caller : Nat) (connection : ConnectionId) :
    Inv (t.react (.drop caller connection)) := by
  rw [State.react]
  split
  · rename_i hmem
    cases hreuse : t.pool.reuse with
    | true => exact h.park hmem hreuse
    | false => exact h.close hmem hreuse
  · exact h

theorem Inv.react (h : Inv t) (e : Event) : Inv (t.react e) := by
  cases e with
  | attempt caller => exact h.attempt caller
  | connect caller refusal => exact h.connect caller refusal
  | drop caller connection => exact h.drop caller connection

/-- A place that is given back is one of those that the callers have. -/
private theorem Inv.givesBack (h : Inv t) {e : Event} (he : e.GivesBack t) :
    (t.react e).pool.inUse + 1 = t.pool.inUse := by
  have hinUse := h.inUse
  cases e with
  | attempt caller => exact he.elim
  | connect caller refusal =>
    obtain ⟨hmem, hrefused⟩ := he
    obtain ⟨cause, rfl⟩ := Option.isSome_iff_exists.mp hrefused
    have hpos := List.length_pos_of_mem hmem
    simp only [State.react, if_pos hmem, Pool.release]
    omega
  | drop caller connection =>
    have hpos := List.length_pos_of_mem he
    simp only [State.react, if_pos (show (caller, connection) ∈ t.held from he), Pool.release]
    omega

theorem Inv.accounted (h : Inv t) : Accounted t where
  inUse := h.inUse
  room := h.room
  apart := h.apart
  givesBack _ he := h.givesBack he
  created hreuse := by
    have hcreated := h.created hreuse
    have hinUse := h.inUse
    have hroom := h.room
    rw [State.opened, List.length_append, List.length_map] at hcreated
    exact ⟨hcreated, by omega⟩
  parked := h.parked

end

theorem inv_run {p : Pool} (h : Inv { pool := p }) (events : List Event) : Inv (run p events) := by
  rw [run]
  generalize ({ pool := p } : State) = t at h
  induction events generalizing t with
  | nil => exact h
  | cons e rest ih => exact ih _ (h.react e)

/-- In whatever order the callers of a pool take their steps, its accounts are right. -/
theorem accounted_of_steps (maxConnections timeout : Nat) (reuse : Bool) (events : List Event) :
    Accounted (run (.make maxConnections timeout reuse) events) :=
  (inv_run (inv_make maxConnections timeout reuse) events).accounted

end CodeClones.Checkout
