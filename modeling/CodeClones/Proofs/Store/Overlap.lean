import CodeClones.Proofs.Store.Requests
import Mathlib.Logic.Function.Basic

/-!
# Overlapping calls

Between the steps of a call there may be steps of other calls on the same store. A query looks into
the cache, asks the backend and remembers the answer; a change changes the backend and forgets what
is remembered. If a change comes and goes between the second and the third step of a query, then the
answer that is remembered is older than the change, and only the next change forgets it. In no other
way does a remembered answer get behind the changes that have returned.
-/

namespace CodeClones

/-- The first step of a change of the backend. -/
def VectorStore.write (s : VectorStore) (c : Conditions) (operation : Operation)
    (f : Backend → Backend) : VectorStore × Except StoreError Unit :=
  s.withConnection c operation fun s => ({ s with backend := f s.backend }, .ok ())

/-- It is refused or made, and the cache does not see it. -/
theorem VectorStore.write_cases {s s' : VectorStore} {c : Conditions} {operation : Operation}
    {f : Backend → Backend} {r : Except StoreError Unit} (h : s.write c operation f = (s', r)) :
    s'.cache = s.cache ∧ ((∃ e, r = .error e ∧ s'.backend = s.backend) ∨
      r = .ok () ∧ s'.backend = f s.backend) := by
  rcases withConnection_cases h with ⟨e, rfl, halike⟩ | ⟨s₁, s₂, h₁, hf, h₂⟩
  · exact ⟨halike.cache, Or.inl ⟨e, rfl, halike.backend⟩⟩
  · cases hf
    exact ⟨h₂.cache.trans h₁.cache, Or.inr ⟨rfl, by rw [h₂.backend, ← h₁.backend]⟩⟩

namespace Overlap

/-- What a call does next. -/
inductive Phase where
  | unborn
  | looking (q : Query)
  | asking (q : Query)
  | remembering (q : Query) (answer : List Match)
  | changing (operation : Operation) (f : Backend → Backend)
  | forgetting
  | finished

/-- What a call has done to the backend or to the cache. -/
inductive Deed where
  | asked (call : Nat) (q : Query)
  | remembered (call : Nat) (q : Query)
  | changed (call : Nat) (f : Backend → Backend)
  | forgot (call : Nat)

/-- The call that did something. -/
def Deed.call : Deed → Nat
  | asked call _ => call
  | remembered call _ => call
  | changed call _ => call
  | forgot call => call

/-- A store with the calls that are made on it, which are known by their numbers. -/
structure State where
  store : VectorStore
  phase : Nat → Phase := fun _ => .unborn
  /-- What was done, the last deed first. -/
  log : List Deed := []

/-- A call begins, or does its next step. -/
inductive Event where
  | query (call : Nat) (q : Query)
  | change (call : Nat) (operation : Operation) (f : Backend → Backend)
  | step (call : Nat) (c : Conditions)

/-- The call that begins or goes on. -/
def Event.call : Event → Nat
  | query call _ => call
  | change call _ _ => call
  | step call _ => call

/-- The query that begins. -/
def Event.query? : Event → Option Query
  | query _ q => some q
  | _ => none

namespace State

/-- The state after a call did some deeds, which left the store as given. -/
def next (t : State) (call : Nat) (store : VectorStore) (phase : Phase) (deeds : List Deed) :
    State where
  store
  phase := Function.update t.phase call phase
  log := deeds ++ t.log

/-- Lets a call begin. No two calls have the same number. -/
def begin (t : State) (call : Nat) (phase : Phase) : State :=
  match t.phase call with
  | .unborn => t.next call t.store phase []
  | _ => t

/-- The step of a call in a phase. A step that is refused ends the call. -/
def act (t : State) (call : Nat) (c : Conditions) : Phase → State
  | .looking q =>
    match t.store.lookUp c.now q.key with
    | (s, some _) => t.next call s .finished []
    | (s, none) => t.next call s (.asking q) []
  | .asking q =>
    match t.store.ask c q.vector q.k q.threshold q.filter with
    | (s, .error _) => t.next call s .finished []
    | (s, .ok answer) => t.next call s (.remembering q answer) [.asked call q]
  | .remembering q answer =>
    t.next call (t.store.remember c.later q.key answer) .finished [.remembered call q]
  | .changing operation f =>
    match t.store.write c operation f with
    | (s, .error _) => t.next call s .finished []
    | (s, .ok _) => t.next call s .forgetting [.changed call f]
  | .forgetting => t.next call t.store.forget .finished [.forgot call]
  | .unborn => t
  | .finished => t

/-- The next step of a call. -/
def advance (t : State) (call : Nat) (c : Conditions) : State := t.act call c (t.phase call)

/-- What happens at an event. -/
def react (t : State) : Event → State
  | .query call q => t.begin call (.looking q)
  | .change call operation f => t.begin call (.changing operation f)
  | .step call c => t.advance call c

/-- No change is between its two steps. -/
def Settled (t : State) : Prop := ∀ call, t.phase call ≠ .forgetting

/-- An answer that the next step of a query can find: one in the cache, however old it is, or one of
the backend. -/
def Offers (t : State) (q : Query) (answer : List Match) : Prop :=
  (∃ cache, t.store.cache = some cache ∧ ∃ e ∈ cache.entries, e.key = q.key ∧ e.results = answer) ∨
    ∃ c, (t.store.ask c q.vector q.k q.threshold q.filter).2 = .ok answer

end State

/-- A store after some events, in any order. -/
def run (s : VectorStore) (events : List Event) : State := events.foldl State.react { store := s }

/-- A backend after the changes in a log. -/
def backendAfter (b : Backend) : List Deed → Backend
  | [] => b
  | .changed _ f :: log => f (backendAfter b log)
  | _ :: log => backendAfter b log

/-- An answer that the backend gave when all the changes had been made that have returned by now. -/
def Reflects (b : Backend) (log : List Deed) (q : Query) (answer : List Match) : Prop :=
  ∃ later earlier, log = later ++ earlier ∧ (backendAfter b earlier).answer q = .ok answer ∧
    ∀ call f, .forgot call ∈ log → .changed call f ∉ later

/-- A change was made and has returned while a query had its answer but did not yet remember it, and
no change has returned since the answer is remembered. -/
def Overtaken (log : List Deed) (q : Query) : Prop :=
  ∃ query later earlier, log = later ++ .remembered query q :: earlier ∧
    (∀ call, .forgot call ∉ later) ∧
    ∃ change f, [.forgot change, .changed change f, .asked query q].Sublist earlier

/-! ### Calls that nothing interrupts -/

section

variable {t : State} {call : Nat}

@[simp] private theorem next_phase_self (s : VectorStore) (phase : Phase) (deeds : List Deed) :
    (t.next call s phase deeds).phase call = phase :=
  Function.update_self ..

@[simp] private theorem next_phase_of_ne {other : Nat} (h : other ≠ call) (s : VectorStore)
    (phase : Phase) (deeds : List Deed) :
    (t.next call s phase deeds).phase other = t.phase other :=
  Function.update_of_ne h ..

@[simp] private theorem next_store (s : VectorStore) (phase : Phase) (deeds : List Deed) :
    (t.next call s phase deeds).store = s := rfl

private theorem begin_of_unborn (h : t.phase call = .unborn) (phase : Phase) :
    t.begin call phase = t.next call t.store phase [] := by
  rw [State.begin, h]

/-- A store without a cache has no use for the key of a query. -/
private theorem query_eq (s : VectorStore) (c : Conditions) (q : Query) :
    s.query c q.vector q.k q.threshold q.filter =
      match s.lookUp c.now q.key with
      | (s, some hit) => (s, .ok hit)
      | (s, none) =>
        match s.ask c q.vector q.k q.threshold q.filter with
        | (s, .error cause) => (s, .error cause)
        | (s, .ok answer) => (s.remember c.later q.key answer, .ok answer) := by
  unfold VectorStore.query
  cases hcache : s.cache with
  | some cache => rfl
  | none =>
    have hlook : ∀ key, s.lookUp c.now key = (s, none) := by
      intro key
      rw [VectorStore.lookUp, hcache]
    dsimp only
    rw [hlook, hlook]
    dsimp only
    rcases hask : s.ask c q.vector q.k q.threshold q.filter with ⟨s₁, _ | answer⟩
    · rfl
    · have hnone : s₁.cache = none := (VectorStore.ask_cases hask).1.cache.trans hcache
      simp only [VectorStore.remember, hnone, Option.map_none]

/-- The steps of a query are those of a query of the store. -/
theorem advance_query (hcall : t.phase call = .unborn) (q : Query) (c : Conditions) :
    ((((t.react (.query call q)).advance call c).advance call c).advance call c).store =
      (t.store.query c q.vector q.k q.threshold q.filter).1 := by
  rw [query_eq, State.react, begin_of_unborn hcall]
  rcases hlook : t.store.lookUp c.now q.key with ⟨s, _ | hit⟩
  · rcases hask : s.ask c q.vector q.k q.threshold q.filter with ⟨s', _ | answer⟩ <;>
      simp [State.advance, State.act, hlook, hask]
  · simp [State.advance, State.act, hlook]

/-- A change is made and then forgets what is remembered. -/
private theorem change_eq {α : Type} (s : VectorStore) (c : Conditions) (operation : Operation)
    (f : Backend → Backend × α) :
    (s.change c operation f).1 =
      match s.write c operation fun b => (f b).1 with
      | (s, .error _) => s
      | (s, .ok _) => s.forget := by
  unfold VectorStore.change VectorStore.write VectorStore.withConnection
  cases c.busy with
  | some cause => rfl
  | none =>
    rcases s.pool.acquire (c.refusal .connect) with ⟨pool, cause | connection⟩
    · rfl
    · cases c.refusal operation <;> rfl

/-- The steps of a change are those of a change of the store. -/
theorem advance_change {α : Type} (hcall : t.phase call = .unborn) (c : Conditions)
    (operation : Operation) (f : Backend → Backend × α) :
    (((t.react (.change call operation fun b => (f b).1)).advance call c).advance call c).store =
      (t.store.change c operation f).1 := by
  rw [change_eq, State.react, begin_of_unborn hcall]
  rcases hwrite : t.store.write c operation (fun b => (f b).1) with ⟨s, _ | _⟩ <;>
    simp [State.advance, State.act, hwrite]

end

/-! ### What every run keeps -/

/-- The backend gave an answer when a call asked it for a query. -/
def Asked (b : Backend) (log : List Deed) (call : Nat) (q : Query) (answer : List Match) : Prop :=
  ∃ later earlier, log = later ++ .asked call q :: earlier ∧
    (backendAfter b earlier).answer q = .ok answer

/-- An answer that the backend gave was remembered, and was not forgotten since. -/
def Entered (b : Backend) (log : List Deed) (q : Query) (answer : List Match) : Prop :=
  ∃ later call earlier, log = later ++ .remembered call q :: earlier ∧
    Asked b earlier call q answer ∧ ∀ change, .forgot change ∉ later

/-- A call that has not yet changed anything. -/
structure Untouched (log : List Deed) (call : Nat) : Prop where
  changed : ∀ f, .changed call f ∉ log
  forgot : .forgot call ∉ log

/-- What was done by a call that is in a phase. -/
def Fits (b : Backend) (asked : List Query) (log : List Deed) (call : Nat) : Phase → Prop
  | .unborn => Untouched log call
  | .looking q => Untouched log call ∧ q ∈ asked
  | .asking q => Untouched log call ∧ q ∈ asked
  | .remembering q answer => Untouched log call ∧ q ∈ asked ∧ Asked b log call q answer
  | .changing .. => Untouched log call
  | .forgetting => .forgot call ∉ log
  | .finished => ∀ f, .changed call f ∈ log → .forgot call ∈ log

/-- A call that changes something has not forgotten anything before. -/
def InTurn (later earlier : Deed) : Prop :=
  ∀ call f, later = .changed call f → earlier ≠ .forgot call

section

variable {b : Backend} {asked : List Query} {log : List Deed} {call : Nat} {q : Query}
  {answer : List Match}

theorem Asked.cons (h : Asked b log call q answer) (d : Deed) :
    Asked b (d :: log) call q answer := by
  obtain ⟨later, earlier, rfl, hanswer⟩ := h
  exact ⟨d :: later, earlier, rfl, hanswer⟩

theorem Entered.cons (h : Entered b log q answer) {d : Deed} (hd : ∀ change, d ≠ .forgot change) :
    Entered b (d :: log) q answer := by
  obtain ⟨later, call, earlier, rfl, hasked, hkept⟩ := h
  refine ⟨d :: later, call, earlier, rfl, hasked, fun change hmem => ?_⟩
  rcases List.mem_cons.mp hmem with he | hmem
  · exact hd change he.symm
  · exact hkept change hmem

theorem Untouched.cons (h : Untouched log call) {d : Deed} (hchanged : ∀ f, d ≠ .changed call f)
    (hforgot : d ≠ .forgot call) : Untouched (d :: log) call := by
  refine ⟨fun f hmem => ?_, fun hmem => ?_⟩
  · rcases List.mem_cons.mp hmem with he | hmem
    · exact hchanged f he.symm
    · exact h.changed f hmem
  · rcases List.mem_cons.mp hmem with he | hmem
    · exact hforgot he.symm
    · exact h.forgot hmem

/-- A call that has changed nothing may end at any time. -/
theorem Untouched.finished (h : Untouched log call) : Fits b asked log call .finished :=
  fun f hmem => absurd hmem (h.changed f)

/-- What another call does matters nothing to a call. -/
theorem Fits.cons {phase : Phase} (h : Fits b asked log call phase) {d : Deed}
    (hd : d.call ≠ call) : Fits b asked (d :: log) call phase := by
  have hchanged : ∀ f, d ≠ .changed call f := by
    rintro f rfl
    exact hd rfl
  have hforgot : d ≠ .forgot call := by
    rintro rfl
    exact hd rfl
  cases phase with
  | unborn => exact Untouched.cons h hchanged hforgot
  | looking q => exact ⟨h.1.cons hchanged hforgot, h.2⟩
  | asking q => exact ⟨h.1.cons hchanged hforgot, h.2⟩
  | remembering q answer => exact ⟨h.1.cons hchanged hforgot, h.2.1, h.2.2.cons d⟩
  | changing operation f => exact Untouched.cons h hchanged hforgot
  | forgetting =>
    intro hmem
    exact h ((List.mem_cons.mp hmem).resolve_left hforgot.symm)
  | finished =>
    intro f hmem
    exact List.mem_cons_of_mem d (h f ((List.mem_cons.mp hmem).resolve_left (hchanged f).symm))

end

/-- Every state of a run: the backend is what the logged changes made of it, every call did what its
phase says, and every remembered answer was one of the backend when it was asked. -/
structure Inv (b : Backend) (asked : List Query) (t : State) : Prop where
  backend : t.store.backend = backendAfter b t.log
  calls : ∀ call, Fits b asked t.log call (t.phase call)
  order : t.log.Pairwise InTurn
  entries : t.store.EveryAnswer fun key answer =>
    ∀ q ∈ asked, key = q.key → Entered b t.log q answer

namespace Inv

variable {b : Backend} {asked : List Query} {t : State} {call : Nat} {s : VectorStore}
  {phase : Phase}

/-- A step that leaves no trace. -/
private theorem next_nil (h : Inv b asked t) (hbackend : s.backend = t.store.backend)
    (hfits : Fits b asked t.log call phase)
    (hentries : s.EveryAnswer fun key answer =>
      ∀ q ∈ asked, key = q.key → Entered b t.log q answer) :
    Inv b asked (t.next call s phase []) where
  backend := hbackend.trans h.backend
  calls other := by
    by_cases he : other = call
    · subst he
      rw [next_phase_self]
      exact hfits
    · rw [next_phase_of_ne he]
      exact h.calls other
  order := h.order
  entries := hentries

/-- A step with one deed. -/
private theorem next_deed (h : Inv b asked t) {d : Deed} (hd : d.call = call)
    (hbackend : s.backend = backendAfter b (d :: t.log))
    (hfits : Fits b asked (d :: t.log) call phase) (horder : ∀ e ∈ t.log, InTurn d e)
    (hentries : s.EveryAnswer fun key answer =>
      ∀ q ∈ asked, key = q.key → Entered b (d :: t.log) q answer) :
    Inv b asked (t.next call s phase [d]) where
  backend := hbackend
  calls other := by
    by_cases he : other = call
    · subst he
      rw [next_phase_self]
      exact hfits
    · rw [next_phase_of_ne he]
      exact (h.calls other).cons fun hc => he (hc.symm.trans hd)
  order := List.pairwise_cons.mpr ⟨horder, h.order⟩
  entries := hentries

/-- What is remembered stays so at a deed that forgets nothing. -/
private theorem entries_cons (h : Inv b asked t) (d : Deed) (hd : ∀ change, d ≠ .forgot change) :
    t.store.EveryAnswer fun key answer =>
      ∀ q ∈ asked, key = q.key → Entered b (d :: t.log) q answer :=
  h.entries.mono fun _ _ hentered q hq hk => (hentered q hq hk).cons hd

private theorem begin_of_fits (h : Inv b asked t)
    (hfits : Untouched t.log call → Fits b asked t.log call phase) :
    Inv b asked (t.begin call phase) := by
  unfold State.begin
  split
  · rename_i hphase
    have huntouched := h.calls call
    rw [hphase] at huntouched
    exact h.next_nil rfl (hfits huntouched) h.entries
  · exact h

/-- Every step of a call keeps the invariant. -/
theorem advance (h : Inv b asked t) (hkeys : KeysApart asked) (call : Nat) (c : Conditions) :
    Inv b asked (t.advance call c) := by
  have hcall := h.calls call
  rw [State.advance]
  cases hphase : t.phase call with
  | unborn => exact h
  | finished => exact h
  | looking q =>
    rw [hphase] at hcall
    have hbackend := (t.store.lookUp_keeps c.now q.key).1
    have hentries := h.entries.lookUp c.now q.key
    rw [State.act]
    rcases hlook : t.store.lookUp c.now q.key with ⟨s, _ | hit⟩
    · rw [hlook] at hbackend hentries
      exact h.next_nil hbackend hcall hentries
    · rw [hlook] at hbackend hentries
      exact h.next_nil hbackend hcall.1.finished hentries
  | asking q =>
    rw [hphase] at hcall
    rw [State.act]
    rcases hask : t.store.ask c q.vector q.k q.threshold q.filter with ⟨s, _ | answer⟩
    · obtain ⟨halike, _⟩ := VectorStore.ask_cases hask
      exact h.next_nil halike.backend hcall.1.finished (h.entries.of_cache halike.cache)
    · obtain ⟨halike, ⟨e, he⟩ | hanswer⟩ := VectorStore.ask_cases hask
      · cases he
      · refine h.next_deed rfl (halike.backend.trans h.backend) ⟨hcall.1.cons nofun nofun, hcall.2,
          [], t.log, rfl, ?_⟩ (fun e _ => nofun)
          ((h.entries_cons (.asked call q) nofun).of_cache halike.cache)
        rw [← h.backend]
        exact hanswer.symm
  | remembering q answer =>
    rw [hphase] at hcall
    obtain ⟨huntouched, hq, hasked⟩ := hcall
    rw [State.act]
    have huntouched' : Untouched (.remembered call q :: t.log) call := huntouched.cons nofun nofun
    refine h.next_deed rfl h.backend huntouched'.finished (fun e _ => nofun) ?_
    refine (h.entries_cons (.remembered call q) nofun).remember c.later fun _ q' hq' hk => ?_
    obtain rfl : q = q' := hkeys q hq q' hq' hk
    exact ⟨[], call, t.log, rfl, hasked, fun _ hmem => nomatch hmem⟩
  | changing operation f =>
    rw [hphase] at hcall
    rw [State.act]
    rcases hwrite : t.store.write c operation f with ⟨s, r⟩
    obtain ⟨hcache, ⟨_, rfl, hbackend⟩ | ⟨rfl, hbackend⟩⟩ := VectorStore.write_cases hwrite
    · exact h.next_nil hbackend (Untouched.finished hcall) (h.entries.of_cache hcache)
    · refine h.next_deed rfl ?_
        (fun hmem => hcall.forgot ((List.mem_cons.mp hmem).resolve_left nofun)) ?_
        ((h.entries_cons (.changed call f) nofun).of_cache hcache)
      · rw [hbackend, backendAfter, ← h.backend]
      · rintro e he call' f' heq rfl
        cases heq
        exact hcall.forgot he
  | forgetting =>
    rw [State.act]
    refine h.next_deed rfl h.backend (fun f _ => List.mem_cons_self ..) (fun e _ => nofun) ?_
    exact .of_cleared rfl

theorem react (h : Inv b asked t) (hkeys : KeysApart asked) {e : Event}
    (he : ∀ q, e.query? = some q → q ∈ asked) : Inv b asked (t.react e) := by
  cases e with
  | query call q => exact h.begin_of_fits fun huntouched => ⟨huntouched, he q rfl⟩
  | change call operation f => exact h.begin_of_fits id
  | step call c => exact h.advance hkeys call c

end Inv

/-- A store that has just been opened, on which nothing was done. -/
theorem inv_start {backend : Backend} {config : StoreConfig} {c : Conditions} {s : VectorStore}
    (asked : List Query) (h : VectorStore.start backend config c = .ok s) :
    Inv s.backend asked { store := s } where
  backend := rfl
  calls _ := ⟨fun _ hmem => (nomatch hmem), fun hmem => (nomatch hmem)⟩
  order := .nil
  entries := (VectorStore.start_fresh _ h).1

theorem inv_foldl {b : Backend} {asked : List Query} {t : State} {events : List Event}
    (h : Inv b asked t) (hkeys : KeysApart asked)
    (hevents : ∀ q ∈ events.filterMap Event.query?, q ∈ asked) :
    Inv b asked (events.foldl State.react t) := by
  induction events generalizing t with
  | nil => exact h
  | cons e rest ih =>
    refine ih (h.react hkeys fun q hq => hevents q ?_) fun q hq => hevents q ?_
    · exact List.mem_filterMap.mpr ⟨e, List.mem_cons_self .., hq⟩
    · obtain ⟨e', he', hq'⟩ := List.mem_filterMap.mp hq
      exact List.mem_filterMap.mpr ⟨e', List.mem_cons_of_mem e he', hq'⟩

/-! ### How old an answer can be -/

/-- Where nothing was changed the backend is as it was. -/
theorem backendAfter_append {b : Backend} {later : List Deed} (earlier : List Deed)
    (h : ∀ call f, .changed call f ∉ later) :
    backendAfter b (later ++ earlier) = backendAfter b earlier := by
  induction later with
  | nil => rfl
  | cons d later ih =>
    have hrest := ih fun call f hmem => h call f (List.mem_cons_of_mem d hmem)
    cases d with
    | changed call f => exact absurd (List.mem_cons_self ..) (h call f)
    | asked call q => exact hrest
    | remembered call q => exact hrest
    | forgot call => exact hrest

/-- A call that changed something, and has returned, forgot after it changed. -/
private theorem forgot_mem_later {later earlier : List Deed} {change : Nat} {f : Backend → Backend}
    (horder : (later ++ .changed change f :: earlier).Pairwise InTurn)
    (h : .forgot change ∈ later ++ .changed change f :: earlier) : .forgot change ∈ later := by
  obtain ⟨_, hcons, _⟩ := List.pairwise_append.mp horder
  rcases List.mem_append.mp h with hmem | hmem
  · exact hmem
  · rcases List.mem_cons.mp hmem with he | hmem
    · cases he
    · exact absurd rfl ((List.pairwise_cons.mp hcons).1 _ hmem change f rfl)

/-- A remembered answer is one of the backend from after all changes that have returned, or its
query was overtaken. -/
theorem Entered.overtaken_or_reflects {b : Backend} {log : List Deed} {q : Query}
    {answer : List Match} (h : Entered b log q answer) (horder : log.Pairwise InTurn) :
    Overtaken log q ∨ Reflects b log q answer := by
  obtain ⟨later, call, _, rfl, ⟨between, earlier, rfl, hanswer⟩, hkept⟩ := h
  by_cases hreturned : ∃ change f, .forgot change ∈ later ++ .remembered call q ::
      (between ++ .asked call q :: earlier) ∧
      .changed change f ∈ later ++ .remembered call q :: (between ++ [.asked call q])
  · obtain ⟨change, f, hforgot, hchanged⟩ := hreturned
    rcases List.mem_append.mp hchanged with hchanged | hchanged
    · -- a change since the answer was remembered has forgotten it
      obtain ⟨l₁, l₂, rfl⟩ := List.append_of_mem hchanged
      rw [List.append_assoc, List.cons_append] at horder hforgot
      exact absurd (List.mem_append_left _ (forgot_mem_later horder hforgot)) (hkept change)
    · have hbetween : .changed change f ∈ between := by simpa using hchanged
      obtain ⟨m₁, m₂, rfl⟩ := List.append_of_mem hbetween
      have hsplit : later ++ .remembered call q ::
          (m₁ ++ .changed change f :: m₂ ++ .asked call q :: earlier) =
          (later ++ .remembered call q :: m₁) ++ .changed change f ::
            (m₂ ++ .asked call q :: earlier) := by simp
      rw [hsplit] at horder hforgot
      have hmem : .forgot change ∈ m₁ := by
        rcases List.mem_append.mp (forgot_mem_later horder hforgot) with hmem | hmem
        · exact absurd hmem (hkept change)
        · exact (List.mem_cons.mp hmem).resolve_left nofun
      have hsublist : [.forgot change, .changed change f, .asked call q].Sublist
          (m₁ ++ .changed change f :: m₂ ++ .asked call q :: earlier) :=
        ((List.singleton_sublist.mpr hmem).append
          (List.singleton_sublist.mpr (List.mem_cons_self ..))).append
          (List.singleton_sublist.mpr (List.mem_cons_self ..))
      exact Or.inl ⟨call, later, _, rfl, hkept, change, f, hsublist⟩
  · exact Or.inr ⟨later ++ .remembered call q :: (between ++ [.asked call q]), earlier, by simp,
      hanswer, fun change f hforgot hchanged => hreturned ⟨change, f, hforgot, hchanged⟩⟩

/-- When no change is between its two steps, all changes have returned. -/
theorem Inv.current_of_reflects {b : Backend} {asked : List Query} {t : State} {q : Query}
    {answer : List Match} (h : Inv b asked t) (hreflects : Reflects b t.log q answer)
    (hsettled : t.Settled) : t.store.backend.answer q = .ok answer := by
  obtain ⟨later, earlier, hlog, hanswer, hreturned⟩ := hreflects
  rw [h.backend, hlog, backendAfter_append earlier, hanswer]
  intro call f hchanged
  have hmem : .changed call f ∈ t.log := hlog ▸ List.mem_append_left _ hchanged
  have hcall := h.calls call
  cases hphase : t.phase call with
  | forgetting => exact hsettled call hphase
  | finished =>
    rw [hphase] at hcall
    exact hreturned call f (hcall f hmem) hchanged
  | unborn | changing =>
    rw [hphase] at hcall
    exact hcall.changed f hmem
  | looking | asking | remembering =>
    rw [hphase] at hcall
    exact hcall.1.changed f hmem

/-- In every interleaving of calls on a store, an answer that a query can find is one of the backend
from after all changes that have returned, and the current one when no change is under way, unless
a change came and went between asking and remembering, and none has returned since. -/
theorem offers_current_unless_overtaken {backend : Backend} {config : StoreConfig}
    {c : Conditions} {s : VectorStore} (hstart : VectorStore.start backend config c = .ok s)
    (events : List Event) (hkeys : KeysApart (events.filterMap Event.query?)) {q : Query}
    (hq : q ∈ events.filterMap Event.query?) {answer : List Match}
    (hoffers : (run s events).Offers q answer) :
    Overtaken (run s events).log q ∨
      (Reflects s.backend (run s events).log q answer ∧
        ((run s events).Settled → (run s events).store.backend.answer q = .ok answer)) := by
  have hinv : Inv s.backend (events.filterMap Event.query?) (run s events) :=
    inv_foldl (inv_start _ hstart) hkeys fun _ hq => hq
  rcases hoffers with ⟨cache, hcache, e, he, hkey, rfl⟩ | ⟨c', hask⟩
  · have hentered := hinv.entries cache hcache e he q hq hkey
    refine (hentered.overtaken_or_reflects hinv.order).imp_right ?_
    exact fun hreflects => ⟨hreflects, hinv.current_of_reflects hreflects⟩
  · have hanswer : (run s events).store.backend.answer q = .ok answer := by
      rcases hasked : (run s events).store.ask c' q.vector q.k q.threshold q.filter with ⟨s', r⟩
      obtain ⟨_, ⟨e, rfl⟩ | he⟩ := VectorStore.ask_cases hasked
      · rw [hasked] at hask
        cases hask
      · rw [hasked] at hask
        exact he.symm.trans hask
    refine Or.inr ⟨⟨[], (run s events).log, rfl, ?_, fun _ _ _ hmem => nomatch hmem⟩,
      fun _ => hanswer⟩
    rw [← hinv.backend]
    exact hanswer

/-- What a look into the cache finds is offered. -/
theorem State.offers_of_lookUp {t : State} {q : Query} {answer : List Match} {now : Nat}
    (h : (t.store.lookUp now q.key).2 = some answer) : t.Offers q answer := by
  have hentries : t.store.EveryAnswer fun key answer => ∃ cache, t.store.cache = some cache ∧
      ∃ e ∈ cache.entries, e.key = key ∧ e.results = answer :=
    fun cache hcache e he => ⟨cache, hcache, e, he, rfl, rfl⟩
  exact Or.inl (hentries.hit h).2

/-- An event is a step of no other call. -/
theorem State.phase_react {t : State} {e : Event} {other : Nat} (h : other ≠ e.call) :
    (t.react e).phase other = t.phase other := by
  have hbegin : ∀ call phase, other ≠ call → (t.begin call phase).phase other = t.phase other := by
    intro call phase hne
    unfold State.begin
    split
    · exact next_phase_of_ne hne ..
    · rfl
  cases e with
  | query call q => exact hbegin call _ h
  | change call operation f => exact hbegin call _ h
  | step call c =>
    rw [State.react, State.advance]
    cases t.phase call with
    | unborn => rfl
    | finished => rfl
    | remembering q answer => exact next_phase_of_ne h ..
    | forgetting => exact next_phase_of_ne h ..
    | looking | asking | changing =>
      rw [State.act]
      split <;> exact next_phase_of_ne h ..

/-- A call that never begins does nothing. -/
theorem phase_foldl {t : State} {events : List Event} {other : Nat}
    (h : ∀ e ∈ events, other ≠ e.call) :
    (events.foldl State.react t).phase other = t.phase other := by
  induction events generalizing t with
  | nil => rfl
  | cons e rest ih =>
    rw [List.foldl_cons, ih fun e he => h e (List.mem_cons_of_mem _ he),
      State.phase_react (h e (List.mem_cons_self ..))]

/-- A query that is overtaken by a change. -/
private def race : List Event :=
  [.query 0 .east, .step 0 {}, .step 0 {},
    .change 1 .upsert fun b => b.upsert [⟨"a", [1, 0], []⟩], .step 1 {}, .step 1 {}, .step 0 {}]

/-- After the race the store remembers an answer from before the change, and gives it until it is
too old. -/
theorem overtaken_race : (run .inMemory race).Settled ∧ (run .inMemory race).Offers .east [] ∧
    (run .inMemory race).store.backend.answer .east ≠ .ok [] ∧
    Overtaken (run .inMemory race).log .east := by
  have hsettled : (run .inMemory race).Settled := by
    intro call hphase
    by_cases hcall : call = 0 ∨ call = 1
    · have hfinished : ((run .inMemory race).phase 0 matches .finished) = true ∧
          ((run .inMemory race).phase 1 matches .finished) = true := by decide +kernel
      rcases hcall with rfl | rfl
      · rw [hphase] at hfinished
        cases hfinished.1
      · rw [hphase] at hfinished
        cases hfinished.2
    · have hunborn : (run .inMemory race).phase call = .unborn := by
        refine phase_foldl fun e he => ?_
        simp only [race, List.mem_cons, List.not_mem_nil, or_false] at he
        rcases he with rfl | rfl | rfl | rfl | rfl | rfl | rfl <;> simp [Event.call] <;> omega
      rw [hphase] at hunborn
      cases hunborn
  have hoffers : (run .inMemory race).Offers .east [] := by
    have hlook : (((run .inMemory race).store.lookUp 0 Query.east.key).2.map List.length) =
        some 0 := by decide +kernel
    obtain ⟨answer, hhit, hempty⟩ := Option.map_eq_some_iff.mp hlook
    rw [List.length_eq_zero_iff.mp hempty] at hhit
    exact State.offers_of_lookUp hhit
  have hstale : (run .inMemory race).store.backend.answer .east ≠ .ok [] := by
    have hone : (((run .inMemory race).store.backend.answer .east).toOption.map List.length) =
        some 1 := by decide +kernel
    intro h
    rw [h] at hone
    cases hone
  have hkeys : KeysApart [.east] := by
    intro q hq q' hq' _
    rw [List.mem_singleton.mp hq, List.mem_singleton.mp hq']
  exact ⟨hsettled, hoffers, hstale,
    (offers_current_unless_overtaken VectorStore.start_inMemory race hkeys
      (List.mem_singleton_self _) hoffers).resolve_right fun h => hstale (h.2 hsettled)⟩

end Overlap

end CodeClones
