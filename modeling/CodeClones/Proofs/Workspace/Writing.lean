import CodeClones.Proofs.PathOrder
import CodeClones.Proofs.Workspace.Tree

/-!
# Writing files

A file that is written into a directory stands there under its name, and everything else in the
directory stays as it was. Wherever a path led before, it leads there still, since no directory and
no link becomes anything else.
-/

namespace CodeClones

/-! ## Changes of a directory -/

namespace Entry

/-- Both are files, both are directories, or both are links to the same target. -/
inductive SameForm : Entry → Entry → Prop
  | file (bytes bytes' : ByteArray) : SameForm (file bytes) (file bytes')
  | link (target : String) : SameForm (link target) (link target)
  | directory (entries entries' : List (String × Entry)) :
    SameForm (directory entries) (directory entries')

theorem SameForm.refl (e : Entry) : SameForm e e := by
  cases e with
  | file bytes => exact .file bytes bytes
  | link target => exact .link target
  | directory entries => exact .directory entries entries

variable {entries : List (String × Entry)} {name : String} {value : Option Entry}

theorem lookup_setChild_self (entries : List (String × Entry)) (name : String) (e : Entry) :
    (setChild name (some e) entries).lookup name = some e := by
  induction entries with
  | nil => simp [setChild]
  | cons p entries ih =>
    obtain ⟨n, old⟩ := p
    rw [setChild]
    split
    · simp
    · rename_i hne
      rw [List.lookup_cons, beq_false_of_ne (Ne.symm hne)]
      exact ih

theorem lookup_setChild_of_ne {n : String} (h : n ≠ name) :
    (setChild name value entries).lookup n = entries.lookup n := by
  have hnew : ∀ rest : List (String × Entry),
      ((value.map fun v => (name, v)).toList ++ rest).lookup n = rest.lookup n := by
    intro rest
    cases value with
    | none => rfl
    | some v =>
      change ((name, v) :: rest).lookup n = rest.lookup n
      rw [List.lookup_cons, beq_false_of_ne h]
  induction entries with
  | nil =>
    rw [setChild, ← List.append_nil (value.map _).toList, hnew]
  | cons p entries ih =>
    obtain ⟨m, old⟩ := p
    rw [setChild]
    split
    · rename_i heq
      subst heq
      rw [hnew, List.lookup_cons, beq_false_of_ne h]
    · rw [List.lookup_cons, List.lookup_cons, ih]

end Entry

namespace Tree

open Entry

variable {t t' : Tree} {place : List String} {entries : List (String × Entry)} {name : String}
  {bytes : ByteArray}

/-- A change below a name of a directory is made in the entry under this name. -/
theorem change_cons {next : Entry} {path : List String} (value : Option Entry)
    (hnext : entries.lookup name = some next) (hpath : path ≠ []) :
    change value (name :: path) (directory entries) =
      directory (setChild name (some (change value path next)) entries) := by
  cases path with
  | nil => exact absurd rfl hpath
  | cons first path => simp only [change, hnext]

/-- A place below a directory leads through the entry under its first name. -/
private theorem exists_of_at?_cons {first : String} {e : Entry}
    (h : t.at? (first :: place) = some e) :
    ∃ es next, t = directory es ∧ es.lookup first = some next ∧ next.at? place = some e := by
  obtain ⟨next, hnext, hrest⟩ := Option.bind_eq_some_iff.mp h
  cases t with
  | directory es => exact ⟨es, next, rfl, hnext, hrest⟩
  | file bytes => cases hnext
  | link target => cases hnext

/-- A directory has the changed entries after the change. -/
theorem at?_change (value : Option Entry) (h : t.at? place = some (directory entries)) :
    (change value (place ++ [name]) t).at? place =
      some (directory (setChild name value entries)) := by
  induction place generalizing t with
  | nil =>
    cases h
    rfl
  | cons first rest ih =>
    obtain ⟨es, next, rfl, hnext, hrest⟩ := exists_of_at?_cons h
    rw [List.cons_append, change_cons value hnext (by simp)]
    change ((setChild first _ es).lookup first).bind _ = _
    rw [lookup_setChild_self]
    exact ih hrest

/-- What stands at a place of one tree stands in the same form at that place of the other one. -/
def KeepsForms (t t' : Tree) : Prop :=
  ∀ place e, t.at? place = some e → ∃ e', t'.at? place = some e' ∧ SameForm e e'

/-- Another entry under one name of a directory keeps the forms if it keeps them under the name. -/
private theorem keepsForms_setChild {new : Entry}
    (h : ∀ old, entries.lookup name = some old → KeepsForms old new) :
    KeepsForms (directory entries) (directory (setChild name (some new) entries)) := by
  intro place e he
  cases place with
  | nil =>
    cases he
    exact ⟨_, rfl, .directory _ _⟩
  | cons first rest =>
    obtain ⟨es, next, hes, hnext, hrest⟩ := exists_of_at?_cons he
    cases hes
    change ∃ e', ((setChild name (some new) entries).lookup first).bind _ = some e' ∧ _
    by_cases hfirst : first = name
    · subst hfirst
      rw [lookup_setChild_self]
      exact h next hnext rest e hrest
    · rw [lookup_setChild_of_ne hfirst, hnext]
      exact ⟨e, hrest, .refl e⟩

/-- A file in the place of another one, or of none, keeps the forms. -/
theorem keepsForms_change (h : t.at? place = some (directory entries))
    (hfile : ∀ e, entries.lookup name = some e → e.isFile) :
    KeepsForms t (change (some (file bytes)) (place ++ [name]) t) := by
  induction place generalizing t with
  | nil =>
    cases h
    refine keepsForms_setChild fun old hold => ?_
    intro place e he
    cases old with
    | link target => cases hfile _ hold
    | directory es => cases hfile _ hold
    | file bytes' =>
      cases place with
      | nil =>
        cases he
        exact ⟨_, rfl, .file bytes' bytes⟩
      | cons first rest => cases he
  | cons first rest ih =>
    obtain ⟨es, next, rfl, hnext, hrest⟩ := exists_of_at?_cons h
    rw [List.cons_append, change_cons _ hnext (by simp)]
    refine keepsForms_setChild fun old hold => ?_
    cases hnext.symm.trans hold
    exact ih hrest

/-! ## Paths through a changed tree -/

variable {jump jump' : List String → List String → Except FileError (List String)}
  {dest : List String} {piece : String} {ps qs : List String}

private theorem walk_of_keepsForms (h : KeepsForms t t')
    (hjump : ∀ start ps, jump start ps = .ok dest → jump' start ps = .ok dest)
    (hw : walk t jump place ps = .ok dest) : walk t' jump' place ps = .ok dest := by
  induction ps generalizing place with
  | nil => exact hw
  | cons piece rest ih =>
    obtain ⟨entries, hd⟩ := directory_of_walk hw
    obtain ⟨d', hd', hform⟩ := h place _ hd
    cases hform with | directory _ entries' =>
    rw [walk, hd] at hw
    rw [walk, hd']
    dsimp only at hw ⊢
    split
    · rename_i hidle
      rw [if_pos hidle] at hw
      exact ih hw
    · rename_i hidle
      rw [if_neg hidle] at hw
      split
      · rename_i hparent
        rw [if_pos hparent] at hw
        exact ih hw
      · rename_i hparent
        rw [if_neg hparent] at hw
        cases hentry : entries.lookup piece with
        | none =>
          rw [hentry] at hw
          cases hw
        | some e =>
          have hplace : t.at? (place ++ [piece]) = some e := by
            rw [at?_concat, hd]
            exact hentry
          obtain ⟨e', he', hform⟩ := h _ _ hplace
          rw [at?_concat, hd'] at he'
          change entries'.lookup piece = some e' at he'
          rw [hentry] at hw
          rw [he']
          cases hform with
          | file => exact ih hw
          | link => exact hjump _ _ hw
          | directory => exact ih hw

/-- Where the forms are kept, paths lead to the same places. -/
theorem follow_of_keepsForms (h : KeepsForms t t') (links : Nat)
    (hp : follow t links place ps = .ok dest) : follow t' links place ps = .ok dest := by
  induction links generalizing place ps with
  | zero =>
    refine walk_of_keepsForms h ?_ hp
    exact fun _ _ hp => nomatch hp
  | succ links ih => exact walk_of_keepsForms h (fun _ _ hp => ih hp) hp

private theorem walk_of_lighter_of_directory (h : Lighter ps qs)
    (hdest : t.at? dest = some (directory entries))
    (hjump : ∀ start ps qs, Lighter ps qs → jump start ps = .ok dest → jump start qs = .ok dest)
    (hp : walk t jump place ps = .ok dest) : walk t jump place qs = .ok dest := by
  induction h generalizing place with
  | nil => exact hp
  | @keep piece ps qs h ih =>
    obtain ⟨es, hd⟩ := directory_of_walk hp
    by_cases hidle : Idle piece
    · rw [walk_idle hd hidle] at hp ⊢
      exact ih hp
    · rcases walk_cons_ok hd hidle hp with ⟨next, hnext, hstep⟩ | ⟨start, front, hnext, hstep⟩
      · rw [hstep]
        exact ih hnext
      · rw [hstep]
        exact hjump _ _ _ (h.append_left front) hnext
  | @drop piece hidle ps qs h ih =>
    have hd : ∃ es, t.at? place = some (directory es) := by
      cases ps with
      | nil =>
        cases hp
        exact ⟨entries, hdest⟩
      | cons first ps => exact directory_of_walk hp
    obtain ⟨es, hd⟩ := hd
    exact (walk_idle hd hidle).trans (ih hp)

/-- Idle pieces can be put anywhere into a path that leads to a directory. -/
theorem follow_of_lighter_of_directory (links : Nat) (h : Lighter ps qs)
    (hdest : t.at? dest = some (directory entries)) (hp : follow t links place ps = .ok dest) :
    follow t links place qs = .ok dest := by
  induction links generalizing place ps qs with
  | zero => exact walk_of_lighter_of_directory h hdest (fun _ _ _ _ hp => nomatch hp) hp
  | succ links ih => exact walk_of_lighter_of_directory h hdest (fun _ _ _ h hp => ih h hp) hp

private theorem walk_append_of_ok {r : Except FileError (List String)}
    (hjump : ∀ start ps, jump start ps = .ok dest → jump start (ps ++ qs) = r)
    (hlast : walk t jump dest qs = r) (h : walk t jump place ps = .ok dest) :
    walk t jump place (ps ++ qs) = r := by
  induction ps generalizing place with
  | nil =>
    cases h
    exact hlast
  | cons piece rest ih =>
    obtain ⟨es, hd⟩ := directory_of_walk h
    by_cases hidle : Idle piece
    · rw [walk_idle hd hidle] at h
      rw [List.cons_append, walk_idle hd hidle]
      exact ih h
    · rw [List.cons_append]
      rcases walk_cons_ok hd hidle h with ⟨next, hnext, hstep⟩ | ⟨start, front, hnext, hstep⟩
      · rw [hstep]
        exact ih hnext
      · rw [hstep, ← List.append_assoc]
        exact hjump _ _ hnext

/-- Behind a path that leads somewhere, a path goes on from there, if it does so in the same way over
any number of links. -/
theorem follow_append_of_ok {r : Except FileError (List String)} (links : Nat)
    (hlast : ∀ links, follow t links dest qs = r) (h : follow t links place ps = .ok dest) :
    follow t links place (ps ++ qs) = r := by
  induction links generalizing place ps with
  | zero => exact walk_append_of_ok (fun _ _ h => nomatch h) (hlast 0) h
  | succ links ih => exact walk_append_of_ok (fun _ _ h => ih h) (hlast (links + 1)) h

section

variable (hd : t.at? place = some (directory entries)) (hidle : ¬Idle name) (hparent : name ≠ "..")

include hd hidle hparent

/-- A name of a directory leads to what stands there, unless it is a link. -/
theorem follow_name {e : Entry} (hentry : entries.lookup name = some e)
    (hlink : ∀ target, e ≠ link target) (links : Nat) :
    follow t links place [name] = .ok (place ++ [name]) := by
  have hcare : ¬(name = "" ∨ name = ".") := hidle
  have hwalk : ∀ jump, walk t jump place [name] = .ok (place ++ [name]) := by
    intro jump
    rw [walk, hd]
    simp only [if_neg hcare, if_neg hparent, hentry]
    cases e with
    | link target => exact absurd rfl (hlink target)
    | file bytes => rfl
    | directory es => rfl
  cases links <;> exact hwalk _

/-- A name that is missing leads nowhere. -/
theorem follow_missing (hentry : entries.lookup name = none) (links : Nat) :
    follow t links place [name] = .error .notFound := by
  have hcare : ¬(name = "" ∨ name = ".") := hidle
  have hwalk : ∀ jump, walk t jump place [name] = .error .notFound := by
    intro jump
    rw [walk, hd]
    simp only [if_neg hcare, if_neg hparent, hentry]
  cases links <;> exact hwalk _

end

/-! ## Files of a directory -/

open FilePath

section

variable {dir : String}

/-- A path to a name in a directory is a path to the directory and the name behind it. -/
private theorem exists_front (hdir : t.entry dir = .ok (directory entries)) (hname : IsName name) :
    ∃ front place, (pieces (join dir name)).map String.ofList = front ++ [name] ∧
      follow t 40 [] front = .ok place ∧ t.at? place = some (directory entries) ∧
      t.resolve dir = .ok place := by
  obtain ⟨place, hplace, hd⟩ := entry_eq_ok_iff.mp hdir
  obtain ⟨front, hpieces, hfront⟩ := pieces_join dir hname.not_isAbsolute
  have hlight := lighter_filter front
  rw [hfront] at hlight
  refine ⟨front.map String.ofList, place, ?_, ?_, hd, hplace⟩
  · rw [hpieces, hname.pieces_eq, List.map_append, List.map_singleton, String.ofList_toList]
  · exact follow_of_lighter_of_directory 40 hlight hd
      (follow_of_lighter 40 (lighter_filter _) hplace)

private theorem IsName.not_idle (h : IsName name) : ¬Idle name := by
  rw [← String.ofList_toList (s := name)]
  exact not_idle_of_carries h.carries

/-- The entry under a name of a directory, unless it is a link. -/
theorem entry_join (hdir : t.entry dir = .ok (directory entries)) (hname : IsName name) {e : Entry}
    (he : entries.lookup name = some e) (hlink : ∀ target, e ≠ link target) :
    t.entry (join dir name) = .ok e := by
  obtain ⟨front, place, hpieces, hfront, hd, -⟩ := exists_front hdir hname
  refine entry_eq_ok_iff.mpr ⟨place ++ [name], ?_, ?_⟩
  · rw [resolve, hpieces]
    exact follow_append_of_ok 40 (follow_name hd (IsName.not_idle hname) hname.parent he hlink) hfront
  · rw [at?_concat, hd]
    exact he

/-- A file can be written under a name of a directory where there is nothing or another file, and
then stands there. Nothing else in the directory changes. -/
theorem write_join (hdir : t.entry dir = .ok (directory entries)) (hname : IsName name)
    (hfile : ∀ e, entries.lookup name = some e → e.isFile) (bytes : ByteArray) :
    ∃ t', t.write (join dir name) bytes = .ok t' ∧
      t'.entry dir = .ok (directory (setChild name (some (file bytes)) entries)) := by
  obtain ⟨front, place, hpieces, hfront, hd, hplace⟩ := exists_front hdir hname
  refine ⟨change (some (file bytes)) (place ++ [name]) t, ?_, entry_eq_ok_iff.mpr
    ⟨place, follow_of_keepsForms (keepsForms_change hd hfile) 40 hplace, at?_change _ hd⟩⟩
  have hempty : name ≠ "" := fun h => IsName.not_idle hname (.inl h)
  have hlast : (front ++ [name]).reverse = name :: front.reverse := List.reverse_concat ..
  rw [write, hpieces, hlast, List.dropWhile_cons_of_neg (by simpa using hempty)]
  simp only [List.reverse_reverse, hfront, List.head?_cons, Option.some.injEq, if_neg hempty, bind,
    Except.bind]
  cases he : entries.lookup name with
  | none => rw [follow_missing hd (IsName.not_idle hname) hname.parent he]
  | some e =>
    have hisFile := hfile e he
    have hlink : ∀ target, e ≠ link target := by
      rintro target rfl
      cases hisFile
    have hplaced : t.at? (place ++ [name]) = some e := by
      rw [at?_concat, hd]
      exact he
    rw [follow_name hd (IsName.not_idle hname) hname.parent he hlink]
    dsimp only
    rw [hplaced, if_neg]
    cases e with
    | file bytes => exact Bool.false_ne_true
    | link target => cases hisFile
    | directory es => cases hisFile

end

end Tree

end CodeClones
