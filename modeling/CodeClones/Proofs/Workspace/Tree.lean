import CodeClones.Proofs.FilePath
import CodeClones.Workspace.Tree

/-!
# Where paths lead

Pieces that carry no meaning can be left out of a path that leads somewhere, and put into it
anywhere but at its end. Two paths with the same other pieces therefore lead to the same place.
-/

namespace CodeClones.Tree

variable {t : Tree} {jump : List String → List String → Except FileError (List String)}
  {place dest : List String} {piece : String} {rest : List String}
  {entries : List (String × Entry)}

/-- A piece that names nothing. -/
def Idle (piece : String) : Prop := piece = "" ∨ piece = "."

theorem walk_idle (hd : t.at? place = some (.directory entries)) (hidle : Idle piece) :
    walk t jump place (piece :: rest) = walk t jump place rest := by
  rw [walk, hd]
  exact if_pos hidle

/-- A walk goes on from directories only. -/
theorem directory_of_walk (h : walk t jump place (piece :: rest) = .ok dest) :
    ∃ entries, t.at? place = some (.directory entries) := by
  rw [walk] at h
  split at h
  · cases h
  · cases h
  · cases h
  · exact ⟨_, by assumption⟩

/-- A step of a walk along a piece that does not only name the present directory. -/
theorem walk_cons_ok (hd : t.at? place = some (.directory entries)) (hidle : ¬Idle piece)
    (h : walk t jump place (piece :: rest) = .ok dest) :
    (∃ next, walk t jump next rest = .ok dest ∧
      ∀ rest', walk t jump place (piece :: rest') = walk t jump next rest') ∨
    ∃ start front, jump start (front ++ rest) = .ok dest ∧
      ∀ rest', walk t jump place (piece :: rest') = jump start (front ++ rest') := by
  have hcare : ¬(piece = "" ∨ piece = ".") := hidle
  by_cases hparent : piece = ".."
  · have hstep : ∀ rest', walk t jump place (piece :: rest') =
        walk t jump place.dropLast rest' := by
      intro rest'
      rw [walk, hd]
      exact (if_neg hidle).trans (if_pos hparent)
    exact Or.inl ⟨_, (hstep rest).symm.trans h, hstep⟩
  cases hentry : entries.lookup piece with
  | none =>
    rw [walk, hd] at h
    simp only [if_neg hcare, if_neg hparent, hentry] at h
    cases h
  | some entry =>
    by_cases hlink : ∃ target, entry = .link target
    · obtain ⟨target, rfl⟩ := hlink
      have hstep : ∀ rest', walk t jump place (piece :: rest') =
          jump (if FilePath.isAbsolute target then [] else place)
            ((FilePath.pieces target).map String.ofList ++ rest') := by
        intro rest'
        rw [walk, hd]
        simp only [if_neg hcare, if_neg hparent, hentry]
      exact Or.inr ⟨_, _, (hstep rest).symm.trans h, hstep⟩
    · have hstep : ∀ rest', walk t jump place (piece :: rest') =
          walk t jump (place ++ [piece]) rest' := by
        intro rest'
        rw [walk, hd]
        cases entry with
        | link target => exact absurd ⟨target, rfl⟩ hlink
        | _ => simp only [if_neg hcare, if_neg hparent, hentry]
      exact Or.inl ⟨_, (hstep rest).symm.trans h, hstep⟩

/-! ## Idle pieces -/

/-- Pieces of a path of which some idle ones are left out. -/
inductive Lighter : List String → List String → Prop
  | nil : Lighter [] []
  | keep (piece : String) {ps qs : List String} (h : Lighter ps qs) :
    Lighter (piece :: ps) (piece :: qs)
  | drop {piece : String} (hidle : Idle piece) {ps qs : List String} (h : Lighter ps qs) :
    Lighter ps (piece :: qs)

theorem Lighter.refl (ps : List String) : Lighter ps ps := by
  induction ps with
  | nil => exact .nil
  | cons piece ps ih => exact .keep piece ih

theorem Lighter.append_left (front : List String) {ps qs : List String} (h : Lighter ps qs) :
    Lighter (front ++ ps) (front ++ qs) := by
  induction front with
  | nil => exact h
  | cons piece front ih => exact .keep piece ih

/-- The pieces that carry meaning are the lightest. -/
theorem lighter_filter (ps : List (List Char)) :
    Lighter ((ps.filter FilePath.carries).map String.ofList) (ps.map String.ofList) := by
  induction ps with
  | nil => exact .nil
  | cons piece ps ih =>
    by_cases hp : FilePath.carries piece
    · rw [List.filter_cons_of_pos hp]
      exact .keep _ ih
    · rw [List.filter_cons_of_neg hp]
      refine .drop ?_ ih
      rcases FilePath.not_carries_iff.mp hp with rfl | rfl
      · exact Or.inl rfl
      · exact Or.inr rfl

private theorem walk_of_lighter {ps qs : List String} (h : Lighter ps qs)
    (hjump : ∀ start ps qs, Lighter ps qs → jump start qs = .ok dest → jump start ps = .ok dest)
    (hq : walk t jump place qs = .ok dest) : walk t jump place ps = .ok dest := by
  induction h generalizing place with
  | nil => exact hq
  | @keep piece ps qs h ih =>
    obtain ⟨entries, hd⟩ := directory_of_walk hq
    by_cases hidle : Idle piece
    · rw [walk_idle hd hidle] at hq ⊢
      exact ih hq
    · rcases walk_cons_ok hd hidle hq with ⟨next, hnext, hstep⟩ | ⟨start, front, hnext, hstep⟩
      · rw [hstep]
        exact ih hnext
      · rw [hstep]
        exact hjump _ _ _ (h.append_left front) hnext
  | drop hidle h ih =>
    obtain ⟨entries, hd⟩ := directory_of_walk hq
    exact ih ((walk_idle hd hidle).symm.trans hq)

/-- Leaving out idle pieces does not change where a path leads. -/
theorem follow_of_lighter (links : Nat) {ps qs : List String} (h : Lighter ps qs)
    (hq : follow t links place qs = .ok dest) : follow t links place ps = .ok dest := by
  induction links generalizing place ps qs with
  | zero => exact walk_of_lighter h (fun _ _ _ _ h => nomatch h) hq
  | succ links ih => exact walk_of_lighter h (fun _ _ _ h hq => ih h hq) hq

/-- Pieces that do not end in an idle one. -/
def EndsIn (ps : List String) : Prop := ∀ last, ps.getLast? = some last → ¬Idle last

private theorem EndsIn.tail (h : EndsIn (piece :: rest)) : EndsIn rest := by
  intro last hlast
  exact h last (by rw [List.getLast?_cons, hlast]; rfl)

private theorem EndsIn.append_left (h : EndsIn rest) (hne : rest ≠ []) (front : List String) :
    EndsIn (front ++ rest) := by
  intro last hlast
  rw [List.getLast?_append_of_ne_nil front hne] at hlast
  exact h last hlast

private theorem Lighter.ne_nil {ps qs : List String} (h : Lighter ps qs) (hne : qs ≠ [])
    (hend : EndsIn qs) : ps ≠ [] := by
  induction h with
  | nil => exact hne
  | keep => exact List.cons_ne_nil _ _
  | @drop piece hidle ps qs h ih =>
    cases qs with
    | nil => exact absurd hidle (hend piece rfl)
    | cons next qs => exact ih (List.cons_ne_nil _ _) hend.tail

private theorem walk_of_lighter_of_endsIn {ps qs : List String} (h : Lighter ps qs)
    (hend : EndsIn qs)
    (hjump : ∀ start ps qs, Lighter ps qs → EndsIn qs → jump start ps = .ok dest →
      jump start qs = .ok dest)
    (hp : walk t jump place ps = .ok dest) : walk t jump place qs = .ok dest := by
  induction h generalizing place with
  | nil => exact hp
  | @keep piece ps qs h ih =>
    obtain ⟨entries, hd⟩ := directory_of_walk hp
    by_cases hidle : Idle piece
    · rw [walk_idle hd hidle] at hp ⊢
      exact ih hend.tail hp
    · rcases walk_cons_ok hd hidle hp with ⟨next, hnext, hstep⟩ | ⟨start, front, hnext, hstep⟩
      · rw [hstep]
        exact ih hend.tail hnext
      · by_cases hqs : qs = []
        · subst hqs
          cases h
          exact hp
        · rw [hstep]
          exact hjump _ _ _ (h.append_left front) (hend.tail.append_left hqs front) hnext
  | @drop piece hidle ps qs h ih =>
    cases ps with
    | nil => exact absurd rfl ((Lighter.drop hidle h).ne_nil (List.cons_ne_nil _ _) hend)
    | cons first ps =>
      obtain ⟨entries, hd⟩ := directory_of_walk hp
      exact (walk_idle hd hidle).trans (ih hend.tail hp)

/-- Neither does putting idle pieces into it, except at its end. -/
theorem follow_of_lighter_of_endsIn (links : Nat) {ps qs : List String} (h : Lighter ps qs)
    (hend : EndsIn qs) (hp : follow t links place ps = .ok dest) :
    follow t links place qs = .ok dest := by
  induction links generalizing place ps qs with
  | zero => exact walk_of_lighter_of_endsIn h hend (fun _ _ _ _ _ h => nomatch h) hp
  | succ links ih =>
    exact walk_of_lighter_of_endsIn h hend (fun _ _ _ h hend hp => ih h hend hp) hp

/-! ## Paths with the same meaning -/

open FilePath

theorem not_idle_of_carries {piece : List Char} (h : carries piece) :
    ¬Idle (String.ofList piece) := by
  rintro (hempty | hdot)
  · rw [String.ofList_injective (hempty : String.ofList piece = String.ofList [])] at h
    cases h
  · rw [String.ofList_injective (hdot : String.ofList piece = String.ofList ['.'])] at h
    cases h

private theorem endsIn_of_carries {ps : List (List Char)}
    (h : ∀ last, ps.getLast? = some last → carries last) : EndsIn (ps.map String.ofList) := by
  intro last hlast
  rw [List.getLast?_map, Option.map_eq_some_iff] at hlast
  obtain ⟨piece, hpiece, rfl⟩ := hlast
  exact not_idle_of_carries (h piece hpiece)

theorem entry_eq_ok_iff {path : String} {e : Entry} :
    t.entry path = .ok e ↔ ∃ place, t.resolve path = .ok place ∧ t.at? place = some e := by
  unfold entry
  cases t.resolve path with
  | error cause => simp
  | ok place =>
    dsimp only
    cases hplace : t.at? place with
    | none => simp [hplace]
    | some e' => simp [hplace]

private theorem follow_carried {p q : String} (h : carried p = carried q)
    (hp : t.resolve p = .ok place) :
    follow t 40 [] ((carried q).map String.ofList) = .ok place := by
  rw [← h]
  exact follow_of_lighter 40 (lighter_filter _) hp

/-- Paths with the same pieces that carry meaning lead to the same entry, if they lead anywhere. -/
theorem entry_unique {p q : String} (h : carried p = carried q) {e e' : Entry}
    (hp : t.entry p = .ok e) (hq : t.entry q = .ok e') : e = e' := by
  obtain ⟨place, hplace, he⟩ := entry_eq_ok_iff.mp hp
  obtain ⟨place', hplace', he'⟩ := entry_eq_ok_iff.mp hq
  have hsame : place = place' := Except.ok.inj
    ((follow_carried h hplace).symm.trans (follow_carried rfl hplace'))
  subst hsame
  exact Option.some.inj (he.symm.trans he')

/-- Where a path leads, there leads any other one with the same pieces that carry meaning, unless it
ends in a piece that carries none. -/
theorem entry_of_carried {p q : String} (h : carried p = carried q)
    (hend : ∀ last, (pieces q).getLast? = some last → carries last) {e : Entry}
    (hp : t.entry p = .ok e) : t.entry q = .ok e := by
  obtain ⟨place, hplace, he⟩ := entry_eq_ok_iff.mp hp
  exact entry_eq_ok_iff.mpr ⟨place, follow_of_lighter_of_endsIn 40 (lighter_filter _)
    (endsIn_of_carries hend) (follow_carried h hplace), he⟩

/-! ## The last piece of a path -/

theorem at?_concat (t : Tree) (place : List String) (piece : String) :
    t.at? (place ++ [piece]) = (t.at? place).bind (·.child? piece) := by
  induction place generalizing t with
  | nil =>
    change (t.child? piece).bind (fun e => some e) = t.child? piece
    exact Option.bind_fun_some _
  | cons name place ih =>
    change (t.child? name).bind (Entry.at? (place ++ [piece])) =
      ((t.child? name).bind (Entry.at? place)).bind _
    rw [Option.bind_assoc]
    exact congrArg _ (funext ih)

/-- The walk along all pieces but the last one leads to a directory, where the last one names a link
or where the path leads. -/
private structure LeadsAbove (t : Tree) (piece : String) (dest above : List String)
    (entries : List (String × Entry)) : Prop where
  directory : t.at? above = some (.directory entries)
  last : (∃ target, entries.lookup piece = some (.link target)) ∨ dest = above ++ [piece]

private theorem walk_concat (hidle : ¬Idle piece) (hparent : piece ≠ "..") {ps : List String}
    (hjump : ∀ start ps, jump start (ps ++ [piece]) = .ok dest →
      ∃ above entries, jump start ps = .ok above ∧ LeadsAbove t piece dest above entries)
    (h : walk t jump place (ps ++ [piece]) = .ok dest) :
    ∃ above entries, walk t jump place ps = .ok above ∧
      LeadsAbove t piece dest above entries := by
  induction ps generalizing place with
  | nil =>
    obtain ⟨entries, hd⟩ := directory_of_walk h
    have hcare : ¬(piece = "" ∨ piece = ".") := hidle
    refine ⟨place, entries, rfl, hd, ?_⟩
    rw [List.nil_append, walk, hd] at h
    simp only [if_neg hcare, if_neg hparent] at h
    cases hentry : entries.lookup piece with
    | none =>
      rw [hentry] at h
      cases h
    | some e =>
      rw [hentry] at h
      cases e with
      | link target => exact Or.inl ⟨target, rfl⟩
      | file bytes =>
        cases h
        exact Or.inr rfl
      | directory es =>
        cases h
        exact Or.inr rfl
  | cons first ps ih =>
    obtain ⟨entries, hd⟩ := directory_of_walk h
    by_cases hfirst : Idle first
    · rw [List.cons_append, walk_idle hd hfirst] at h
      rw [walk_idle hd hfirst]
      exact ih h
    · rcases walk_cons_ok hd hfirst h with ⟨next, hnext, hstep⟩ | ⟨start, front, hnext, hstep⟩
      · rw [hstep]
        exact ih hnext
      · rw [hstep]
        exact hjump start (front ++ ps) (by rw [List.append_assoc]; exact hnext)

private theorem follow_concat (hidle : ¬Idle piece) (hparent : piece ≠ "..") (links : Nat)
    {ps : List String} (h : follow t links place (ps ++ [piece]) = .ok dest) :
    ∃ above entries, follow t links place ps = .ok above ∧
      LeadsAbove t piece dest above entries := by
  induction links generalizing place ps with
  | zero => exact walk_concat hidle hparent (fun _ _ h => nomatch h) h
  | succ links ih => exact walk_concat hidle hparent (fun _ _ h => ih h) h

/-- Without pieces that carry meaning a path leads at most to the root. -/
theorem eq_of_entry_root {path : String} {e : Entry} (hcarried : carried path = [])
    (h : t.entry path = .ok e) : e = t := by
  obtain ⟨place, hplace, he⟩ := entry_eq_ok_iff.mp h
  have hfollow := follow_carried rfl hplace
  rw [hcarried] at hfollow
  obtain rfl : [] = place := Except.ok.inj hfollow
  exact (Option.some.inj he).symm

/-- A path that leads anywhere leads to the directory above its last piece, where this piece names a
link or what the path leads to. -/
theorem entry_above {path : String} {above : List (List Char)} {last : List Char} {e : Entry}
    (hcarried : carried path = above ++ [last]) (hparent : last ≠ ['.', '.'])
    (h : t.entry path = .ok e) :
    ∃ entries, t.entry ("/" ++ pathText above) = .ok (.directory entries) ∧
      ((∃ target, entries.lookup (String.ofList last) = some (.link target)) ∨
        entries.lookup (String.ofList last) = some e) := by
  have hcarries : ∀ piece ∈ above ++ [last], carries piece := by
    rw [← hcarried]
    exact fun piece hp => (List.mem_filter.mp hp).2
  have hslash : ∀ piece ∈ above ++ [last], '/' ∉ piece := by
    rw [← hcarried]
    exact fun piece hp => slash_not_mem_of_mem_pieces (List.mem_filter.mp hp).1
  obtain ⟨place, hplace, he⟩ := entry_eq_ok_iff.mp h
  have hfollow := follow_carried rfl hplace
  rw [hcarried, List.map_append, List.map_singleton] at hfollow
  have hidle : ¬Idle (String.ofList last) := not_idle_of_carries (hcarries last (by simp))
  have hup : String.ofList last ≠ ".." := fun hup =>
    hparent (String.ofList_injective (hup : String.ofList last = String.ofList ['.', '.']))
  obtain ⟨there, entries, hthere, hleads⟩ := follow_concat hidle hup 40 hfollow
  refine ⟨entries, ?_, ?_⟩
  · refine entry_eq_ok_iff.mpr ⟨there, ?_, hleads.directory⟩
    rw [resolve, ← String.empty_append (s := "/"), pieces_append_slash]
    by_cases hnil : above = []
    · subst hnil
      obtain rfl : [] = there := Except.ok.inj hthere
      exact (walk_idle hleads.directory (Or.inl rfl)).trans
        (walk_idle hleads.directory (Or.inl rfl))
    · rw [pieces_pathText hnil fun piece hp => hslash piece (List.mem_append_left _ hp)]
      refine follow_of_lighter_of_endsIn 40 ?_ ?_ hthere
      · exact .drop (Or.inl rfl) (.refl _)
      · refine endsIn_of_carries fun piece hpiece => ?_
        rw [List.getLast?_append_of_ne_nil _ hnil] at hpiece
        exact hcarries piece (List.mem_append_left _ (List.mem_of_getLast? hpiece))
  · refine hleads.last.imp_right fun hdest => ?_
    rw [hdest, at?_concat, hleads.directory] at he
    exact he

theorem read_eq_ok_iff {path : String} {bytes : ByteArray} :
    t.read path = .ok bytes ↔ t.entry path = .ok (.file bytes) := by
  unfold read
  split <;> simp_all

theorem holds_of_read {path : String} {bytes : ByteArray} (h : t.read path = .ok bytes) :
    t.holds path := by
  rw [holds, read_eq_ok_iff.mp h]
  rfl

/-- A file below a directory is read from there under the path in which it is seen from there. -/
theorem read_join_relativePath {root key : String} {bytes : ByteArray}
    (hroot : isAbsolute root) (hdirectory : t.holdsDirectory root) (hkey : '\\' ∉ key.toList)
    (h : t.read (join root key) = .ok bytes) :
    t.read (join root (relativePath root (join root key))) = .ok bytes := by
  rcases relativePath_join_cases hroot hkey with hsame | ⟨front, rest, hcut, hfront, hseen, hrest⟩
  · rw [hsame, join_of_isAbsolute root (isAbsolute_join hroot key), h]
  have hslash : ∀ piece ∈ rest, '/' ∉ piece := fun piece hp => (hrest piece hp).1
  have hcarried : carried (join root key) = carried root ++ rest.filter carries := by
    rw [carried, hcut, List.filter_append, hfront]
  have hne : trimmed rest ≠ [] := by
    intro hnil
    have hempty : rest.filter carries = [] := by rw [← filter_trimmed, hnil]; rfl
    -- the path would lead to the directory itself
    cases he : t.entry root with
    | error cause =>
      rw [holdsDirectory, he] at hdirectory
      cases hdirectory
    | ok e =>
      have hfile : Entry.file bytes = e :=
        entry_unique (by rw [hcarried, hempty, List.append_nil]) (read_eq_ok_iff.mp h) he
      rw [holdsDirectory, he, ← hfile] at hdirectory
      cases hdirectory
  obtain ⟨front', hcut', hfront'⟩ := pieces_join root (not_isAbsolute_pathText_trimmed hslash)
  rw [pieces_pathText hne fun piece hp => hslash piece (mem_of_mem_trimmed hp)] at hcut'
  rw [hseen]
  have hcarried' : carried (join root (pathText (trimmed rest))) =
      carried root ++ rest.filter carries := by
    rw [carried, hcut', List.filter_append, hfront', filter_trimmed]
  refine read_eq_ok_iff.mpr
    (entry_of_carried (hcarried.trans hcarried'.symm) ?_ (read_eq_ok_iff.mp h))
  · intro last hlast
    rw [hcut', List.getLast?_append_of_ne_nil _ hne] at hlast
    exact carries_of_getLast?_trimmed hlast

end CodeClones.Tree
