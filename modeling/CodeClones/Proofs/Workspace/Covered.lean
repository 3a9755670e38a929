import CodeClones.Proofs.PathOrder
import CodeClones.Proofs.Workspace.Discovery
import CodeClones.Proofs.Workspace.Tree
import Mathlib.Data.List.Nodup

/-!
# Which files a search covers

In a tree whose directories give every name once, a search of a directory covers exactly the
included files below it to which no directory leads that is passed over, each once and in the order
of their paths. But the directory that is searched is itself passed over if it has such a name: then
the search covers nothing. Only a link at the end of its path leads into such a directory.
-/

namespace CodeClones

open FilePath

/-! ## Files below a directory -/

namespace Entry

/-- A tree whose directories give every name once, and only names that may stand there. -/
inductive Proper : Entry → Prop
  | file (bytes : ByteArray) : Proper (file bytes)
  | link (target : String) : Proper (link target)
  | directory {entries : List (String × Entry)} (nodup : (entries.map Prod.fst).Nodup)
    (names : ∀ p ∈ entries, IsName p.1) (below : ∀ p ∈ entries, p.2.Proper) :
    Proper (directory entries)

/-- Names lead to a file, and none of a directory on the way is passed over. -/
structure LeadsToFile (e : Entry) (names : List String) : Prop where
  file : ∃ bytes, e.at? names = some (file bytes)
  clear : ∀ name ∈ names.dropLast, name ∉ passedOver

theorem mem_of_lookup {entries : List (String × Entry)} {name : String} {e : Entry}
    (h : entries.lookup name = some e) : (name, e) ∈ entries := by
  obtain ⟨before, after, rfl, -⟩ := List.lookup_eq_some_iff.mp h
  simp

theorem lookup_of_mem {entries : List (String × Entry)} (hnodup : (entries.map Prod.fst).Nodup)
    {name : String} {e : Entry} (h : (name, e) ∈ entries) : entries.lookup name = some e := by
  cases hfound : entries.lookup name with
  | none =>
    have hne := List.lookup_eq_none_iff.mp hfound (name, e) h
    simp at hne
  | some e' =>
    have hsame := List.inj_on_of_nodup_map hnodup (mem_of_lookup hfound) h rfl
    exact congrArg some (congrArg Prod.snd hsame)

theorem Proper.at? {e e' : Entry} (h : e.Proper) {names : List String}
    (he : e.at? names = some e') : e'.Proper := by
  induction names generalizing e with
  | nil =>
    cases he
    exact h
  | cons name names ih =>
    obtain ⟨next, hnext, hrest⟩ := Option.bind_eq_some_iff.mp he
    cases h with
    | file bytes => cases hnext
    | link target => cases hnext
    | directory hnodup hnames hbelow => exact ih (hbelow _ (mem_of_lookup hnext)) hrest

theorem mem_namesIn {entries : List (String × Entry)} {names : List String} :
    names ∈ namesIn entries ↔ ∃ name e rest, (name, e) ∈ entries ∧
      ¬(e.isDirectory ∧ name ∈ passedOver) ∧ rest ∈ e.namesBelow ∧ names = name :: rest := by
  induction entries with
  | nil => simp [namesIn]
  | cons p entries ih =>
    obtain ⟨name, e⟩ := p
    have hpass : (e.isDirectory && passedOver.contains name) = true ↔
        e.isDirectory ∧ name ∈ passedOver := by
      rw [Bool.and_eq_true, List.contains_iff_mem]
    rw [namesIn, List.mem_append, ih]
    constructor
    · rintro (h | ⟨name', e', rest, hmem, hrest⟩)
      · split at h
        · cases h
        · rename_i hopen
          obtain ⟨rest, hrest, rfl⟩ := List.mem_map.mp h
          exact ⟨name, e, rest, List.mem_cons_self .., hpass.not.mp hopen, hrest, rfl⟩
      · exact ⟨name', e', rest, List.mem_cons_of_mem _ hmem, hrest⟩
    · rintro ⟨name', e', rest, hmem, hopen, hrest, rfl⟩
      rcases List.mem_cons.mp hmem with he | hmem
      · cases he
        left
        rw [if_neg (hpass.not.mpr hopen)]
        exact List.mem_map_of_mem hrest
      · exact Or.inr ⟨name', e', rest, hmem, hopen, hrest, rfl⟩

theorem leadsToFile_file_iff {bytes : ByteArray} {names : List String} :
    (file bytes).LeadsToFile names ↔ names = [] := by
  cases names with
  | nil => exact iff_of_true ⟨⟨bytes, rfl⟩, fun _ hname => nomatch hname⟩ rfl
  | cons name names =>
    refine iff_of_false (fun hleads => ?_) (List.cons_ne_nil _ _)
    obtain ⟨_, hfile⟩ := hleads.file
    cases hfile

theorem not_leadsToFile_link {target : String} {names : List String} :
    ¬(link target).LeadsToFile names := by
  rintro ⟨⟨_, hfile⟩, -⟩
  cases names <;> cases hfile

/-- A name of a directory stands on the way to a file, or it is the last one and leads to the file.
-/
theorem LeadsToFile.clear_cons_iff {e : Entry} {names : List String} (h : e.LeadsToFile names)
    (name : String) : (∀ n ∈ (name :: names).dropLast, n ∉ passedOver) ↔
      ¬(e.isDirectory ∧ name ∈ passedOver) := by
  obtain ⟨bytes, hfile⟩ := h.file
  cases names with
  | nil =>
    cases hfile
    exact iff_of_true (fun _ hn => nomatch hn) fun hdir => nomatch hdir.1
  | cons next names =>
    have hdir : e.isDirectory := by
      cases e with
      | directory entries => rfl
      | file bytes => cases hfile
      | link target => cases hfile
    rw [List.dropLast_cons_cons, List.forall_mem_cons, and_iff_left h.clear, not_and]
    exact ⟨fun hname _ => hname, fun hname => hname hdir⟩

/-- To a file below a directory leads a name of the directory that is not passed over, and what
leads to the file from there. -/
theorem leadsToFile_directory_iff {entries : List (String × Entry)}
    (hnodup : (entries.map Prod.fst).Nodup) {names : List String} :
    (directory entries).LeadsToFile names ↔ ∃ name e rest, (name, e) ∈ entries ∧
      ¬(e.isDirectory ∧ name ∈ passedOver) ∧ e.LeadsToFile rest ∧ names = name :: rest := by
  constructor
  · rintro ⟨⟨bytes, hfile⟩, hclear⟩
    cases names with
    | nil => cases hfile
    | cons name names =>
      obtain ⟨e, he, hrest⟩ := Option.bind_eq_some_iff.mp hfile
      have hleads : e.LeadsToFile names := by
        refine ⟨⟨bytes, hrest⟩, fun n hn => hclear n ?_⟩
        cases names with
        | nil => cases hn
        | cons next names => exact List.mem_cons_of_mem _ hn
      exact ⟨name, e, names, mem_of_lookup he, (hleads.clear_cons_iff name).mp hclear, hleads, rfl⟩
  · rintro ⟨name, e, rest, hmem, hopen, hleads, rfl⟩
    obtain ⟨bytes, hfile⟩ := hleads.file
    refine ⟨⟨bytes, ?_⟩, (hleads.clear_cons_iff name).mpr hopen⟩
    rw [Entry.at?, child?, Entry.entries, lookup_of_mem hnodup hmem]
    exact hfile

/-- The names that a search follows are those that lead to files. -/
theorem mem_namesBelow_iff {e : Entry} (h : e.Proper) {names : List String} :
    names ∈ e.namesBelow ↔ e.LeadsToFile names := by
  induction h generalizing names with
  | file bytes => rw [namesBelow, List.mem_singleton, leadsToFile_file_iff]
  | link target => exact iff_of_false List.not_mem_nil not_leadsToFile_link
  | directory hnodup hnames hbelow ih =>
    rw [namesBelow, mem_namesIn, leadsToFile_directory_iff hnodup]
    refine exists_congr fun name => exists_congr fun e => exists_congr fun rest => ?_
    exact and_congr_right fun hmem => and_congr_right fun _ => and_congr_left fun _ => ih _ hmem

theorem isName_of_mem_namesBelow {e : Entry} (h : e.Proper) {names : List String}
    (hnames : names ∈ e.namesBelow) : ∀ name ∈ names, IsName name := by
  induction h generalizing names with
  | file bytes =>
    cases List.mem_singleton.mp hnames
    exact fun _ hname => nomatch hname
  | link target => cases hnames
  | directory hnodup hisName hbelow ih =>
    obtain ⟨_, e, _, hmem, -, hrest, rfl⟩ := mem_namesIn.mp hnames
    exact List.forall_mem_cons.mpr ⟨hisName _ hmem, ih _ hmem hrest⟩

mutual

/-- The names lead to every file once. -/
theorem Proper.nodup_namesBelow : ∀ {e : Entry}, e.Proper → e.namesBelow.Nodup
  | file _, _ => List.nodup_singleton _
  | link _, _ => List.nodup_nil
  | directory entries, h => by
    cases h with
    | directory hnodup hnames hbelow => exact nodup_namesIn entries hnodup hbelow

theorem nodup_namesIn : ∀ entries : List (String × Entry), (entries.map Prod.fst).Nodup →
    (∀ p ∈ entries, p.2.Proper) → (namesIn entries).Nodup
  | [], _, _ => List.nodup_nil
  | (name, e) :: rest, hnodup, hbelow => by
    obtain ⟨hname, hrest⟩ := List.nodup_cons.mp hnodup
    have he : e.namesBelow.Nodup := (hbelow _ (List.mem_cons_self ..)).nodup_namesBelow
    have hothers : (namesIn rest).Nodup :=
      nodup_namesIn rest hrest fun p hp => hbelow p (List.mem_cons_of_mem _ hp)
    rw [namesIn, List.nodup_append]
    refine ⟨?_, hothers, ?_⟩
    · split
      · exact List.nodup_nil
      · exact he.map List.cons_injective
    · intro names hnames _ hnames' hsame
      subst hsame
      obtain ⟨name', e', _, hmem, -, -, rfl⟩ := mem_namesIn.mp hnames'
      split at hnames
      · cases hnames
      · obtain ⟨_, -, hcons⟩ := List.mem_map.mp hnames
        obtain rfl : name = name' := (List.cons.inj hcons).1
        exact hname (List.mem_map.mpr ⟨_, hmem, rfl⟩)

end

end Entry

/-! ## The directory that is searched -/

namespace Tree

/-- A path leads, without a link at its end, to a directory of a name that is passed over. -/
def PassedOver (t : Tree) (top : String) : Prop :=
  (∃ entries, t.namedEntry? top = some (.directory entries)) ∧
    ∃ name ∈ passedOver, fileName? top = some name

variable {t : Tree} {top : String} {entries : List (String × Entry)}

/-- The last piece of a path to a directory names the directory or a link to it. -/
theorem namedEntry?_cases (h : t.entry top = .ok (.directory entries)) :
    t.namedEntry? top = some (.directory entries) ∨
      ∃ target, t.namedEntry? top = some (.link target) := by
  rcases List.eq_nil_or_concat (carried top) with hnil | ⟨above, last, hlast⟩
  · left
    unfold namedEntry?
    rw [← carried, hnil]
    exact congrArg some (eq_of_entry_root hnil h).symm
  · rw [List.concat_eq_append] at hlast
    unfold namedEntry?
    rw [← carried, hlast, List.reverse_concat]
    dsimp only
    split
    · left
      rw [h]
      rfl
    · rename_i hnamed
      obtain ⟨there, hthere, hlookup⟩ := entry_above hlast (not_or.mp hnamed).1 h
      rw [List.reverse_reverse, ← pathText, hthere]
      rcases hlookup with ⟨target, hlink⟩ | hdirectory
      · exact Or.inr ⟨target, hlink⟩
      · exact Or.inl hdirectory

/-- A search finds nothing in a directory that is passed over, and else all files below it. -/
theorem filesBelow_cases (h : t.entry top = .ok (.directory entries)) :
    (t.PassedOver top ∧ t.filesBelow top = []) ∨
      (¬t.PassedOver top ∧ t.filesBelow top = Entry.filesIn top entries) := by
  have hname : passedOver.contains ((fileName? top).getD "") ↔
      ∃ name ∈ passedOver, fileName? top = some name := by
    cases fileName? top with
    | none => exact iff_of_false (by decide) fun ⟨_, _, hnone⟩ => nomatch hnone
    | some name => simp
  rcases namedEntry?_cases h with hdirectory | ⟨target, hlink⟩
  · rw [filesBelow, hdirectory]
    by_cases hpass : ∃ name ∈ passedOver, fileName? top = some name
    · exact Or.inl ⟨⟨⟨entries, hdirectory⟩, hpass⟩, if_pos (hname.mpr hpass)⟩
    · exact Or.inr ⟨fun hover => hpass hover.2, if_neg (hname.not.mpr hpass)⟩
  · rw [filesBelow, hlink, h]
    refine Or.inr ⟨fun ⟨⟨_, hnamed⟩, _⟩ => ?_, rfl⟩
    rw [hlink] at hnamed
    cases hnamed

end Tree

/-! ## Included files -/

/-- A path fits an include pattern, or is that of a file of a known language if there is none. -/
def Included (root : String) (patterns : List String) (path : String) : Prop :=
  (patterns = [] ∧ (Language.ofPath? path).isSome) ∨
    ∃ pattern ∈ patterns, ∃ text ∈ includeGlobs pattern, ∃ glob,
      Glob.parse text = .ok glob ∧ glob.fits (relativePath root path)

/-- The globs of some texts are those that the texts stand for. -/
theorem Glob.mem_parseAll {texts : List String} {globs : List Glob}
    (h : parseAll texts = .ok globs) {glob : Glob} :
    glob ∈ globs ↔ ∃ text ∈ texts, parse text = .ok glob := by
  induction texts generalizing globs with
  | nil =>
    cases h
    simp
  | cons text texts ih =>
    rw [parseAll, List.mapM_cons] at h
    cases hfirst : parse text with
    | error refused =>
      rw [hfirst] at h
      cases h
    | ok first =>
      cases hrest : texts.mapM parse with
      | error refused =>
        rw [hfirst, hrest] at h
        cases h
      | ok rest =>
        rw [hfirst, hrest] at h
        cases h
        rw [List.mem_cons, ih hrest, List.exists_mem_cons_iff, hfirst, Except.ok.injEq]
        exact or_congr_left eq_comm

variable {root : String} {patterns : List String}

/-- What a search includes if its patterns stand for globs. -/
theorem isIncluded_iff {globs : List Glob}
    (h : Glob.parseAll (patterns.flatMap includeGlobs) = .ok globs) {path : String} :
    isIncluded root (if patterns.isEmpty then none else some globs) path ↔
      Included root patterns path := by
  cases patterns with
  | nil => simp [isIncluded, Included]
  | cons pattern patterns =>
    rw [List.isEmpty_cons, if_neg Bool.false_ne_true, isIncluded, Glob.fitsAny, List.any_eq_true,
      Included, or_iff_right fun hnone => List.cons_ne_nil _ _ hnone.1]
    constructor
    · rintro ⟨glob, hglob, hfits⟩
      obtain ⟨text, htext, hparse⟩ := (Glob.mem_parseAll h).mp hglob
      obtain ⟨_, hpattern, htext⟩ := List.mem_flatMap.mp htext
      exact ⟨_, hpattern, text, htext, glob, hparse, hfits⟩
    · rintro ⟨_, hpattern, text, htext, glob, hparse, hfits⟩
      exact ⟨glob, (Glob.mem_parseAll h).mpr
        ⟨text, List.mem_flatMap.mpr ⟨_, hpattern, htext⟩, hparse⟩, hfits⟩

/-! ## The search -/

/-- The files of a search are those that it has to cover, each once and in the order of paths. -/
structure Covers (t : Tree) (root top : String) (entries : List (String × Entry))
    (patterns : List String) (filter : SymbolFilter) (files : List String) : Prop where
  ascending : files.Pairwise fun a b => FilePath.lt a b
  exact : ∀ path, path ∈ files ↔ ¬t.PassedOver top ∧
    ∃ names, (Entry.directory entries).LeadsToFile names ∧ path = names.foldl join top ∧
      Included root patterns path ∧ ¬filter.excludes (relativePath root path)

theorem discover_eq {t : Tree} {top : String} {filter : SymbolFilter} :
    discover t root top patterns filter =
      (Glob.parseAll (patterns.flatMap includeGlobs)).map fun globs =>
        ((t.filesBelow top).filter fun path =>
          isIncluded root (if patterns.isEmpty then none else some globs) path &&
            !filter.excludes (relativePath root path)).mergeSort fun a b => !FilePath.lt b a := by
  unfold discover
  cases patterns with
  | nil => rfl
  | cons pattern patterns =>
    cases Glob.parseAll ((pattern :: patterns).flatMap includeGlobs) with
    | error refused => rfl
    | ok globs => rfl

variable {t : Tree} {top : String} {entries : List (String × Entry)} {filter : SymbolFilter}

theorem proper_of_entry (hproper : t.Proper) {e : Entry} (h : t.entry top = .ok e) :
    e.Proper := by
  unfold Tree.entry at h
  split at h
  · split at h
    · cases h
      exact hproper.at? (by assumption)
    · cases h
  · cases h

section

variable (hproper : t.Proper) (htop : t.entry top = .ok (.directory entries))

include hproper htop

/-- The files that a search sees are those to which names lead from its top. -/
theorem mem_filesBelow_iff {path : String} : path ∈ t.filesBelow top ↔ ¬t.PassedOver top ∧
    ∃ names, (Entry.directory entries).LeadsToFile names ∧ path = names.foldl join top := by
  rcases Tree.filesBelow_cases htop with ⟨hover, hnone⟩ | ⟨hopen, hall⟩
  · rw [hnone]
    exact iff_of_false List.not_mem_nil fun h => h.1 hover
  · have hnames : ∀ {names}, names ∈ Entry.namesIn entries ↔
        (Entry.directory entries).LeadsToFile names :=
      Entry.mem_namesBelow_iff (proper_of_entry hproper htop)
    rw [hall, Entry.filesIn_eq, List.mem_map, and_iff_right hopen]
    exact exists_congr fun names => and_congr hnames eq_comm

/-- The files that a search sees have places of their own in the order of paths. -/
theorem nodup_place_filesBelow : ((t.filesBelow top).map place).Nodup := by
  rcases Tree.filesBelow_cases htop with ⟨-, hnone⟩ | ⟨-, hall⟩
  · rw [hnone]
    exact List.nodup_nil
  have h := proper_of_entry hproper htop
  rw [hall, Entry.filesIn_eq, List.map_map]
  refine List.Nodup.map_on (fun names hnames names' hnames' hsame => ?_) h.nodup_namesBelow
  have hcomponents : components (names.foldl join top) = components (names'.foldl join top) :=
    Component.place_injective.list_map hsame
  rw [components_foldl_join (Entry.isName_of_mem_namesBelow h hnames),
    components_foldl_join (Entry.isName_of_mem_namesBelow h hnames')] at hcomponents
  exact List.map_injective_iff.mpr (fun _ _ => Component.name.inj)
    (List.append_cancel_left hcomponents)

end

/-- A search of a directory fails only for a pattern that is refused, and else it covers the
included files below the directory, unless this directory itself is passed over. -/
theorem discover_covers (root top : String) (patterns : List String) (filter : SymbolFilter)
    (hproper : t.Proper) (htop : t.entry top = .ok (.directory entries)) :
    (∀ refused, discover t root top patterns filter = .error refused ↔
      Glob.parseAll (patterns.flatMap includeGlobs) = .error refused) ∧
    ∀ globs, Glob.parseAll (patterns.flatMap includeGlobs) = .ok globs →
      ∃ files, discover t root top patterns filter = .ok files ∧
        Covers t root top entries patterns filter files := by
  refine ⟨fun refused => ?_, fun globs hglobs => ?_⟩
  · rw [discover_eq]
    cases Glob.parseAll (patterns.flatMap includeGlobs) with
    | error cause => rw [Except.map, Except.error.injEq, Except.error.injEq]
    | ok globs => exact iff_of_false (fun h => nomatch h) fun h => nomatch h
  · rw [discover_eq, hglobs]
    refine ⟨_, rfl, ?_, fun path => ?_⟩
    · exact pairwise_lt_mergeSort
        ((List.filter_sublist.map place).nodup (nodup_place_filesBelow hproper htop))
    · rw [List.mem_mergeSort, List.mem_filter, Bool.and_eq_true, isIncluded_iff hglobs,
        Bool.not_eq_true', ← Bool.not_eq_true, mem_filesBelow_iff hproper htop, and_assoc,
        ← exists_and_right]
      exact and_congr_right fun _ => exists_congr fun names => and_assoc

/-- A workspace `/ws` with a source in a directory of its own and one in a directory of a tool. -/
def Tree.sourceAndTool : Tree :=
  .directory [("ws", .directory [("src", .directory [("a.py", .file .empty)]),
    ("target", .directory [("b.py", .file .empty)])])]

theorem Tree.proper_sourceAndTool : sourceAndTool.Proper := by
  have hfile : ∀ name, IsName name → (Entry.directory [(name, .file .empty)]).Proper :=
    fun name hname => .directory (List.nodup_singleton _) (List.forall_mem_singleton.mpr hname)
      (List.forall_mem_singleton.mpr (.file _))
  have hworkspace : ∀ p ∈ [("src", Entry.directory [("a.py", .file .empty)]),
      ("target", .directory [("b.py", .file .empty)])], p.2.Proper :=
    List.forall_mem_cons.mpr
      ⟨hfile "a.py" (by decide), List.forall_mem_singleton.mpr (hfile "b.py" (by decide))⟩
  exact .directory (by decide) (by decide)
    (List.forall_mem_singleton.mpr (.directory (by decide) (by decide) hworkspace))

/-- The source is found from its directory, and the other one is not, although no directory between
`/ws/target` and the file is passed over. -/
theorem discover_covers_sourceAndTool :
    let filter : SymbolFilter := { kinds := [], minLength := 0, exclusions := [] }
    (∃ files, discover .sourceAndTool "/ws" "/ws/src" [] filter = .ok files ∧
        "/ws/src/a.py" ∈ files) ∧
      (Entry.directory [("b.py", .file .empty)]).LeadsToFile ["b.py"] ∧
      Included "/ws" [] "/ws/target/b.py" ∧
      discover .sourceAndTool "/ws" "/ws/target" [] filter = .ok [] := by
  intro filter
  have hclear : ∀ {name : String}, ∀ n ∈ [name].dropLast, n ∉ passedOver := fun _ hn => nomatch hn
  obtain ⟨sources, hsources, hcovers⟩ :=
    (discover_covers "/ws" "/ws/src" [] filter Tree.proper_sourceAndTool rfl).2 [] rfl
  obtain ⟨files, hfiles, hnone⟩ :=
    (discover_covers "/ws" "/ws/target" [] filter Tree.proper_sourceAndTool rfl).2 [] rfl
  refine ⟨⟨sources, hsources, (hcovers.exact _).mpr ⟨?_, ["a.py"], ⟨⟨_, rfl⟩, hclear⟩, ?_, ?_, ?_⟩⟩,
    ⟨⟨_, rfl⟩, hclear⟩, ?_, ?_⟩
  · rintro ⟨-, name, hmem, hname⟩
    revert name
    decide
  · decide
  · exact Or.inl ⟨rfl, by decide +kernel⟩
  · decide
  · exact Or.inl ⟨rfl, by decide +kernel⟩
  · rw [hfiles]
    refine congrArg Except.ok (List.eq_nil_iff_forall_not_mem.mpr fun path hpath => ?_)
    exact ((hnone.exact path).mp hpath).1 ⟨⟨_, rfl⟩, "target", by decide, by decide⟩

end CodeClones
