import CodeClones.Proofs.Finder.Incremental
import CodeClones.Proofs.Workspace.Spelling

/-!
# Runs over listed files

A run over listed files takes their paths as they are given. Files whose names are spelled out are
found and recorded as a full run does it. Under any other path that leads to a file, it is found as
another file: recorded a second time, with a second copy of all its symbols.
-/

namespace CodeClones

namespace Finder

variable {vectorOf : String → Embedding} {world : Set (String × ByteArray)} {f : Finder}
  {t : Tree} {key : String} {names : List String}

/-- The path of the file at the end of some names in the workspace. -/
def place (f : Finder) (names : List String) : String := names.foldl FilePath.join f.root

/-- A listed path spells out the names of a file in the workspace. -/
def Spells (f : Finder) (key : String) (names : List String) : Prop :=
  FilePath.SpellsOut f.root (FilePath.join f.root key) names

/-- Two paths that are recorded apart, with no symbol in common. -/
structure Apart (f : Finder) (t : Tree) (q p : String) : Prop where
  path : relativePath f.root q ≠ relativePath f.root p
  symbols : ∀ found found', f.foundAt? t q = some found → f.foundAt? t p = some found' →
    ∀ s ∈ found.2, ∀ s' ∈ found'.2, s.id ≠ s'.id

/-- Under a path that spells out the names of a file a run finds what is in this file. -/
theorem alike_of_spells (hf : f.Rooted) (hdirectory : t.holdsDirectory f.root)
    (hkey : '\\' ∉ key.toList) (hne : names ≠ []) (hnames : ∀ name ∈ names, PlainName name)
    (hfound : (f.foundAt? t (FilePath.join f.root key)).isSome) (h : f.Spells key names) :
    f.Alike t (FilePath.join f.root key) (f.place names) := by
  have hpath : relativePath f.root (FilePath.join f.root key) =
      relativePath f.root (f.place names) :=
    (relativePath_eq_iff_spellsOut hf.absolute hkey hne hnames).mpr h
  obtain ⟨⟨bytes, symbols⟩, hfound⟩ := Option.isSome_iff_exists.mp hfound
  have hread := (foundAt?_eq_some_iff.mp hfound).1
  have hsame := Tree.read_of_spellsOut hf.absolute hdirectory hkey hne hnames h hread
  exact ⟨hpath, by rw [foundAt?, foundAt?, hpath, hread, place, hsame]⟩

/-- What a run adds to an index under a listed path: a record that was not there, and rows under
identifiers that had none. -/
structure Adds (f : Finder) (t : Tree) (key : String) (g : Finder) : Prop where
  fresh : f.fileState.get? (relativePath f.root (FilePath.join f.root key)) = none
  recorded : ∀ found, f.foundAt? t (FilePath.join f.root key) = some found →
    g.fileState.get? (relativePath f.root (FilePath.join f.root key)) =
      some (recordOf f.root (FilePath.join f.root key) found).2
  rows : ∀ found, f.foundAt? t (FilePath.join f.root key) = some found →
    ∀ s ∈ found.2, f.filter.accepts s → f.row? s.id = none ∧ (g.row? s.id).isSome

end Finder

namespace Call

open Finder

variable {vectorOf : String → Embedding} {world : Set (String × ByteArray)} {f : Finder}
  {call : Call} {t t₀ : Tree} {known : List (List String)} {listed : List String}

/-- A run over listed files. -/
def IsListing (listed : List String) : Call → Prop
  | changes _ _ (some files) => files = listed
  | _ => False

/-- A run over listed files in a workspace that holds the files at the end of some plain names, where
under every listed path something is found. -/
structure Lists (world : Set (String × ByteArray)) (f : Finder) (call : Call) (t : Tree)
    (known : List (List String)) (listed : List String) : Prop
    extends call.Surveys world f t (known.map f.place) where
  listing : call.IsListing listed
  plain : ∀ names ∈ known, names ≠ [] ∧ ∀ name ∈ names, PlainName name
  slashed : ∀ key ∈ listed, '\\' ∉ key.toList
  found : ∀ key ∈ listed, (f.foundAt? t (FilePath.join f.root key)).isSome

/-- Such a run reads all listed files and forgets none. -/
theorem Lists.plan?_eq (h : call.Lists world f t known listed) :
    call.plan? f = some ⟨listed.map (FilePath.join f.root), []⟩ ∧ ¬call.startsAnew f := by
  have hholds : ∀ path ∈ listed.map (FilePath.join f.root), t.holdsFile path := by
    intro path hp
    obtain ⟨key, hkey, rfl⟩ := List.mem_map.mp hp
    obtain ⟨found, hfound⟩ := Option.isSome_iff_exists.mp (h.found key hkey)
    rw [Tree.holdsFile, Tree.read_eq_ok_iff.mp (foundAt?_eq_some_iff.mp hfound).1]
    rfl
  have hplan : planListed t f.root listed = ⟨listed.map (FilePath.join f.root), []⟩ := by
    rw [planListed, List.filter_eq_self.mpr hholds,
      List.filter_eq_nil_iff.mpr fun path hp => by simp [hholds path hp]]
    rfl
  have hlisting := h.listing
  cases call with
  | full => cases hlisting
  | clear => cases hlisting
  | changes c o files =>
    cases files with
    | none => cases hlisting
    | some files =>
      obtain rfl : files = listed := hlisting
      refine ⟨?_, by simp [startsAnew]⟩
      rw [plan?, show c.views.scan = t from h.scan, hplan]

/-- A listed path that spells out the names of a file stands for this file. -/
theorem Lists.alike (hf : f.Rooted) (h : call.Lists world f t known listed) {key : String}
    (hkey : key ∈ listed) {names : List String} (hnames : names ∈ known)
    (hspells : f.Spells key names) : f.Alike t (FilePath.join f.root key) (f.place names) :=
  alike_of_spells hf h.directory (h.slashed key hkey) (h.plain names hnames).1
    (h.plain names hnames).2 (h.found key hkey) hspells

theorem Lists.path_eq_iff (hf : f.Rooted) (h : call.Lists world f t known listed) {key : String}
    (hkey : key ∈ listed) {names : List String} (hnames : names ∈ known) :
    relativePath f.root (FilePath.join f.root key) = relativePath f.root (f.place names) ↔
      f.Spells key names :=
  relativePath_eq_iff_spellsOut hf.absolute (h.slashed key hkey) (h.plain names hnames).1
    (h.plain names hnames).2

/-- What is found under a listed path is known. -/
theorem Lists.inside_world (h : call.Lists world f t known listed) {key : String}
    (hkey : key ∈ listed) {found : ByteArray × List Symbol}
    (hfound : f.foundAt? t (FilePath.join f.root key) = some found) :
    (relativePath f.root (FilePath.join f.root key), found.1) ∈ world :=
  h.inside _ h.plan?_eq.1 _ (List.mem_map_of_mem hkey) _
    (h.scan ▸ (foundAt?_eq_some_iff.mp hfound).1)

/-- Any other listed path stands for another file. -/
theorem Lists.apart_of_not_spells (hf : f.Regular world vectorOf)
    (h : call.Lists world f t known listed) {key : String} (hkey : key ∈ listed)
    {names : List String} (hnames : names ∈ known) (hother : ¬f.Spells key names) :
    f.Apart t (FilePath.join f.root key) (f.place names) := by
  have hpath := mt (h.path_eq_iff hf.rooted hkey hnames).mp hother
  refine ⟨hpath, fun found found' hfound hfound' s hs s' hs' hid => hpath ?_⟩
  exact found_eq_of_id hf.distinguished hfound hfound' (h.inside_world hkey hfound)
    (h.known _ (List.mem_map_of_mem hnames) _ hfound') hs hs' hid

/-- If all listed paths spell out names of files, and no other files have changed, the run renews
the index of the workspace. -/
theorem Lists.renews (hf : f.Rooted) (h₀ : f.Indexes world vectorOf t₀ (known.map f.place))
    (h : call.Lists world f t known listed)
    (hsame : ∀ names ∈ known, (∀ key ∈ listed, ¬f.Spells key names) →
      f.foundAt? t₀ (f.place names) = f.foundAt? t (f.place names))
    (hall : ∀ key ∈ listed, ∃ names ∈ known, f.Spells key names) :
    call.Renews world f ⟨listed.map (FilePath.join f.root), []⟩ t t₀ (known.map f.place)
      (known.map f.place) fun p => ∃ key ∈ listed, f.Alike t (FilePath.join f.root key) p where
  toSurveys := h.toSurveys
  planned := h.plan?_eq.1
  keeps := h.plan?_eq.2
  aims :=
    { only := fun q hq => by
        obtain ⟨key, hkey, rfl⟩ := List.mem_map.mp hq
        obtain ⟨names, hnames, hspells⟩ := hall key hkey
        have halike := h.alike hf hkey hnames hspells
        exact ⟨_, ⟨List.mem_map_of_mem hnames, key, hkey, halike⟩, halike⟩
      all := fun p ⟨_, key, hkey, halike⟩ => ⟨_, List.mem_map_of_mem hkey, halike⟩
      apart := fun p hp p' hp' => h.apart p hp.1 p' hp'.1
      inside := fun p hp => h.known p hp.1 }
  other p hp hother := by
    obtain ⟨names, hnames, rfl⟩ := List.mem_map.mp hp
    refine ⟨_, hp, hsame names hnames fun key hkey hspells => hother ?_, rfl⟩
    exact ⟨key, hkey, h.alike hf hkey hnames hspells⟩
  mem_deleted {path} := by
    refine iff_of_false List.not_mem_nil ?_
    rintro ⟨hsome, hnone⟩
    obtain ⟨record, hget⟩ := Option.isSome_iff_exists.mp hsome
    obtain ⟨p, hp, found, _, hrecord⟩ := (h₀.records _ _).mp hget
    exact hnone p hp (Prod.mk.inj hrecord).1

/-- Under listed paths that are recorded as the same one the same is found. -/
theorem Lists.found_eq (hf : f.Rooted) (h : call.Lists world f t known listed) {key key' : String}
    (hkey : key ∈ listed) (hkey' : key' ∈ listed)
    (hpath : relativePath f.root (FilePath.join f.root key) =
      relativePath f.root (FilePath.join f.root key')) :
    f.foundAt? t (FilePath.join f.root key) = f.foundAt? t (FilePath.join f.root key') := by
  have hback : ∀ {key}, key ∈ listed → t.read (FilePath.join f.root key) =
      t.read (FilePath.join f.root (relativePath f.root (FilePath.join f.root key))) := by
    intro key hkey
    obtain ⟨found, hfound⟩ := Option.isSome_iff_exists.mp (h.found key hkey)
    have hread := (foundAt?_eq_some_iff.mp hfound).1
    rw [hread, Tree.read_join_relativePath hf.absolute h.directory (h.slashed key hkey) hread]
  rw [foundAt?, foundAt?, hback hkey, hback hkey', hpath]

/-- The run writes a record for each listed file. -/
theorem Lists.mem_recordsIn (hf : f.Rooted) (h : call.Lists world f t known listed)
    {e : String × FileRecord} :
    e ∈ f.recordsIn call.conditions (listed.map (FilePath.join f.root)) ↔
      ∃ key ∈ listed, ∃ found, f.foundAt? t (FilePath.join f.root key) = some found ∧
        recordOf f.root (FilePath.join f.root key) found = e := by
  rw [← h.scan, mem_recordsIn_iff hf h.still h.plan?_eq.1]
  simp only [List.mem_map, exists_exists_and_eq_and]

/-- Every listed file is recorded as it is. -/
theorem Lists.recorded (hf : f.Rooted) (h : call.Lists world f t known listed) {key : String}
    (hkey : key ∈ listed) {found : ByteArray × List Symbol}
    (hfound : f.foundAt? t (FilePath.join f.root key) = some found) :
    (call.after f).fileState.get? (relativePath f.root (FilePath.join f.root key)) =
      some (recordOf f.root (FilePath.join f.root key) found).2 := by
  have hagree : ∀ e ∈ f.recordsIn call.conditions (listed.map (FilePath.join f.root)),
      ∀ e' ∈ f.recordsIn call.conditions (listed.map (FilePath.join f.root)),
        e.1 = e'.1 → e.2 = e'.2 := by
    intro e he e' he' hsame
    obtain ⟨key, hkey, found, hfound, rfl⟩ := (h.mem_recordsIn hf).mp he
    obtain ⟨key', hkey', found', hfound', rfl⟩ := (h.mem_recordsIn hf).mp he'
    rw [recordOf_fst, recordOf_fst] at hsame
    rw [h.found_eq hf hkey hkey' hsame] at hfound
    rw [Option.some.inj (hfound.symm.trans hfound')]
    rfl
  have hwritten := (SortedMap.find?_reverse_eq_some_iff hagree).mpr
    ⟨_, (h.mem_recordsIn hf).mpr ⟨key, hkey, found, hfound, rfl⟩, recordOf_fst .., rfl⟩
  obtain ⟨vectors, hr⟩ := reindexed_of_done h.plan?_eq.1 h.done
  rw [hr.fileState_all, get?_committed, if_neg List.not_mem_nil]
  exact Option.or_eq_some_iff.mpr (Or.inl hwritten)

/-- The accepted symbols of every listed file are stored. -/
theorem Lists.stored (hf : f.Rooted) (h : call.Lists world f t known listed) {key : String}
    (hkey : key ∈ listed) {found : ByteArray × List Symbol}
    (hfound : f.foundAt? t (FilePath.join f.root key) = some found) {s : Symbol}
    (hs : s ∈ found.2) (haccept : f.filter.accepts s) : ((call.after f).row? s.id).isSome := by
  obtain ⟨vectors, hr⟩ := reindexed_of_done h.plan?_eq.1 h.done
  have hselected := h.mem_selected hf h.plan?_eq.1 (List.mem_map_of_mem hkey)
    (h.scan ▸ hfound) hs haccept
  have hlength := (Engine.length_embed hr.embed).trans (List.length_map _)
  rw [hr.rows, Option.isSome_or, Option.isSome_map,
    lastWith_symbolRecords_isSome hlength hselected, Bool.true_or]

/-- Under a listed path that spells out no names of a file the run adds another file. -/
theorem Lists.adds (hf : f.Regular world vectorOf)
    (h₀ : f.Indexes world vectorOf t₀ (known.map f.place)) (h : call.Lists world f t known listed)
    {key : String} (hkey : key ∈ listed) (hother : ∀ names ∈ known, ¬f.Spells key names) :
    f.Adds t key (call.after f) := by
  have hpath : ∀ p ∈ known.map f.place,
      relativePath f.root (FilePath.join f.root key) ≠ relativePath f.root p := by
    intro p hp
    obtain ⟨names, hnames, rfl⟩ := List.mem_map.mp hp
    exact mt (h.path_eq_iff hf.rooted hkey hnames).mp (hother names hnames)
  refine ⟨?_, fun found => h.recorded hf.rooted hkey, fun found hfound s hs haccept =>
    ⟨?_, h.stored hf.rooted hkey hfound hs haccept⟩⟩
  · refine Option.eq_none_iff_forall_ne_some.mpr fun record hget => ?_
    obtain ⟨p, hp, found, _, hrecord⟩ := (h₀.records _ _).mp hget
    exact hpath p hp (Prod.mk.inj hrecord).1.symm
  · refine Option.eq_none_iff_forall_ne_some.mpr fun row hrow => ?_
    obtain ⟨p, hp, found', hfound', hamong⟩ := (h₀.rows _ _).mp hrow
    obtain ⟨s', hs', hid⟩ := mem_of_rowAmong? hamong
    exact hpath p hp (found_eq_of_id hf.distinguished hfound hfound' (h.inside_world hkey hfound)
      (h₀.known p hp _ hfound') hs hs' hid.symm)

/-- A run over listed files, of which the unlisted ones are as they were, takes a listed path for a
file exactly if the path spells out its names, and finds the symbols of another file under any other
one. It leaves the index of the workspace exactly if all listed paths spell out names of files. For
every other path it adds a record and a second copy of the symbols. -/
theorem listing_identifies (hf : f.Regular world vectorOf)
    (h₀ : f.Indexes world vectorOf t₀ (known.map f.place)) (h : call.Lists world f t known listed)
    (hsame : ∀ names ∈ known, (∀ key ∈ listed, ¬f.Spells key names) →
      f.foundAt? t₀ (f.place names) = f.foundAt? t (f.place names)) :
    (∀ key ∈ listed, ∀ names ∈ known,
      (f.Spells key names → f.Alike t (FilePath.join f.root key) (f.place names)) ∧
        (¬f.Spells key names → f.Apart t (FilePath.join f.root key) (f.place names))) ∧
      ((call.after f).Indexes world vectorOf t (known.map f.place) ↔
        ∀ key ∈ listed, ∃ names ∈ known, f.Spells key names) ∧
        ∀ key ∈ listed, (∀ names ∈ known, ¬f.Spells key names) → f.Adds t key (call.after f) := by
  refine ⟨fun key hkey names hnames => ⟨h.alike hf.rooted hkey hnames,
    h.apart_of_not_spells hf hkey hnames⟩, ⟨fun hafter key hkey => ?_, fun hall =>
      (h.renews hf.rooted h₀ hsame hall).indexes_after hf h₀⟩, fun key => h.adds hf h₀⟩
  by_contra hnone
  have hadds := h.adds hf h₀ hkey fun names hnames hspells => hnone ⟨names, hnames, hspells⟩
  obtain ⟨found, hfound⟩ := Option.isSome_iff_exists.mp (h.found key hkey)
  -- the added record is that of no file of the workspace
  obtain ⟨p, hp, _, _, hrecord⟩ := (hafter.records _ _).mp (hadds.recorded found hfound)
  obtain ⟨names, hnames, rfl⟩ := List.mem_map.mp hp
  have hroot : (call.after f).root = f.root := congrArg Setup.root (setup_after f call)
  rw [hroot] at hrecord
  exact hnone ⟨names, hnames,
    (h.path_eq_iff hf.rooted hkey hnames).mp (Prod.mk.inj hrecord).1.symm⟩

end Call

namespace Finder

open Call

/-- The file `a.py` under its path in the workspace, and under a path that leads there from outside.
-/
def twoPaths : Set (String × ByteArray) :=
  {("a.py", oneLine.toUTF8), ("../ws/a.py", oneLine.toUTF8)}

theorem distinguished_twoPaths : Distinguished unindexed.extractor twoPaths := by
  have hdiffer : Digest.Blake3.hexOfText "a.py\nf\n1\nfunction" ≠
      Digest.Blake3.hexOfText "../ws/a.py\nf\n1\nfunction" := by
    decide +kernel
  have hone : ∀ s ∈ (unindexed.extractor.found? "a.py" oneLine.toUTF8).getD [],
      s.ownText = "a.py\nf\n1\nfunction" := by
    decide +kernel
  have hother : ∀ s ∈ (unindexed.extractor.found? "../ws/a.py" oneLine.toUTF8).getD [],
      s.ownText = "../ws/a.py\nf\n1\nfunction" := by
    decide +kernel
  refine distinguished_of_plainPaths ?_ ?_ ?_
  · rintro _ (rfl | rfl)
    · exact ⟨by decide +kernel, by decide +kernel⟩
    · exact ⟨by decide +kernel, by decide +kernel⟩
  · rintro _ (rfl | rfl) _ (rfl | rfl) _ <;> rfl
  · rintro _ (rfl | rfl) _ (rfl | rfl) s hs s' hs' hid
    · rw [hone s hs, hone s' hs']
    · rw [hone s hs, hother s' hs'] at hid
      exact absurd hid hdiffer
    · rw [hother s hs, hone s' hs'] at hid
      exact absurd hid.symm hdiffer
    · rw [hother s hs, hother s' hs']

/-- A finder after a full run over this file. -/
def indexedOnce : Finder := (fullRun oneLine).after unindexed

theorem indexedOnce_setup : indexedOnce.setup = unindexed.setup := setup_after _ _

theorem indexedOnce_root : indexedOnce.root = "/ws" := congrArg Setup.root indexedOnce_setup

/-- The file stands in the root of the workspace. -/
theorem places_indexedOnce : [["a.py"]].map indexedOnce.place = ["/ws/a.py"] := by
  rw [show indexedOnce.place = fun names => names.foldl FilePath.join "/ws" from
    indexedOnce_root ▸ rfl]
  decide +kernel

/-- A run that lists this file twice, once under its name. -/
def listedTwice : Call := .changes (oneFileConditions oneLine) {} (some ["./a.py", "../ws/a.py"])

theorem within_listedTwice : listedTwice.Within twoPaths indexedOnce := by
  have hplan : listedTwice.plan? indexedOnce = some ⟨["/ws/./a.py", "/ws/../ws/a.py"], []⟩ := by
    rw [listedTwice, plan?, indexedOnce_root]
    decide +kernel
  refine ⟨rfl, ?_, ?_⟩
  · rintro plan h p hp bytes hbytes
    cases hplan.symm.trans h
    have hpath : relativePath "/ws" "/ws/./a.py" = "a.py" := by decide +kernel
    have hpath' : relativePath "/ws" "/ws/../ws/a.py" = "../ws/a.py" := by decide +kernel
    rw [indexedOnce_root]
    rcases List.mem_cons.mp hp with rfl | hp
    · rw [hpath]
      cases (show Tree.read _ "/ws/./a.py" = .ok oneLine.toUTF8 from rfl).symm.trans hbytes
      exact Or.inl rfl
    · cases List.mem_singleton.mp hp
      rw [hpath']
      cases (show Tree.read _ "/ws/../ws/a.py" = .ok oneLine.toUTF8 from rfl).symm.trans hbytes
      exact Or.inr rfl
  · rintro plan h
    cases hplan.symm.trans h
    decide +kernel

theorem lists_listedTwice : listedTwice.Lists twoPaths indexedOnce (.oneFile oneLine.toUTF8)
    [["a.py"]] ["./a.py", "../ws/a.py"] where
  toSurveys := places_indexedOnce ▸ surveys_oneFile indexedOnce_setup rfl (by decide +kernel)
    (by decide +kernel) within_listedTwice (Or.inl rfl) (by decide +kernel)
  listing := rfl
  plain names hnames := by
    cases List.mem_singleton.mp hnames
    exact ⟨List.cons_ne_nil _ _, plainNames_oneFile⟩
  slashed := by decide +kernel
  found := by
    rw [foundAt?_of_setup indexedOnce_setup, indexedOnce_root]
    decide +kernel

/-- The run finds the file under its name. Under the other path it adds the file again, so that the
index is not that of the workspace any more. -/
theorem added_by_listedTwice :
    indexedOnce.Alike (.oneFile oneLine.toUTF8) (FilePath.join indexedOnce.root "./a.py")
        (indexedOnce.place ["a.py"]) ∧
      indexedOnce.Adds (.oneFile oneLine.toUTF8) "../ws/a.py" (listedTwice.after indexedOnce) ∧
      ¬(listedTwice.after indexedOnce).Indexes twoPaths (hashedWords 4) (.oneFile oneLine.toUTF8)
        ([["a.py"]].map indexedOnce.place) := by
  have hregular : unindexed.Regular twoPaths (hashedWords 4) :=
    ⟨⟨rfl, rfl⟩, .of_answer fun _ => rfl, distinguished_twoPaths⟩
  have hf := hregular.of_setup indexedOnce_setup
  have hindex : indexedOnce.Indexes twoPaths (hashedWords 4) (.oneFile oneLine.toUTF8)
      ([["a.py"]].map indexedOnce.place) :=
    places_indexedOnce ▸ indexes_after_full hregular (show (fullRun oneLine).IsFull unindexed from
      ⟨by decide +kernel, rfl⟩) (surveys_fullRun (Or.inl rfl))
  have hspelled : indexedOnce.Spells "./a.py" ["a.py"] :=
    (lists_listedTwice.path_eq_iff hf.rooted (by decide) (by decide)).mp (by
      rw [place, indexedOnce_root]
      decide +kernel)
  have hother : ∀ names ∈ [["a.py"]], ¬indexedOnce.Spells "../ws/a.py" names := by
    intro names hnames
    cases List.mem_singleton.mp hnames
    refine mt (lists_listedTwice.path_eq_iff hf.rooted (by decide) (by decide)).mpr ?_
    rw [place, indexedOnce_root]
    decide +kernel
  obtain ⟨hnamed, hkept, hadded⟩ := listing_identifies hf hindex lists_listedTwice fun _ _ _ => rfl
  refine ⟨(hnamed _ (by decide) _ (by decide)).1 hspelled, hadded _ (by decide) hother, ?_⟩
  intro hafter
  obtain ⟨names, hnames, hspells⟩ := hkept.mp hafter "../ws/a.py" (by decide)
  exact hother names hnames hspells

end Finder

end CodeClones
