import CodeClones.Proofs.SortedMap
import CodeClones.Workspace.Discovery

/-!
# Detected changes

The digests of some files stand under their paths in the workspace. A file counts as changed if the
record of its path has another digest or is missing, and as gone if no file has the path of a
record.
-/

namespace CodeClones

variable {t : Tree} {root : String} {files : List String} {s : FileState}

private theorem digests_eq (t : Tree) (root : String) (files : List String) :
    digests (fun _ => t) root files =
      (files.filterMap fun p => (t.digest? p).map fun d => (relativePath root p, d)).foldl
        (fun m e => m.insert e.1 e.2) {} := by
  have hfold : ∀ (add : SortedMap String → String × Nat → SortedMap String),
      (∀ m path i, add m (path, i) =
        (t.digest? path).elim m fun d => m.insert (relativePath root path) d) →
      ∀ (n : Nat) (m : SortedMap String), (files.zipIdx n).foldl add m =
        (files.filterMap fun p => (t.digest? p).map fun d => (relativePath root p, d)).foldl
          (fun m e => m.insert e.1 e.2) m := by
    intro add hadd
    induction files with
    | nil => exact fun _ _ => rfl
    | cons path files ih =>
      intro n m
      rw [List.zipIdx_cons, List.foldl_cons, ih, List.filterMap_cons, hadd]
      cases t.digest? path <;> rfl
  rw [digests]
  refine hfold _ (fun m path i => ?_) 0 {}
  dsimp only
  cases t.digest? path <;> rfl

/-- What is told of the last file with a path in the workspace of which anything is told. -/
def lastUnder? {α : Type} (root : String) (tell : String → Option α) (files : List String)
    (key : String) : Option α :=
  (files.reverse.find? fun p => relativePath root p == key && (tell p).isSome).bind tell

section LastUnder

variable {α β : Type} {tell : String → Option α} {key : String}

/-- Of some entries with the paths of their files the last one under a path counts. -/
theorem find?_filterMap_eq_lastUnder? (tell : String → Option α) :
    ((files.filterMap fun p => (tell p).map fun a => (relativePath root p, a)).reverse.find?
      fun e => e.1 == key).map (·.2) = lastUnder? root tell files key := by
  rw [← List.filterMap_reverse, lastUnder?]
  induction files.reverse with
  | nil => rfl
  | cons p files ih =>
    cases ha : tell p with
    | none => simpa only [List.filterMap_cons, List.find?_cons, ha, Option.map_none,
        Option.isSome_none, Bool.and_false] using ih
    | some a =>
      by_cases hp : relativePath root p = key
      · simp [hp, ha]
      · simpa [List.find?_cons, hp, ha] using ih

theorem lastUnder?_map (tell : String → Option α) (f : α → β) :
    lastUnder? root (fun p => (tell p).map f) files key =
      (lastUnder? root tell files key).map f := by
  simp only [lastUnder?, Option.isSome_map, Option.map_bind]
  rfl

theorem lastUnder?_eq_none_iff :
    lastUnder? root tell files key = none ↔
      ∀ p ∈ files, relativePath root p = key → tell p = none := by
  rw [lastUnder?, Option.bind_eq_none_iff]
  constructor
  · intro h p hp hkey
    by_contra hsome
    have hthere : (files.reverse.find? fun p => relativePath root p == key &&
        (tell p).isSome).isSome :=
      List.find?_isSome.mpr ⟨p, List.mem_reverse.mpr hp,
        by simpa [hkey, Option.isSome_iff_ne_none] using hsome⟩
    obtain ⟨q, hq⟩ := Option.isSome_iff_exists.mp hthere
    have htold := List.find?_some hq
    rw [h q hq] at htold
    simp at htold
  · intro h p hp
    have hfound := List.find?_some hp
    simp only [Bool.and_eq_true, beq_iff_eq] at hfound
    exact h p (List.mem_reverse.mp (List.mem_of_find?_eq_some hp)) hfound.1

/-- Where files have paths of their own, each of them is the last one under its path. -/
theorem lastUnder?_relativePath
    (hapart : ∀ p ∈ files, ∀ q ∈ files, relativePath root p = relativePath root q → p = q)
    {p : String} (hp : p ∈ files) : lastUnder? root tell files (relativePath root p) = tell p := by
  cases ha : tell p with
  | none =>
    refine lastUnder?_eq_none_iff.mpr fun q hq hkey => ?_
    rw [hapart q hq p hp hkey, ha]
  | some a =>
    have hthere : (files.reverse.find? fun q => relativePath root q == relativePath root p &&
        (tell q).isSome).isSome :=
      List.find?_isSome.mpr ⟨p, List.mem_reverse.mpr hp, by simp [ha]⟩
    obtain ⟨q, hq⟩ := Option.isSome_iff_exists.mp hthere
    have hkey := List.find?_some hq
    simp only [Bool.and_eq_true, beq_iff_eq] at hkey
    rw [lastUnder?, hq, Option.bind_some,
      hapart q (List.mem_reverse.mp (List.mem_of_find?_eq_some hq)) p hp hkey.1, ha]

/-- The digest under a path is that of the last file there that can be read. -/
theorem get?_digests_eq_lastUnder? :
    (digests (fun _ => t) root files).get? key = lastUnder? root t.digest? files key := by
  rw [digests_eq, SortedMap.get?_foldl_insert, SortedMap.get?_empty, Option.or_none]
  exact find?_filterMap_eq_lastUnder? t.digest?

end LastUnder

/-- A digest stands under a path if it is that of a file with this path in the workspace. -/
theorem get?_digests (hapart : ∀ p ∈ files, ∀ q ∈ files,
      relativePath root p = relativePath root q → t.digest? p = t.digest? q)
    {key digest : String} :
    (digests (fun _ => t) root files).get? key = some digest ↔
      ∃ p ∈ files, relativePath root p = key ∧ t.digest? p = some digest := by
  rw [digests_eq, SortedMap.get?_foldl_insert, SortedMap.get?_empty, Option.or_none,
    SortedMap.find?_reverse_eq_some_iff]
  · simp only [List.mem_filterMap, Option.map_eq_some_iff]
    constructor
    · rintro ⟨_, ⟨p, hp, d, hd, rfl⟩, rfl, rfl⟩
      dsimp only
      exact ⟨p, hp, rfl, hd⟩
    · rintro ⟨p, hp, rfl, hd⟩
      exact ⟨_, ⟨p, hp, digest, hd, rfl⟩, rfl, rfl⟩
  · simp only [List.mem_filterMap, Option.map_eq_some_iff]
    rintro _ ⟨p, hp, d, hd, rfl⟩ _ ⟨q, hq, d', hd', rfl⟩ hkey
    dsimp only at hkey ⊢
    have hsome : some d = some d' := by rw [← hd, ← hd', hapart p hp q hq hkey]
    exact Option.some.inj hsome

namespace FileState

theorem differs_iff {path digest : String} :
    differs s path digest ↔ (s.get? path).map (·.digest) ≠ some digest := by
  rw [differs]
  cases s.get? path <;> simp

/-- The changed paths are those with another digest than the recorded one. -/
theorem mem_detect_changed {current : SortedMap String} {path : String} :
    path ∈ (detect s current).changed ↔
      ∃ digest, current.get? path = some digest ∧ differs s path digest := by
  rw [detect]
  simp only [List.mem_map, List.mem_filter, Prod.exists, SortedMap.get?_eq_some_iff]
  constructor
  · rintro ⟨_, digest, ⟨hmem, hdiffers⟩, rfl⟩
    exact ⟨digest, hmem, hdiffers⟩
  · rintro ⟨digest, hmem, hdiffers⟩
    exact ⟨path, digest, ⟨hmem, hdiffers⟩, rfl⟩

/-- The paths that are gone are recorded without a present digest. -/
theorem mem_detect_deleted {current : SortedMap String} {path : String} :
    path ∈ (detect s current).deleted ↔ (s.get? path).isSome ∧ current.get? path = none := by
  rw [detect, List.mem_filter, SortedMap.mem_keys_iff, SortedMap.contains]
  simp

end FileState

end CodeClones
