import CodeClones.Proofs.FilePath
import CodeClones.Proofs.Metadata
import CodeClones.Proofs.Symbol

/-!
# Symbols that are built again from their stored path

Normalizing drops one `./` from the front of a path, however many stand there. A symbol takes its
path with one of them dropped and its identifier with two, and what is built again from the stored
path drops one more in both. So the path changes if there were two, and the identifier if there were
three.
-/

namespace CodeClones

/-- The characters of a path with slashes only. -/
def slashed (path : String) : List Char := path.toList.map fun c => if c = '\\' then '/' else c

/-- How often a text begins with `./`, one behind the other. -/
def leadingDots : List Char → Nat
  | '.' :: '/' :: rest => leadingDots rest + 1
  | _ => 0

/-- How often the present directory is named at the front of a path. -/
def dotsBefore (path : String) : Nat := leadingDots (slashed path)

theorem slashed_normalizePath (path : String) :
    slashed (normalizePath path) = (normalizePath path).toList := by
  refine (List.map_congr_left fun c hc => if_neg ?_).trans (List.map_id _)
  rintro rfl
  exact backslash_not_mem_normalizePath path hc

/-- Normalizing drops one of them. -/
theorem dotsBefore_normalizePath (path : String) :
    dotsBefore (normalizePath path) = dotsBefore path - 1 := by
  rw [dotsBefore, slashed_normalizePath, dotsBefore, normalizePath]
  change leadingDots (String.toList (match slashed path with
    | '.' :: '/' :: rest => String.ofList rest
    | text => String.ofList text)) = _
  split
  · rename_i rest hrest
    rw [hrest, leadingDots, String.toList_ofList, Nat.add_sub_cancel]
  · rename_i hother
    rw [String.toList_ofList, leadingDots.eq_2 _ hother]

/-- A path is normalized a second time without effect exactly if at most one stood there. -/
theorem normalizePath_normalizePath_eq_iff {path : String} :
    normalizePath (normalizePath path) = normalizePath path ↔ dotsBefore path ≤ 1 := by
  have hdots := dotsBefore_normalizePath path
  constructor
  · intro h
    have hagain := congrArg dotsBefore h
    rw [dotsBefore_normalizePath, hdots] at hagain
    omega
  · intro h
    refine normalizePath_eq_self (backslash_not_mem_normalizePath path) fun rest hrest => ?_
    rw [dotsBefore, slashed_normalizePath, hrest, leadingDots] at hdots
    omega

namespace Symbol

theorem identityText_eq_iff {path path' name : String} {line : Nat} {kind : Kind} :
    identityText path name line kind = identityText path' name line kind ↔
      normalizePath path = normalizePath path' := by
  simp [identityText]

section

variable {name : String} {kind : Kind} {path : String} {line : Nat} {content : String}

/-- What comes back from the metadata of a symbol is made for its stored path. -/
theorem restored_make : (make name kind path line content).restored =
    make name kind (make name kind path line content).filePath line content := by
  simp only [restored, make, max_assoc, max_self]

/-- The symbol that is made for the stored path is the same exactly if its path is. -/
theorem make_normalizePath_eq_iff :
    make name kind (normalizePath path) line content = make name kind path line content ↔
      normalizePath (normalizePath path) = normalizePath path := by
  refine ⟨congrArg Symbol.filePath, fun h => ?_⟩
  rw [make, h]
  rfl

theorem ownText_make_normalizePath_eq_iff :
    (make name kind (normalizePath path) line content).ownText =
        (make name kind path line content).ownText ↔
      normalizePath (normalizePath (normalizePath path)) = normalizePath (normalizePath path) :=
  identityText_eq_iff

/-- Made again for its stored path, a symbol is the same, and normalizing leaves that path alone,
exactly if at most one `./` stood at the front of the first path. If the digests of the two texts do
not collide, it keeps its identifier exactly if at most two did; then its metadata are read as the
symbol made again, and otherwise they are refused for the identifier. -/
theorem make_storedPath (hwords : (make name kind path line content).InWords)
    (hdigests : (make name kind (normalizePath path) line content).id =
        (make name kind path line content).id →
      (make name kind (normalizePath path) line content).ownText =
        (make name kind path line content).ownText) :
    let s := make name kind path line content
    let again := make name kind s.filePath line content
    (normalizePath s.filePath = s.filePath ↔ dotsBefore path ≤ 1) ∧
      (again.filePath = s.filePath ↔ dotsBefore path ≤ 1) ∧
      (again = s ↔ dotsBefore path ≤ 1) ∧
      (again.id = s.id ↔ dotsBefore path ≤ 2) ∧
      ofMetadata s.toMetadata =
        if dotsBefore path ≤ 2 then .ok again
        else .error (.invalidField "id" ("expected " ++ again.id ++ ", found " ++ s.id)) := by
  intro s again
  have hpath : normalizePath (normalizePath path) = normalizePath path ↔ dotsBefore path ≤ 1 :=
    normalizePath_normalizePath_eq_iff
  have hid : again.id = s.id ↔ dotsBefore path ≤ 2 := by
    have htext : again.ownText = s.ownText ↔ dotsBefore path ≤ 2 := by
      refine ownText_make_normalizePath_eq_iff.trans ?_
      rw [normalizePath_normalizePath_eq_iff, dotsBefore_normalizePath, Nat.sub_le_iff_le_add]
    exact ⟨fun h => htext.mp (hdigests h), fun h => congrArg Digest.Blake3.hexOfText (htext.mpr h)⟩
  refine ⟨hpath, hpath, make_normalizePath_eq_iff.trans hpath, hid, ?_⟩
  rw [ofMetadata_of_describes s.describes_toMetadata hwords, restored_make]
  exact if_congr (eq_comm.trans hid) rfl rfl

end

/-- Of three times the present directory in front, once with a backslash, the stored path keeps two
and the identifier one. -/
theorem make_storedPath_threeDots :
    let s := make "f" .function "./.\\./a.py" 1 "def f(): return 1"
    s.filePath = "././a.py" ∧ normalizePath s.filePath ≠ s.filePath ∧
      ofMetadata s.toMetadata = .error (.invalidField "id"
        ("expected " ++ identity "./a.py" "f" 1 .function ++ ", found " ++ s.id)) := by
  intro s
  have hstored : s.filePath = "././a.py" := by decide +kernel
  have hagain : normalizePath s.filePath = "./a.py" := by decide +kernel
  have hdots : dotsBefore "./.\\./a.py" = 3 := by decide +kernel
  have hwords : s.InWords := ⟨by decide, by decide +kernel⟩
  obtain ⟨hpath, -, -, -, hback⟩ := make_storedPath hwords (by decide +kernel)
  rw [hdots] at hpath hback
  refine ⟨hstored, mt hpath.mp (by decide), hback.trans ?_⟩
  rw [if_neg (by decide), make, hagain]
  rfl

end Symbol

end CodeClones
