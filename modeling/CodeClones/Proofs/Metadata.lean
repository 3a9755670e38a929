import CodeClones.Proofs.SortedMap
import CodeClones.Symbol.Metadata
import Mathlib.Data.List.Induction

/-!
# Restoring symbols from their metadata

The metadata of a symbol tell everything about it. What comes back from them has a plain path, lines
that are counted from one, and the identifier of its own fields. So a symbol of that kind comes back
as it is, and any other one comes back different or is refused for its identifier.
-/

namespace CodeClones

/-- A number that fits in a word is read as it was written. -/
theorem Json.Value.asWord?_ofNat {n : Nat} (h : n < UInt64.size) : (ofNat n).asWord? = some n := by
  have hword : (0 : Int) ≤ n ∧ (n : Int) < UInt64.size := ⟨Int.natCast_nonneg n, Int.ofNat_lt.mpr h⟩
  rw [ofNat, asWord?, if_pos hword, Int.toNat_natCast]

/-- Every kind is found by its name. -/
theorem Kind.ofName?_name (k : Kind) : ofName? k.name = some k := by
  cases k <;> decide

namespace Json.Object

/-- Entries are put in their place as in any map. -/
theorem insert_eq_insertEntry (o : Object) (key : String) (value : Value) :
    insert key value o = SortedMap.insertEntry key value o := by
  induction o with
  | nil => rfl
  | cons e rest ih => rw [insert, SortedMap.insertEntry, ih]

/-- A new entry changes nothing under other keys. -/
theorem get?_insert (o : Object) (key : String) (value : Value) (k : String) :
    (insert key value o).get? k = if k = key then some value else o.get? k := by
  rw [insert_eq_insertEntry]
  exact SortedMap.lookup_insertEntry key value o k

/-- Of the entries under a key the last one counts. -/
theorem get?_ofList (entries : List (String × Value)) (k : String) :
    (ofList entries).get? k = entries.reverse.lookup k := by
  induction entries using List.reverseRecOn with
  | nil => rfl
  | append_singleton entries e ih =>
    obtain ⟨key, value⟩ := e
    have hlast : ofList (entries ++ [(key, value)]) = insert key value (ofList entries) := by
      simp only [ofList, List.foldl_append, List.foldl_cons, List.foldl_nil]
    rw [hlast, get?_insert, ih, List.reverse_append, List.reverse_singleton, List.singleton_append,
      List.lookup_cons]
    by_cases h : k = key
    · simp [h]
    · simp [h, beq_eq_false_iff_ne.mpr h]

end Json.Object

namespace Symbol

/-- The values under the keys of metadata that describe a symbol. -/
structure Describes (s : Symbol) (m : Json.Object) : Prop where
  id : m.get? "id" = some (.string s.id)
  name : m.get? "name" = some (.string s.name)
  kind : m.get? "kind" = some (.string s.kind.name)
  filePath : m.get? "file_path" = some (.string s.filePath)
  lineNumber : m.get? "line_number" = some (.ofNat s.lineNumber)
  lineCount : m.get? "line_count" = some (.ofNat s.lineCount)
  content : m.get? "content" = some (.string s.content)
  scope : m.get? "scope" = some (.string s.scope)
  isImport : m.get? "is_import" = some (.bool s.isImport)
  parameters : m.get? "parameters" = s.parameters.map fun ps => .array (ps.map .string)
  returnType : m.get? "return_type" = s.returnType.map .string

theorem describes_toMetadata (s : Symbol) : s.Describes s.toMetadata := by
  unfold toMetadata
  constructor
  all_goals
    rw [Json.Object.get?_ofList]
    cases s.parameters <;> cases s.returnType <;> simp [List.lookup_cons]

/-- What comes back from the metadata of a symbol. -/
def restored (s : Symbol) : Symbol :=
  let filePath := normalizePath s.filePath
  let lineNumber := max s.lineNumber 1
  { s with
    id := identity filePath s.name lineNumber s.kind
    filePath, lineNumber
    lineCount := max s.lineCount 1 }

/-- The counts of a symbol fit in words. -/
structure InWords (s : Symbol) : Prop where
  lineNumber : s.lineNumber < UInt64.size
  lineCount : s.lineCount < UInt64.size

theorem requiredText_of_get? {m : Json.Object} {field text : String}
    (h : m.get? field = some (.string text)) : requiredText m field = .ok text := by
  rw [requiredText, h]
  rfl

theorem requiredCount_of_get? {m : Json.Object} {field : String} {value : Json.Value} {n : Nat}
    (h : m.get? field = some value) (hvalue : value.asWord? = some n) :
    requiredCount m field = .ok n := by
  rw [requiredCount, h]
  dsimp only
  rw [hvalue]

/-- Metadata that describe a symbol give it back as far as it can come back, and are refused if its
identifier is not that of its fields. -/
theorem ofMetadata_of_describes {s : Symbol} {m : Json.Object} (h : s.Describes m)
    (hs : s.InWords) :
    ofMetadata m =
      if s.id = s.restored.id then .ok s.restored
      else .error (.invalidField "id" ("expected " ++ s.restored.id ++ ", found " ++ s.id)) := by
  have hline := Json.Value.asWord?_ofNat hs.lineNumber
  have hcount : (m.get? "line_count").bind (·.asWord?) = some s.lineCount := by
    rw [h.lineCount, Option.bind_some, Json.Value.asWord?_ofNat hs.lineCount]
  have hparameters : ((m.get? "parameters").bind (·.asArray?)).map
      (·.filterMap (·.asString?)) = s.parameters := by
    rw [h.parameters]
    cases s.parameters with
    | none => rfl
    | some ps => simp [Json.Value.asArray?, Json.Value.asString?, List.filterMap_map]
  have hreturn : (m.get? "return_type").bind (·.asString?) = s.returnType := by
    rw [h.returnType]
    cases s.returnType <;> rfl
  rw [ofMetadata, requiredText_of_get? h.name, requiredText_of_get? h.filePath,
    requiredText_of_get? h.kind, requiredCount_of_get? h.lineNumber hline,
    requiredText_of_get? h.content, hcount, hparameters, hreturn, h.scope, h.isImport, h.id]
  simp only [Kind.ofName?_name, bind, Except.bind]
  rfl

/-- A symbol as it is known to its file: it has a plain path, counts its lines from one, and has the
identifier of its own fields. -/
structure Settled (s : Symbol) : Prop where
  filePath : normalizePath s.filePath = s.filePath
  id : s.id = identity s.filePath s.name s.lineNumber s.kind
  lineNumber : 1 ≤ s.lineNumber
  lineCount : 1 ≤ s.lineCount

theorem restored_eq_iff {s : Symbol} : s.restored = s ↔ s.Settled := by
  constructor
  · intro h
    have hpath : normalizePath s.filePath = s.filePath := congrArg Symbol.filePath h
    have hline : max s.lineNumber 1 = s.lineNumber := congrArg Symbol.lineNumber h
    have hcount : max s.lineCount 1 = s.lineCount := congrArg Symbol.lineCount h
    have hid : s.restored.id = s.id := congrArg Symbol.id h
    rw [restored, hpath, hline] at hid
    exact ⟨hpath, hid.symm, max_eq_left_iff.mp hline, max_eq_left_iff.mp hcount⟩
  · rintro ⟨hpath, hid, hline, hcount⟩
    rw [restored, hpath, max_eq_left hline, max_eq_left hcount, ← hid]

/-- Exactly the settled symbols come back from their metadata as they are. -/
theorem ofMetadata_toMetadata_iff {s : Symbol} (h : s.InWords) :
    ofMetadata s.toMetadata = .ok s ↔ s.Settled := by
  rw [ofMetadata_of_describes s.describes_toMetadata h, ← restored_eq_iff]
  constructor
  · intro hok
    split at hok
    · exact Except.ok.inj hok
    · cases hok
  · intro hs
    rw [hs, if_pos rfl]

/-- A settled symbol comes back from its metadata as it is, whatever else it holds, and what comes
back has the same metadata. -/
theorem restores_settled {s : Symbol} (h : s.Settled) (hw : s.InWords) :
    ofMetadata s.toMetadata = .ok s ∧
      (ofMetadata s.toMetadata).map toMetadata = .ok s.toMetadata := by
  have hback : ofMetadata s.toMetadata = .ok s := (ofMetadata_toMetadata_iff hw).mpr h
  refine ⟨hback, ?_⟩
  rw [hback]
  rfl

/-- A method with an empty list of parameters and an empty result. -/
def emptyMethod : Symbol where
  id := identity "src/a.py" "" 7 .method
  name := ""
  kind := .method
  filePath := "src/a.py"
  lineNumber := 7
  lineCount := 2
  content := "\n\\"
  scope := ""
  parameters := some []
  returnType := some ""
  isImport := true

/-- A method with empty parts is restored, although it is marked as an import. -/
theorem restores_emptyMethod :
    (emptyMethod.Settled ∧ emptyMethod.InWords) ∧
      ofMetadata emptyMethod.toMetadata = .ok emptyMethod ∧
        (ofMetadata emptyMethod.toMetadata).map toMetadata = .ok emptyMethod.toMetadata := by
  have hsettled : emptyMethod.Settled := ⟨by decide, rfl, by decide, by decide⟩
  have hwords : emptyMethod.InWords := ⟨by decide, by decide⟩
  exact ⟨⟨hsettled, hwords⟩, restores_settled hsettled hwords⟩

end Symbol

end CodeClones
