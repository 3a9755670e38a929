import CodeClones.Proofs.Finder.Calls
import CodeClones.Proofs.Store.CacheKey

/-!
# What identifiers tell

The text of an identifier is read from its end: the kind and the line follow the last two line
feeds, since they hold none themselves. Of what is left any line feed can stand between the path and
the name. Two symbols can therefore share an identifier only if some lines end the path of one of
them and start the name of the other one. Where this is excluded, storing and purging leave the rows
of other symbols alone.
-/

namespace CodeClones

/-- What an identifier is made of. -/
structure Coordinates where
  filePath : String
  name : String
  lineNumber : Nat
  kind : Kind
  deriving DecidableEq

namespace Coordinates

/-- The text that the identifier is the digest of. -/
def text (c : Coordinates) : String :=
  Symbol.identityText c.filePath c.name c.lineNumber c.kind

/-- The identifier. -/
def id (c : Coordinates) : String := Symbol.identity c.filePath c.name c.lineNumber c.kind

/-- Coordinates of one symbol, whose path may be spelled in two ways. -/
structure Same (c c' : Coordinates) : Prop where
  filePath : normalizePath c.filePath = normalizePath c'.filePath
  name : c.name = c'.name
  lineNumber : c.lineNumber = c'.lineNumber
  kind : c.kind = c'.kind

/-- Coordinates that differ in where the path ends: some lines start the name in `c` and end the
path in `c'`. -/
structure Shifted (c c' : Coordinates) : Prop where
  lines : ∃ lines, normalizePath c'.filePath = normalizePath c.filePath ++ "\n" ++ lines ∧
    c.name = lines ++ "\n" ++ c'.name
  lineNumber : c.lineNumber = c'.lineNumber
  kind : c.kind = c'.kind

/-- Coordinates that identifiers do not tell apart. -/
def Confused (c c' : Coordinates) : Prop := c.Same c' ∨ c.Shifted c' ∨ c'.Shifted c

end Coordinates

theorem Kind.lineFeed_not_mem_name (k : Kind) : '\n' ∉ k.name.toList := by
  cases k <;> decide

theorem Kind.name_injective : Function.Injective Kind.name := by
  intro k k' h
  cases k <;> cases k' <;> first | rfl | exact absurd h (by decide)

theorem lineFeed_not_mem_toString (n : Nat) : '\n' ∉ (toString n).toList := fun h =>
  absurd (Json.isDigit_of_mem_toString h) (by decide)

/-- A text with a line feed in it splits there, or at another line feed in one of two ways. -/
theorem append_lineFeed_eq_iff {s s' t t' : String} :
    s ++ "\n" ++ t = s' ++ "\n" ++ t' ↔
      (s = s' ∧ t = t') ∨ (∃ lines, s' = s ++ "\n" ++ lines ∧ t = lines ++ "\n" ++ t') ∨
        ∃ lines, s = s' ++ "\n" ++ lines ∧ t' = lines ++ "\n" ++ t := by
  have hshift : ∀ {s s' t t' : String} {middle : List Char},
      s'.toList = s.toList ++ middle → '\n' :: t.toList = middle ++ '\n' :: t'.toList →
      (s = s' ∧ t = t') ∨ ∃ lines, s' = s ++ "\n" ++ lines ∧ t = lines ++ "\n" ++ t' := by
    intro s s' t t' middle hs ht
    cases middle with
    | nil =>
      rw [List.append_nil] at hs
      exact .inl ⟨String.toList_inj.mp hs.symm, String.toList_inj.mp (List.cons.inj ht).2⟩
    | cons c lines =>
      obtain ⟨rfl, ht⟩ := List.cons.inj ht
      refine .inr ⟨String.ofList lines, ?_, ?_⟩
      · apply String.toList_inj.mp
        simpa using hs
      · apply String.toList_inj.mp
        simpa using ht
  constructor
  · intro h
    have hlist : s.toList ++ '\n' :: t.toList = s'.toList ++ '\n' :: t'.toList := by
      simpa using congrArg String.toList h
    rcases List.append_eq_append_iff.mp hlist with ⟨middle, hs, ht⟩ | ⟨middle, hs, ht⟩
    · exact (hshift hs ht).imp_right .inl
    · rcases hshift hs ht with ⟨rfl, rfl⟩ | hlines
      · exact .inl ⟨rfl, rfl⟩
      · exact .inr (.inr hlines)
  · rintro (⟨rfl, rfl⟩ | ⟨lines, rfl, rfl⟩ | ⟨lines, rfl, rfl⟩) <;> simp [String.append_assoc]

/-- Behind the last line feed stands one text only. -/
theorem lastLine_inj {s s' t t' : String} (h : s ++ "\n" ++ t = s' ++ "\n" ++ t')
    (ht : '\n' ∉ t.toList) (ht' : '\n' ∉ t'.toList) : s = s' ∧ t = t' := by
  rcases append_lineFeed_eq_iff.mp h with hsame | ⟨lines, -, rfl⟩ | ⟨lines, -, rfl⟩
  · exact hsame
  · exact absurd (by simp) ht
  · exact absurd (by simp) ht'

namespace Coordinates

/-- The text of an identifier tells everything but where the path ends. -/
theorem text_eq_iff {c c' : Coordinates} : c.text = c'.text ↔ c.Confused c' := by
  have hparts : c.text = c'.text ↔
      normalizePath c.filePath ++ "\n" ++ c.name = normalizePath c'.filePath ++ "\n" ++ c'.name ∧
        c.lineNumber = c'.lineNumber ∧ c.kind = c'.kind := by
    constructor
    · intro h
      obtain ⟨hrest, hkind⟩ := lastLine_inj h c.kind.lineFeed_not_mem_name
        c'.kind.lineFeed_not_mem_name
      obtain ⟨hfront, hline⟩ := lastLine_inj hrest (lineFeed_not_mem_toString c.lineNumber)
        (lineFeed_not_mem_toString c'.lineNumber)
      exact ⟨hfront, eq_of_digits (congrArg (·.toUTF8.toList) hline), Kind.name_injective hkind⟩
    · rintro ⟨hfront, hline, hkind⟩
      rw [text, text, Symbol.identityText, Symbol.identityText, hfront, hline, hkind]
  rw [hparts, append_lineFeed_eq_iff]
  constructor
  · rintro ⟨⟨hpath, hname⟩ | hlines | hlines, hline, hkind⟩
    · exact .inl ⟨hpath, hname, hline, hkind⟩
    · exact .inr (.inl ⟨hlines, hline, hkind⟩)
    · exact .inr (.inr ⟨hlines, hline.symm, hkind.symm⟩)
  · rintro (h | h | h)
    · exact ⟨.inl ⟨h.filePath, h.name⟩, h.lineNumber, h.kind⟩
    · exact ⟨.inr (.inl h.lines), h.lineNumber, h.kind⟩
    · exact ⟨.inr (.inr h.lines), h.lineNumber.symm, h.kind.symm⟩

/-- Coordinates are not confused if the path of one or the name of the other holds no line feed, in
either order. -/
theorem Confused.same {c c' : Coordinates} (h : c.Confused c')
    (hpath : '\n' ∉ (normalizePath c'.filePath).toList ∨ '\n' ∉ c.name.toList)
    (hpath' : '\n' ∉ (normalizePath c.filePath).toList ∨ '\n' ∉ c'.name.toList) : c.Same c' := by
  rcases h with h | h | h
  · exact h
  · obtain ⟨lines, hfilePath, hname⟩ := h.lines
    refine absurd hpath (not_or.mpr ⟨not_not.mpr ?_, not_not.mpr ?_⟩)
    · simp [hfilePath]
    · simp [hname]
  · obtain ⟨lines, hfilePath, hname⟩ := h.lines
    refine absurd hpath' (not_or.mpr ⟨not_not.mpr ?_, not_not.mpr ?_⟩)
    · simp [hfilePath]
    · simp [hname]

theorem Same.id_eq {c c' : Coordinates} (h : c.Same c') : c.id = c'.id := by
  rw [id, id, Symbol.identity, Symbol.identity, Symbol.identityText, Symbol.identityText,
    h.filePath, h.name, h.lineNumber, h.kind]

/-- If the digests of the texts do not collide, then identifiers are equal exactly for coordinates
that are the same or shifted; that is, exactly for the same ones as far as no line feed stands both
in the path of one and in the name of the other. Storing records and purging files leave the row of
a symbol alone, unless one of their identifiers is that of coordinates that are confused with it. -/
theorem ids_identify {known : List Coordinates}
    (hdigests : ∀ c ∈ known, ∀ c' ∈ known, c.id = c'.id → c.text = c'.text) :
    ∀ c ∈ known,
      (∀ c' ∈ known, (c.id = c'.id ↔ c.Same c' ∨ c.Shifted c' ∨ c'.Shifted c) ∧
        (('\n' ∉ (normalizePath c'.filePath).toList ∨ '\n' ∉ c.name.toList) →
          ('\n' ∉ (normalizePath c.filePath).toList ∨ '\n' ∉ c'.name.toList) →
          (c.id = c'.id ↔ c.Same c'))) ∧
      (∀ (b : Backend) (records : List Record),
        (∀ r ∈ records, ∃ c' ∈ known, r.id = c'.id ∧ ¬c.Confused c') →
          (b.upsert records).row? c.id = b.row? c.id) ∧
      ∀ (f : Finder) (conditions : RunConditions) (position : Nat) (paths : List String),
        (∀ id ∈ Finder.recordedIds f.fileState paths, ∃ c' ∈ known, id = c'.id ∧ ¬c.Confused c') →
          (Finder.purgeFrom conditions position paths f).2.row? c.id = f.row? c.id := by
  intro c hc
  have hid : ∀ c' ∈ known, (c.id = c'.id ↔ c.Confused c') := fun c' hc' =>
    ⟨fun h => text_eq_iff.mp (hdigests c hc c' hc' h),
      fun h => congrArg Digest.Blake3.hexOfText (text_eq_iff.mpr h)⟩
  refine ⟨fun c' hc' => ⟨hid c' hc', fun hpath hpath' => ⟨fun h => ?_, Same.id_eq⟩⟩,
    fun b records h => ?_, fun f conditions position paths h => ?_⟩
  · exact ((hid c' hc').mp h).same hpath hpath'
  · have hnone : Backend.lastWith records c.id = none := by
      refine Backend.lastWith_eq_none_iff.mpr fun r hr hsame => ?_
      obtain ⟨c', hc', hother, hapart⟩ := h r hr
      exact hapart ((hid c' hc').mp (hsame.symm.trans hother))
    rw [Backend.row?_upsert, hnone]
    rfl
  · have hkept : c.id ∉ Finder.recordedIds f.fileState paths := fun hmem => by
      obtain ⟨c', hc', hother, hapart⟩ := h c.id hmem
      exact hapart ((hid c' hc').mp hother)
    obtain ⟨-, -, ⟨-, hrows⟩ | ⟨-, hrows⟩⟩ :=
      Finder.purgeFrom_cases (Prod.mk.eta (p := Finder.purgeFrom conditions position paths f)).symm
    · rw [hrows, if_neg hkept]
    · exact (hrows c.id).resolve_right fun hgone => hkept hgone.1

/-- A function with a line feed in its name. -/
def inName : Coordinates := ⟨"a.py", "b.py\nf", 1, .function⟩

/-- A function with a line feed in the name of its file. -/
def inPath : Coordinates := ⟨"a.py\nb.py", "f", 1, .function⟩

/-- A function without a line feed. -/
def oneLine : Coordinates := ⟨"a.py", "f", 1, .function⟩

theorem ids_identify_lineFeed :
    inName.id = inPath.id ∧ ¬inName.Same inPath ∧
      ((Backend.memory "memory" {}).upsert [⟨inName.id, [], []⟩]).row? inPath.id ≠ none ∧
      ((Backend.memory "memory" {}).upsert [⟨inName.id, [], []⟩]).row? oneLine.id = none := by
  have hdigests : ∀ c ∈ [inName, inPath, oneLine], ∀ c' ∈ [inName, inPath, oneLine],
      c.id = c'.id → c.text = c'.text := by decide +kernel
  have hshifted : inName.Shifted inPath := ⟨⟨"b.py", by decide +kernel, rfl⟩, rfl, rfl⟩
  have hid : inName.id = inPath.id :=
    ((ids_identify hdigests inName (by simp)).1 inPath (by simp)).1.mpr (.inr (.inl hshifted))
  obtain ⟨htold, hupsert, -⟩ := ids_identify hdigests oneLine (by simp)
  have hapart : ¬oneLine.Confused inName := by
    intro h
    have hsame := h.same (.inr (by decide)) (.inl (by decide +kernel))
    exact absurd hsame.name (by decide)
  refine ⟨hid, fun h => absurd h.name (by decide), ?_, ?_⟩
  · rw [← hid, Backend.row?_upsert]
    simp [Backend.lastWith]
  · exact hupsert (.memory "memory" {}) [⟨inName.id, [], []⟩] fun r hr =>
      ⟨inName, by simp, by rw [List.mem_singleton.mp hr], hapart⟩

end Coordinates

end CodeClones
