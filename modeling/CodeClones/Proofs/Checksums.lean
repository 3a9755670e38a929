import CodeClones.Embedding.ModelFiles
import CodeClones.Proofs.Json.Compact
import CodeClones.Proofs.Words
import CodeClones.Proofs.Workspace.Writing

/-!
# Intact models

A list of checksums is read and gone through line by line, with a name noted for every line that
holds. This accepts a model if the list is a text that names each required file with its present
digest and nowhere with another one. A list that has just been written is accepted, and no longer so
once a required file changes.
-/

namespace CodeClones.Checksums

open FilePath

/-! ## Lines of a list -/

theorem fromUTF8?_toUTF8 (text : String) : String.fromUTF8? text.toUTF8 = some text := by
  rw [String.fromUTF8?, String.toUTF8_eq_toByteArray, dif_pos text.isValidUTF8]
  rfl

theorem toUTF8_of_fromUTF8? {bytes : ByteArray} {text : String}
    (h : String.fromUTF8? bytes = some text) : bytes = text.toUTF8 := by
  rw [String.fromUTF8?] at h
  split at h
  · rw [← Option.some.inj h]
    rfl
  · cases h

theorem readText_eq_ok_iff {t : Tree} {path text : String} :
    t.readText path = .ok text ↔ t.read path = .ok text.toUTF8 := by
  rw [Tree.readText]
  constructor
  · intro h
    split at h
    · rename_i bytes hread
      split at h
      · rename_i text' htext
        cases h
        rw [hread, toUTF8_of_fromUTF8? htext]
      · cases h
    · cases h
  · intro h
    rw [h]
    dsimp only
    rw [fromUTF8?_toUTF8]

/-- Bytes of characters are read as their text. -/
theorem fromUTF8?_flatMap (cs : List Char) :
    String.fromUTF8? ⟨(cs.flatMap String.utf8EncodeChar).toArray⟩ = some (String.ofList cs) := by
  have hbytes : (⟨(cs.flatMap String.utf8EncodeChar).toArray⟩ : ByteArray) =
      (String.ofList cs).toUTF8 := by
    refine ByteArray.ext ?_
    have hlist := Json.toList_toUTF8 (String.ofList cs)
    rw [String.toList_ofList] at hlist
    rw [← hlist, Json.toList_eq_toList_data]
  rw [hbytes, fromUTF8?_toUTF8]

/-- Bytes other than line feeds belong to the present line. -/
theorem linesOfBytes_append {bytes : List UInt8} (h : ∀ b ∈ bytes, b ≠ 10)
    (line rest : List UInt8) :
    linesOfBytes line (bytes ++ rest) = linesOfBytes (bytes.reverse ++ line) rest := by
  induction bytes generalizing line with
  | nil => rfl
  | cons b bytes ih =>
    obtain ⟨hb, hbytes⟩ := List.forall_mem_cons.mp h
    rw [List.cons_append, linesOfBytes, if_neg hb, ih hbytes, List.reverse_cons,
      List.append_assoc, List.singleton_append]

theorem not_feed_of_mem_utf8EncodeChar {c : Char} (h : c ≠ '\n') :
    ∀ b ∈ String.utf8EncodeChar c, b ≠ 10 := by
  rintro _ hb rfl
  exact h (Json.eq_of_mem_utf8EncodeChar (by decide) hb)

/-- With the characters `cs` read as the present line, the bytes of a text give the lines of the
text. The induction is on the characters that are still to be read. -/
theorem linesOfBytes_flatMap {cs : List Char} (h : '\n' ∉ cs) (rest : List Char) :
    linesOfBytes (cs.flatMap String.utf8EncodeChar).reverse (rest.flatMap String.utf8EncodeChar) =
      (Text.lines (cs ++ rest)).map fun line => some (String.ofList line) := by
  induction rest generalizing cs with
  | nil =>
    have hunbroken : ∀ c ∈ cs, (c == '\n') = false := fun c hc =>
      beq_false_of_ne fun he => h (he ▸ hc)
    have hempty : (cs.flatMap String.utf8EncodeChar).reverse.isEmpty = cs.isEmpty := by
      cases cs with
      | nil => rfl
      | cons c cs => simp [String.utf8EncodeChar_ne_nil]
    rw [List.append_nil, Text.lines, Text.splitOnChar_eq_singleton hunbroken, Text.linesOfPieces,
      List.flatMap_nil, linesOfBytes, List.reverse_reverse, fromUTF8?_flatMap, hempty]
    split <;> rfl
  | cons c rest ih =>
    by_cases hfeed : c = '\n'
    · subst hfeed
      have hline := @ih [] List.not_mem_nil
      rw [Text.lines_append_cons h, List.map_cons, List.flatMap_cons,
        show String.utf8EncodeChar '\n' = [10] by decide, List.singleton_append, linesOfBytes,
        if_pos rfl, List.reverse_reverse, fromUTF8?_flatMap]
      exact congrArg₂ List.cons (by simp) hline
    · have hline : '\n' ∉ cs ++ [c] := by simp [h, Ne.symm hfeed]
      have hread := ih hline
      rw [List.flatMap_append, List.flatMap_singleton, List.reverse_append, List.append_assoc,
        List.singleton_append] at hread
      rw [List.flatMap_cons, linesOfBytes_append (not_feed_of_mem_utf8EncodeChar hfeed), hread]

theorem linesOfBytes_toUTF8 (text : String) :
    linesOfBytes [] text.toUTF8.toList = text.sourceLines.map some := by
  rw [Json.toList_toUTF8, String.sourceLines, List.map_map]
  exact linesOfBytes_flatMap List.not_mem_nil text.toList

/-- Bytes whose lines are texts are the bytes of a text. -/
theorem exists_text_of_linesOfBytes {line bytes : List UInt8} (h : none ∉ linesOfBytes line bytes) :
    ∃ cs : List Char, line.reverse ++ bytes = cs.flatMap String.utf8EncodeChar := by
  have hread : ∀ {bs : List UInt8} {text : String},
      String.fromUTF8? ⟨bs.toArray⟩ = some text → bs = text.toList.flatMap String.utf8EncodeChar := by
    intro bs text htext
    rw [← Json.toList_toUTF8, ← toUTF8_of_fromUTF8? htext, Json.toList_eq_toList_data]
  induction bytes generalizing line with
  | nil =>
    rw [linesOfBytes] at h
    split at h
    · rename_i hempty
      exact ⟨[], by rw [List.isEmpty_iff.mp hempty]; rfl⟩
    · cases htext : String.fromUTF8? ⟨line.reverse.toArray⟩ with
      | none => exact absurd (by simp [htext]) h
      | some text => exact ⟨text.toList, by rw [List.append_nil, hread htext]⟩
  | cons byte rest ih =>
    rw [linesOfBytes] at h
    split at h
    · rename_i hfeed
      obtain ⟨hline, hrest⟩ := List.ne_and_not_mem_of_not_mem_cons h
      obtain ⟨cs, hcs⟩ := ih hrest
      cases htext : String.fromUTF8? ⟨line.reverse.toArray⟩ with
      | none => exact absurd (by rw [htext]; rfl) hline
      | some text =>
        refine ⟨text.toList ++ '\n' :: cs, ?_⟩
        rw [List.flatMap_append, List.flatMap_cons, ← hread htext, ← hcs, hfeed,
          show String.utf8EncodeChar '\n' = [10] by decide]
        rfl
    · obtain ⟨cs, hcs⟩ := ih h
      rw [List.reverse_cons, List.append_assoc] at hcs
      exact ⟨cs, hcs⟩

/-- A file whose lines are texts is a text. -/
theorem exists_eq_toUTF8 {bytes : ByteArray} (h : none ∉ linesOfBytes [] bytes.toList) :
    ∃ text : String, bytes = text.toUTF8 := by
  obtain ⟨cs, hcs⟩ := exists_text_of_linesOfBytes h
  refine ⟨String.ofList cs, ByteArray.ext (Array.toList_inj.mp ?_)⟩
  rw [← Json.toList_eq_toList_data, ← Json.toList_eq_toList_data, Json.toList_toUTF8,
    String.toList_ofList]
  exact hcs

/-- The first two words of a line are a digest and the name of a file. -/
def Lists (line digest name : String) : Prop :=
  ∃ rest rest', Text.FirstWord Text.isBlank line.toList digest.toList rest ∧
    Text.FirstWord Text.isBlank rest name.toList rest'

section

variable {digest? : String → Except FileError (Option String)} {seen lines : List String}
  {line digest name : String}

theorem checksumLine?_eq_some_iff : checksumLine? line = some (digest, name) ↔
    Lists line digest name := by
  have hwords : checksumLine? line = some (digest, name) ↔
      ∃ words, Text.fields Text.isBlank line.toList = digest.toList :: name.toList :: words := by
    rw [checksumLine?]
    split
    · rename_i d n words h
      simp [h, ← String.toList_inj]
    · rename_i h
      simp only [reduceCtorEq, false_iff, not_exists]
      exact fun words hwords => h _ _ _ hwords
  simp only [hwords, Lists, Text.fields_eq_cons_iff]
  constructor
  · rintro ⟨words, rest, hdigest, rest', hname, -⟩
    exact ⟨rest, rest', hdigest, hname⟩
  · rintro ⟨rest, rest', hdigest, hname⟩
    exact ⟨_, rest, hdigest, rest', hname, rfl⟩

/-- The digest and the name on a line about a required file. -/
def about? (line : String) : Option (String × String) :=
  (checksumLine? line).filter fun p => requiredFiles.contains p.2

theorem about?_eq_some_iff : about? line = some (digest, name) ↔
    Lists line digest name ∧ name ∈ requiredFiles := by
  rw [about?, Option.filter_eq_some_iff, checksumLine?_eq_some_iff, List.contains_iff_mem]

/-- A line goes ahead only if it is about no required file or has the present digest of one. -/
theorem checkLines_cons {lines : List (Option String)} :
    checkLines digest? seen (some line :: lines) =
    match about? line with
    | none => checkLines digest? seen lines
    | some (digest, name) =>
      match digest? name with
      | .error cause => .error cause
      | .ok present =>
        if present = some digest then checkLines digest? (name :: seen) lines else .ok false := by
  rw [checkLines, about?]
  cases checksumLine? line with
  | none => rfl
  | some p =>
    obtain ⟨digest, name⟩ := p
    rw [Option.filter_some]
    dsimp only
    split <;> rfl

/-- A line has the present digest if it is about a required file. -/
def Agrees (digest? : String → Except FileError (Option String)) (line : String) : Prop :=
  ∀ digest name, about? line = some (digest, name) → digest? name = .ok (some digest)

theorem checkLines_cons_eq_ok_true_iff {lines : List (Option String)} :
    checkLines digest? seen (some line :: lines) = .ok true ↔ Agrees digest? line ∧
      checkLines digest? (((about? line).map Prod.snd).toList ++ seen) lines = .ok true := by
  rw [checkLines_cons, Agrees]
  cases about? line with
  | none => simp
  | some p =>
    obtain ⟨digest, name⟩ := p
    simp only [Option.some.injEq, Prod.mk.injEq, and_imp]
    cases hpresent : digest? name with
    | error cause => simp [hpresent]
    | ok present => by_cases h : present = some digest <;> simp [hpresent, h]

/-- All lines agree, and every required file that was not seen before is on one of them. -/
theorem checkLines_eq_ok_true_iff : checkLines digest? seen (lines.map some) = .ok true ↔
    (∀ line ∈ lines, Agrees digest? line) ∧ ∀ name ∈ requiredFiles,
      name ∈ seen ∨ ∃ line ∈ lines, ∃ digest, about? line = some (digest, name) := by
  induction lines generalizing seen with
  | nil => simp [checkLines]
  | cons line lines ih =>
    rw [List.map_cons, checkLines_cons_eq_ok_true_iff, ih, List.forall_mem_cons, and_assoc]
    have hseen : ∀ name, name ∈ ((about? line).map Prod.snd).toList ++ seen ↔
        name ∈ seen ∨ ∃ digest, about? line = some (digest, name) := by
      simp [or_comm]
    simp only [hseen, List.exists_mem_cons_iff, or_assoc]

/-- A line that is no text is not passed. -/
theorem checkLines_ne_ok_true {lines : List (Option String)} (h : none ∈ lines) :
    checkLines digest? seen lines ≠ .ok true := by
  induction lines generalizing seen with
  | nil => cases h
  | cons line lines ih =>
    cases line with
    | none =>
      rw [checkLines]
      exact nofun
    | some line =>
      rw [ne_eq, checkLines_cons_eq_ok_true_iff, not_and]
      exact fun _ => ih ((List.mem_cons.mp h).resolve_left nofun)

/-- Lines of text are gone through to an answer if every required file has a digest or is missing. -/
theorem exists_checkLines (h : ∀ name ∈ requiredFiles, ∃ present, digest? name = .ok present) :
    ∃ accepted, checkLines digest? seen (lines.map some) = .ok accepted := by
  induction lines generalizing seen with
  | nil => exact ⟨_, rfl⟩
  | cons line lines ih =>
    rw [List.map_cons, checkLines_cons]
    cases hline : about? line with
    | none => exact ih
    | some p =>
      obtain ⟨digest, name⟩ := p
      obtain ⟨present, hpresent⟩ := h name (about?_eq_some_iff.mp hline).2
      simp only [hpresent]
      split
      · exact ih
      · exact ⟨_, rfl⟩

end

/-! ## Models that are accepted -/

variable {t : Tree} {dir text : String}

/-- Every required file is there and is listed with its digest, and no line about one of them has
another digest. -/
structure Intact (t : Tree) (dir text : String) : Prop where
  listed : ∀ name ∈ requiredFiles, ∃ bytes, t.read (join dir name) = .ok bytes ∧
    ∃ line ∈ text.sourceLines, Lists line (Digest.Sha256.hexOf bytes) name
  unopposed : ∀ line ∈ text.sourceLines, ∀ digest name, Lists line digest name →
    name ∈ requiredFiles → ∃ bytes, t.read (join dir name) = .ok bytes ∧
      digest = Digest.Sha256.hexOf bytes

/-- Every required file that is there can be read. -/
def Readable (t : Tree) (dir : String) : Prop :=
  ∀ name ∈ requiredFiles, t.holds (join dir name) → ∃ bytes, t.read (join dir name) = .ok bytes

theorem modelDigest?_eq_ok_some_iff {name digest : String} :
    modelDigest? t dir name = .ok (some digest) ↔
      ∃ bytes, t.read (join dir name) = .ok bytes ∧ digest = Digest.Sha256.hexOf bytes := by
  rw [modelDigest?]
  split
  · cases t.read (join dir name) with
    | error cause => simp [Except.map]
    | ok bytes => simp [Except.map, eq_comm]
  · rename_i hmissing
    simp only [Except.ok.injEq, reduceCtorEq, false_iff, not_exists, not_and]
    exact fun bytes hbytes => absurd (Tree.holds_of_read hbytes) hmissing

theorem exists_modelDigest? (h : Readable t dir) :
    ∀ name ∈ requiredFiles, ∃ present, modelDigest? t dir name = .ok present := by
  intro name hname
  rw [modelDigest?]
  split
  · rename_i hholds
    obtain ⟨bytes, hbytes⟩ := h name hname hholds
    rw [hbytes]
    exact ⟨_, rfl⟩
  · exact ⟨none, rfl⟩

/-- With a list of checksums that is a text its lines decide. -/
theorem verifyChecksums_of_list (h : t.readText (checksumsFile dir) = .ok text) :
    verifyChecksums t dir =
      checkLines (modelDigest? t dir) [] (text.sourceLines.map some) := by
  have hread := readText_eq_ok_iff.mp h
  rw [verifyChecksums, if_pos (Tree.holds_of_read hread), hread]
  exact congrArg _ (linesOfBytes_toUTF8 text)

theorem verifyChecksums_eq_ok_true_iff (h : t.readText (checksumsFile dir) = .ok text) :
    verifyChecksums t dir = .ok true ↔ Intact t dir text := by
  rw [verifyChecksums_of_list h, checkLines_eq_ok_true_iff]
  simp only [Agrees, about?_eq_some_iff, modelDigest?_eq_ok_some_iff, List.not_mem_nil, false_or]
  constructor
  · rintro ⟨hagree, hlisted⟩
    refine ⟨fun name hname => ?_, fun line hline digest name hlists hname =>
      hagree line hline digest name ⟨hlists, hname⟩⟩
    obtain ⟨line, hline, digest, hlists, -⟩ := hlisted name hname
    obtain ⟨bytes, hbytes, rfl⟩ := hagree line hline digest name ⟨hlists, hname⟩
    exact ⟨bytes, hbytes, line, hline, hlists⟩
  · intro hintact
    refine ⟨fun line hline digest name hlists =>
      hintact.unopposed line hline digest name hlists.1 hlists.2, fun name hname => ?_⟩
    obtain ⟨bytes, -, line, hline, hlists⟩ := hintact.listed name hname
    exact ⟨line, hline, _, hlists, hname⟩

theorem exists_verifyChecksums (h : t.readText (checksumsFile dir) = .ok text)
    (hreadable : Readable t dir) : ∃ accepted, verifyChecksums t dir = .ok accepted := by
  rw [verifyChecksums_of_list h]
  exact exists_checkLines (exists_modelDigest? hreadable)

/-- A list that is accepted is a text. -/
theorem exists_readText_of_verifyChecksums (h : verifyChecksums t dir = .ok true) :
    ∃ text, t.readText (checksumsFile dir) = .ok text := by
  rw [verifyChecksums] at h
  split at h
  · cases hread : t.read (checksumsFile dir) with
    | error cause =>
      rw [hread] at h
      cases h
    | ok bytes =>
      rw [hread] at h
      obtain ⟨text, rfl⟩ := exists_eq_toUTF8 fun hnone => checkLines_ne_ok_true hnone h
      exact ⟨text, readText_eq_ok_iff.mpr hread⟩
  · cases h

/-- A model is accepted exactly if its list is a text and it is intact. -/
theorem verifyChecksums_eq_ok_true_iff_exists : verifyChecksums t dir = .ok true ↔
    ∃ text, t.readText (checksumsFile dir) = .ok text ∧ Intact t dir text := by
  constructor
  · intro h
    obtain ⟨text, htext⟩ := exists_readText_of_verifyChecksums h
    exact ⟨text, htext, (verifyChecksums_eq_ok_true_iff htext).mp h⟩
  · rintro ⟨text, htext, hintact⟩
    exact (verifyChecksums_eq_ok_true_iff htext).mpr hintact

/-- That all required files are there adds nothing to what the list of checksums asks for. -/
theorem modelIsIntact_eq_ok_true_iff : modelIsIntact t dir = .ok true ↔
    ∃ text, t.readText (checksumsFile dir) = .ok text ∧ Intact t dir text := by
  rw [← verifyChecksums_eq_ok_true_iff_exists, modelIsIntact]
  split
  · exact Iff.rfl
  · rename_i hmissing
    simp only [Except.ok.injEq, Bool.false_eq_true, false_iff]
    intro haccepted
    obtain ⟨text, -, hintact⟩ := verifyChecksums_eq_ok_true_iff_exists.mp haccepted
    refine hmissing (List.all_eq_true.mpr fun name hname => ?_)
    obtain ⟨bytes, hbytes, -⟩ := hintact.listed name hname
    exact Tree.holds_of_read hbytes

/-! ## Lists that are written -/

theorem isBlank_hexDigit {n : UInt8} (h : n < 16) : Text.isBlank (Digest.hexDigit n) = false := by
  have hdigits : ∀ k : Fin 16, Text.isBlank (Digest.hexDigit (UInt8.ofNat k)) = false := by decide
  have hn : n.toNat < 16 := UInt8.lt_iff_toNat_lt.mp h
  simpa using hdigits ⟨n.toNat, hn⟩

theorem isBlank_of_mem_hexOfBytes {bytes : List UInt8} {c : Char}
    (h : c ∈ (Digest.hexOfBytes bytes).toList) : Text.isBlank c = false := by
  rw [Digest.hexOfBytes, String.toList_ofList] at h
  obtain ⟨b, -, hc⟩ := List.mem_flatMap.mp h
  have hb := b.toNat_lt
  have hhigh : b >>> 4 < 16 := by
    rw [UInt8.lt_iff_toNat_lt, UInt8.toNat_shiftRight]
    simp [Nat.shiftRight_eq_div_pow]
    omega
  have hlow : b &&& 15 < 16 := by
    rw [UInt8.lt_iff_toNat_lt, UInt8.toNat_and]
    exact Nat.lt_of_le_of_lt Nat.and_le_right (by decide)
  rcases List.mem_pair.mp hc with rfl | rfl
  · exact isBlank_hexDigit hhigh
  · exact isBlank_hexDigit hlow

theorem length_hexOf (bytes : ByteArray) : (Digest.Sha256.hexOf bytes).length = 64 := by
  simp [Digest.Sha256.hexOf, Digest.hexOfBytes, Digest.Sha256.hash, Digest.Sha256.State.words,
    Digest.bigEndian32, Digest.littleEndian32]

variable {content : String → ByteArray} {names : List String} {name : String}
  {entries : List (String × Entry)}

/-- The line about a file with the given content. -/
def lineAbout (content : String → ByteArray) (name : String) : String :=
  Digest.Sha256.hexOf (content name) ++ "  " ++ name

theorem isBlank_of_mem_requiredFiles (h : name ∈ requiredFiles) :
    name.toList ≠ [] ∧ ∀ c ∈ name.toList, Text.isBlank c = false := by
  have hnames : ∀ name ∈ requiredFiles, name.toList ≠ [] ∧ name.toList.all (!Text.isBlank ·) := by
    decide
  simpa using hnames name h

theorem lists_lineAbout (h : name ∈ requiredFiles) :
    Lists (lineAbout content name) (Digest.Sha256.hexOf (content name)) name := by
  obtain ⟨hname, hunbroken⟩ := isBlank_of_mem_requiredFiles h
  have hdigest : (Digest.Sha256.hexOf (content name)).toList ≠ [] := by
    intro hnil
    have hlength := length_hexOf (content name)
    rw [← String.length_toList, hnil] at hlength
    cases hlength
  refine ⟨' ' :: ' ' :: name.toList, [], ?_, ?_⟩
  · refine ⟨⟨[], by simp [lineAbout], by simp⟩, hdigest, fun c => isBlank_of_mem_hexOfBytes, ?_⟩
    intro c hc
    cases hc
    decide
  · have hgap : [' ', ' '].all Text.isBlank := by decide
    exact ⟨⟨[' ', ' '], by simp, List.all_eq_true.mp hgap⟩, hname, hunbroken, by simp⟩

/-- A written line about a required file ends at its line feed. -/
theorem not_mem_lineAbout {c : Char} (h : name ∈ requiredFiles) (hc : c = '\n' ∨ c = '\r') :
    c ∉ (lineAbout content name).toList := by
  intro hmem
  have hblank : Text.isBlank c = true := by rcases hc with rfl | rfl <;> decide
  rw [lineAbout, String.toList_append, String.toList_append, List.mem_append, List.mem_append]
    at hmem
  rcases hmem with (hmem | hmem) | hmem
  · rw [isBlank_of_mem_hexOfBytes hmem] at hblank
    cases hblank
  · rcases hc with rfl | rfl <;> revert hmem <;> decide
  · rw [(isBlank_of_mem_requiredFiles h).2 c hmem] at hblank
    cases hblank

theorem sourceLines_of_written
    (htext : text.toList = names.flatMap fun n => (lineAbout content n).toList ++ ['\n'])
    (hnames : ∀ n ∈ names, n ∈ requiredFiles) :
    text.sourceLines = names.map (lineAbout content) := by
  have hwhole : ∀ l ∈ names.map fun n => (lineAbout content n).toList,
      '\n' ∉ l ∧ l.getLast? ≠ some '\r' := by
    intro l hl
    obtain ⟨n, hn, rfl⟩ := List.mem_map.mp hl
    exact ⟨not_mem_lineAbout (hnames n hn) (.inl rfl), fun hlast =>
      not_mem_lineAbout (hnames n hn) (.inr rfl) (List.mem_of_getLast? hlast)⟩
  have hlines := Text.lines_flatMap hwhole
  rw [List.flatMap_map] at hlines
  rw [String.sourceLines, htext, hlines]
  simp

/-- A directory has the required files with the given content, and a file or nothing under the name
of the list. -/
structure Stores (content : String → ByteArray) (entries : List (String × Entry)) : Prop where
  files : ∀ name ∈ requiredFiles, entries.lookup name = some (.file (content name))
  list : ∀ e, entries.lookup "checksums.txt" = some e → e.isFile

/-- A path leads to a directory with the required files and a list of checksums. -/
def Lies (t : Tree) (dir : String) (content : String → ByteArray) (text : String) : Prop :=
  ∃ entries, t.entry dir = .ok (.directory entries) ∧ Stores content entries ∧
    entries.lookup "checksums.txt" = some (.file text.toUTF8)

theorem isName_of_mem_requiredFiles (h : name ∈ requiredFiles) :
    IsName name ∧ name ≠ "checksums.txt" := by
  revert name
  decide

theorem read_of_stores (hdir : t.entry dir = .ok (.directory entries))
    (hstores : Stores content entries) (h : name ∈ requiredFiles) :
    t.read (join dir name) = .ok (content name) :=
  Tree.read_eq_ok_iff.mpr (Tree.entry_join hdir (isName_of_mem_requiredFiles h).1
    (hstores.files name h) (by simp))

theorem Lies.read (h : Lies t dir content text) (hname : name ∈ requiredFiles) :
    t.read (join dir name) = .ok (content name) := by
  obtain ⟨entries, hdir, hstores, -⟩ := h
  exact read_of_stores hdir hstores hname

theorem Lies.readText (h : Lies t dir content text) :
    t.readText (checksumsFile dir) = .ok text := by
  obtain ⟨entries, hdir, -, hlist⟩ := h
  exact readText_eq_ok_iff.mpr
    (Tree.read_eq_ok_iff.mpr (Tree.entry_join hdir (by decide) hlist (by simp)))

/-- Another list can be written, and the files stay. -/
theorem exists_write_list (hdir : t.entry dir = .ok (.directory entries))
    (hstores : Stores content entries) (text : String) :
    ∃ t', t.write (checksumsFile dir) text.toUTF8 = .ok t' ∧ Lies t' dir content text := by
  obtain ⟨t', hwrite, hdir'⟩ := Tree.write_join hdir (show IsName "checksums.txt" by decide)
    hstores.list text.toUTF8
  have hlist := Entry.lookup_setChild_self entries "checksums.txt" (.file text.toUTF8)
  refine ⟨t', hwrite, _, hdir', ⟨fun name hname => ?_, fun e he => ?_⟩, hlist⟩
  · rw [Entry.lookup_setChild_of_ne (isName_of_mem_requiredFiles hname).2]
    exact hstores.files name hname
  · cases hlist.symm.trans he
    rfl

/-- Another content of a required file can be written, and the list stays. -/
theorem exists_write_file (h : Lies t dir content text) (hname : name ∈ requiredFiles)
    (bytes : ByteArray) : ∃ t', t.write (join dir name) bytes = .ok t' ∧
      Lies t' dir (Function.update content name bytes) text := by
  obtain ⟨entries, hdir, hstores, hlist⟩ := h
  obtain ⟨hisName, hother⟩ := isName_of_mem_requiredFiles hname
  have hfile : ∀ e, entries.lookup name = some e → e.isFile := by
    intro e he
    cases (hstores.files name hname).symm.trans he
    rfl
  obtain ⟨t', hwrite, hdir'⟩ := Tree.write_join hdir hisName hfile bytes
  have hlist' : (Entry.setChild name (some (.file bytes)) entries).lookup "checksums.txt" =
      some (.file text.toUTF8) := (Entry.lookup_setChild_of_ne hother.symm).trans hlist
  refine ⟨t', hwrite, _, hdir', ⟨fun n hn => ?_, fun e he => ?_⟩, hlist'⟩
  · by_cases hsame : n = name
    · subst hsame
      rw [Entry.lookup_setChild_self, Function.update_self]
    · rw [Entry.lookup_setChild_of_ne hsame, Function.update_of_ne hsame]
      exact hstores.files n hn
  · cases hlist'.symm.trans he
    rfl

/-- A line is written behind the text of a list. -/
theorem exists_writeLine (h : Lies t dir content text) (hname : name ∈ requiredFiles) :
    ∃ t' text', writeLine t dir text name = .ok (t', text') ∧ Lies t' dir content text' ∧
      text'.toList = text.toList ++ ((lineAbout content name).toList ++ ['\n']) := by
  have hread := h.read hname
  obtain ⟨entries, hdir, hstores, -⟩ := h
  obtain ⟨t', hwrite, h'⟩ := exists_write_list hdir hstores
    (text ++ checksumText (Digest.Sha256.hexOf (content name)) name)
  refine ⟨t', _, ?_, h', by simp [checksumText, lineAbout]⟩
  rw [writeLine, hread]
  simp only [bind, Except.bind, hwrite]

/-- For each of the files a line is written. -/
theorem exists_writeLines (h : Lies t dir content text)
    (hnames : ∀ n ∈ names, n ∈ requiredFiles) :
    ∃ t' text', writeLines t dir text names = .ok t' ∧ Lies t' dir content text' ∧
      text'.toList =
        text.toList ++ names.flatMap fun n => (lineAbout content n).toList ++ ['\n'] := by
  induction names generalizing t text with
  | nil => exact ⟨t, text, rfl, h, by simp⟩
  | cons name names ih =>
    obtain ⟨hname, hnames⟩ := List.forall_mem_cons.mp hnames
    obtain ⟨t₁, text₁, hwrite, h₁, htext₁⟩ := exists_writeLine h hname
    obtain ⟨t', text', hrest, h', htext⟩ := ih h₁ hnames
    refine ⟨t', text', ?_, h', ?_⟩
    · rw [writeLines, hwrite]
      exact hrest
    · rw [htext, htext₁, List.flatMap_cons, List.append_assoc]

/-- The list that is written has one line for each required file. -/
theorem exists_writeChecksums (hdir : t.entry dir = .ok (.directory entries))
    (hstores : Stores content entries) :
    ∃ t' text, writeChecksums t dir = .ok t' ∧ Lies t' dir content text ∧
      text.sourceLines = requiredFiles.map (lineAbout content) := by
  obtain ⟨t₁, hwrite, h₁⟩ := exists_write_list hdir hstores ""
  have hnames : ∀ n ∈ requiredFiles, n ∈ requiredFiles := fun _ hn => hn
  obtain ⟨t', text, hlines, h', htext⟩ := exists_writeLines h₁ hnames
  rw [String.toList_empty, List.nil_append] at htext
  refine ⟨t', text, ?_, h', sourceLines_of_written htext hnames⟩
  rw [writeChecksums, hwrite]
  exact hlines

/-- With a list of this content exactly the models of this content are intact. -/
theorem intact_iff (htext : text.sourceLines = requiredFiles.map (lineAbout content)) :
    Intact t dir text ↔ ∀ name ∈ requiredFiles, ∃ bytes, t.read (join dir name) = .ok bytes ∧
      Digest.Sha256.hexOf bytes = Digest.Sha256.hexOf (content name) := by
  constructor
  · intro h name hname
    obtain ⟨bytes, hbytes, hdigest⟩ := h.unopposed (lineAbout content name)
      (htext ▸ List.mem_map_of_mem hname) _ name (lists_lineAbout hname) hname
    exact ⟨bytes, hbytes, hdigest.symm⟩
  · intro h
    refine ⟨fun name hname => ?_, fun line hline digest name hlists hname => ?_⟩
    · obtain ⟨bytes, hbytes, hdigest⟩ := h name hname
      exact ⟨bytes, hbytes, _, htext ▸ List.mem_map_of_mem hname, hdigest ▸ lists_lineAbout hname⟩
    · rw [htext] at hline
      obtain ⟨n, hn, rfl⟩ := List.mem_map.mp hline
      -- the line is about one file only
      have hsame := (checksumLine?_eq_some_iff.mpr hlists).symm.trans
        (checksumLine?_eq_some_iff.mpr (lists_lineAbout hn))
      cases hsame
      obtain ⟨bytes, hbytes, hdigest⟩ := h name hn
      exact ⟨bytes, hbytes, hdigest.symm⟩

/-- For every text of a list, exactly the intact models are accepted, and there is an answer if
every required file that is there can be read. A list that has just been written is accepted, for
any content of the required files. As long as the list stays, the model is rejected in any later
tree in which the content of a required file is another one with another digest, or the file is
missing. -/
theorem verifyChecksums_accepts (t : Tree) (dir : String) :
    (∀ text, t.readText (checksumsFile dir) = .ok text →
      (verifyChecksums t dir = .ok true ↔ Intact t dir text) ∧
      (Readable t dir → ∃ accepted, verifyChecksums t dir = .ok accepted)) ∧
    ∀ entries content, t.entry dir = .ok (.directory entries) → Stores content entries →
      ∃ t', writeChecksums t dir = .ok t' ∧ verifyChecksums t' dir = .ok true ∧
        (∀ name ∈ requiredFiles, t'.read (join dir name) = .ok (content name)) ∧
        ∀ later, later.readText (checksumsFile dir) = t'.readText (checksumsFile dir) →
          Readable later dir → ∀ name ∈ requiredFiles,
            later.read (join dir name) ≠ .ok (content name) →
            (∀ bytes, later.read (join dir name) = .ok bytes →
              Digest.Sha256.hexOf bytes = Digest.Sha256.hexOf (content name) →
              bytes = content name) →
            verifyChecksums later dir = .ok false := by
  refine ⟨fun text htext => ⟨verifyChecksums_eq_ok_true_iff htext, exists_verifyChecksums htext⟩,
    fun entries content hdir hstores => ?_⟩
  obtain ⟨t', text, hwrite, hlies, hlines⟩ := exists_writeChecksums hdir hstores
  refine ⟨t', hwrite, ?_, fun _ => hlies.read,
    fun later hlater hreadable name hname hchanged hcollide => ?_⟩
  · rw [verifyChecksums_eq_ok_true_iff hlies.readText, intact_iff hlines]
    exact fun name hname => ⟨_, hlies.read hname, rfl⟩
  · rw [hlies.readText] at hlater
    obtain ⟨accepted, haccepted⟩ := exists_verifyChecksums hlater hreadable
    cases accepted with
    | false => exact haccepted
    | true =>
      rw [verifyChecksums_eq_ok_true_iff hlater, intact_iff hlines] at haccepted
      obtain ⟨bytes, hbytes, hdigest⟩ := haccepted name hname
      exact absurd (hcollide bytes hbytes hdigest ▸ hbytes) hchanged

/-- The required files, each with its name as content. -/
def namesakes : List (String × Entry) :=
  requiredFiles.map fun name => (name, .file name.toUTF8)

theorem verifyChecksums_accepts_namesakes : ∃ t' t'' text,
    writeChecksums (.directory [("m", .directory namesakes)]) "/m" = .ok t' ∧
      verifyChecksums t' "/m" = .ok true ∧ Intact t' "/m" text ∧
      t'.write "/m/model.safetensors" "tampered".toUTF8 = .ok t'' ∧
      verifyChecksums t'' "/m" = .ok false ∧ ¬Intact t'' "/m" text := by
  have hstores : Stores String.toUTF8 namesakes := by
    refine ⟨?_, fun e he => by cases he⟩
    intro name hname
    rcases List.mem_cons.mp hname with rfl | hname
    · rfl
    · rcases List.mem_pair.mp hname with rfl | rfl <;> rfl
  have hdir : Tree.entry (.directory [("m", .directory namesakes)]) "/m" =
      .ok (.directory namesakes) := rfl
  have hmem : "model.safetensors" ∈ requiredFiles := by decide
  have hdigest : Digest.Sha256.hexOf "tampered".toUTF8 ≠
      Digest.Sha256.hexOf "model.safetensors".toUTF8 := by decide +kernel
  obtain ⟨t', hwrite, haccepts, -, hlater⟩ :=
    (verifyChecksums_accepts _ "/m").2 namesakes String.toUTF8 hdir hstores
  obtain ⟨t₁, text, hwrite₁, hlies, -⟩ := exists_writeChecksums hdir hstores
  cases hwrite.symm.trans hwrite₁
  obtain ⟨t'', hchange, hlies'⟩ := exists_write_file hlies hmem "tampered".toUTF8
  have hread := hlies'.read hmem
  rw [Function.update_self] at hread
  have hrejects := hlater t'' (hlies'.readText.trans hlies.readText.symm)
    (fun _ hname _ => ⟨_, hlies'.read hname⟩) "model.safetensors" hmem
    (fun hsame => hdigest (congrArg _ (Except.ok.inj (hread.symm.trans hsame))))
    (fun bytes hbytes hsame => by
      cases hread.symm.trans hbytes
      exact absurd hsame hdigest)
  refine ⟨t', t'', text, hwrite, haccepts,
    ((verifyChecksums_accepts t' "/m").1 text hlies.readText).1.mp haccepts, hchange, hrejects,
    fun hintact => ?_⟩
  have haccepts' := ((verifyChecksums_accepts t'' "/m").1 text hlies'.readText).1.mpr hintact
  cases hrejects.symm.trans haccepts'

end CodeClones.Checksums
