import CodeClones.Outline.Lines
import CodeClones.Proofs.Finder.Identifiers
import CodeClones.Proofs.Pattern
import CodeClones.Proofs.Symbol

/-!
# What is found line by line

Every line gives at most one symbol, an import or else the declaration of the first header that
fits, so the symbols of a source stand in the order of different lines. The lines of a declaration
are lines of the source, since the search for the end of its block stops at the last line or at the
limit. Its content is made of exactly these lines.
-/

namespace CodeClones.LinePatterns

/-- The first header of a line whose name may name a declaration. -/
structure FirstHeader (p : LinePatterns) (line : Line) (name : String) (kind : Kind)
    (tail : List Char) : Prop where
  noControlWord : name ∉ controlWords
  fits : ∃ before pattern after, p.headers = before ++ (pattern, kind) :: after ∧
    pattern.captured? line = some (name.toList, tail) ∧
    ∀ q ∈ before, ∀ word rest, q.1.captured? line = some (word, rest) →
      String.ofList word ∈ controlWords
  inside : name.toList ++ tail <:+ line

/-- A symbol stands for the import on a line. -/
structure ImportedOn (p : LinePatterns) (line : Line) (s : Symbol) : Prop where
  name : ∃ target tail, p.imports.captured? line = some (target, tail) ∧
    s.name = String.ofList (Text.trim target)
  kind : s.kind = .import
  lineCount : s.lineCount = 1
  scope : s.scope = moduleScope
  content : s.content = String.ofList (Text.trim line)

/-- A symbol stands for what is declared on a line of some lines. -/
structure DeclaredOn (p : LinePatterns) (lines : List Line) (line : Line) (s : Symbol) : Prop where
  noImport : p.imports.captured? line = none
  notImport : s.kind ≠ .import
  header : ∃ kind tail, p.FirstHeader line s.name kind tail ∧
    (s.kind = .method ↔ kind = .function ∧ s.scope = classScope) ∧
    (s.kind ≠ .method → s.kind = kind)
  scope : s.scope = scopeOf (fun l => p.classHeader.fitsFront l)
    (lines.take (s.lineNumber - 1)).reverse line
  content : s.content = String.ofList
    (Text.joinWith ['\n'] ((lines.drop (s.lineNumber - 1)).take s.lineCount))

/-- A symbol stands for one of some lines, and its own lines are among them. -/
structure Outlines (p : LinePatterns) (lines : List Line) (s : Symbol) : Prop where
  lineNumber_pos : 1 ≤ s.lineNumber
  lastLine_le : s.lineNumber + s.lineCount - 1 ≤ lines.length
  lineCount_pos : 1 ≤ s.lineCount
  lineCount_le : s.lineCount ≤ blockLimit
  isImport : s.isImport = (s.kind == .import)
  found : ∃ line, lines[s.lineNumber - 1]? = some line ∧
    (p.ImportedOn line s ∨ p.DeclaredOn lines line s)

section

variable {line : Line} {headers : List (Pattern Char × Kind)} {name : String} {kind : Kind}
  {tail : List Char}

/-- The header that is found is the first one that fits with a name that is no control word. -/
theorem headerOn?_eq_some (h : headerOn? line headers = some (name, kind, tail)) :
    name ∉ controlWords ∧ ∃ before pattern after, headers = before ++ (pattern, kind) :: after ∧
      pattern.captured? line = some (name.toList, tail) ∧
      ∀ q ∈ before, ∀ word rest, q.1.captured? line = some (word, rest) →
        String.ofList word ∈ controlWords := by
  induction headers with
  | nil => cases h
  | cons header headers ih =>
    obtain ⟨pattern, kind'⟩ := header
    rw [headerOn?] at h
    split at h
    · rename_i word tail' hword
      split at h
      · rename_i hcontrol
        obtain ⟨hname, before, pattern', after, rfl, hfits, hbefore⟩ := ih h
        refine ⟨hname, (pattern, kind') :: before, pattern', after, rfl, hfits, ?_⟩
        refine List.forall_mem_cons.mpr ⟨fun word' rest hword' => ?_, hbefore⟩
        rw [hword] at hword'
        cases hword'
        exact List.contains_iff_mem.mp hcontrol
      · rename_i hfree
        cases h
        refine ⟨fun hmem => hfree (List.contains_iff_mem.mpr hmem), [], pattern, headers, rfl, ?_,
          nofun⟩
        rw [hword, String.toList_ofList]
    · rename_i hnone
      obtain ⟨hname, before, pattern', after, rfl, hfits, hbefore⟩ := ih h
      refine ⟨hname, (pattern, kind') :: before, pattern', after, rfl, hfits, ?_⟩
      refine List.forall_mem_cons.mpr ⟨fun word rest hword => ?_, hbefore⟩
      rw [hnone] at hword
      cases hword

theorem firstHeader_of_headerOn? {p : LinePatterns}
    (h : headerOn? line p.headers = some (name, kind, tail)) :
    p.FirstHeader line name kind tail := by
  obtain ⟨hname, before, pattern, after, hsplit, hfits, hbefore⟩ := headerOn?_eq_some h
  exact ⟨hname, ⟨before, pattern, after, hsplit, hfits, hbefore⟩, Pattern.captured?_suffix hfits⟩

end

/-- The end of a block lies on the last line that is searched or before it. -/
theorem linesBehind_le (depth : Int) (opened : Bool) (passed : Nat) (lines : List Line) :
    linesBehind depth opened passed lines ≤ passed + lines.length - 1 := by
  induction lines generalizing depth opened passed with
  | nil =>
    rw [linesBehind]
    split <;> simp
  | cons line rest ih =>
    rw [linesBehind, List.length_cons]
    split
    · omega
    · split
      · omega
      · have hrest := ih (depth + line.count '\x7b' - line.count '\x7d')
          (opened || line.contains '\x7b') (passed + 1)
        omega

/-- A block ends on one of its lines, within the limit. -/
theorem linesBehind_lt {lines : List Line} (h : lines ≠ []) :
    linesBehind 0 false 0 (lines.take blockLimit) < min blockLimit lines.length := by
  have hle := linesBehind_le 0 false 0 (lines.take blockLimit)
  have hpos := List.length_pos_iff.mpr h
  rw [List.length_take, blockLimit] at *
  omega

theorem length_block {lines : List Line} (h : lines ≠ []) :
    (block lines).length = linesBehind 0 false 0 (lines.take blockLimit) + 1 := by
  have hlt := linesBehind_lt h
  rw [block, List.length_take]
  omega

theorem take_length_block (lines : List Line) : lines.take (block lines).length = block lines := by
  rw [block, List.length_take, ← List.take_eq_take_min]

/-- A symbol has the lines from the first to the last one. -/
theorem lineCount_toSymbol {d : Declaration} {n : Nat} (path : String)
    (hend : d.endLine = d.startLine + n - 1) (hpos : 1 ≤ n) : (d.toSymbol path).lineCount = n := by
  change d.endLine - d.startLine + 1 = n
  omega

section

variable {p : LinePatterns} {above rest : List Line} {line : Line} {d : Declaration} {path : String}
  {number : Nat}

theorem declarationOn?_eq_some (h : p.declarationOn? above number (line :: rest) = some d) :
    d.startLine = number ∧ d.endLine = number + (block (line :: rest)).length - 1 ∧
      d.content = String.ofList (Text.joinWith ['\n'] (block (line :: rest))) ∧
      d.scope = scopeOf (fun l => p.classHeader.fitsFront l) above line ∧
      ∃ kind tail, headerOn? line p.headers = some (d.name, kind, tail) ∧
        d.kind = if kind = .function ∧ d.scope = classScope then .method else kind := by
  rw [declarationOn?, List.head?_cons, Option.bind_eq_bind, Option.bind_some,
    Option.bind_eq_bind] at h
  obtain ⟨⟨name, kind, tail⟩, hheader, h⟩ := Option.bind_eq_some_iff.mp h
  cases h
  exact ⟨rfl, rfl, rfl, rfl, kind, tail, hheader, rfl⟩

theorem importOn?_eq_some (h : p.importOn? number line = some d) :
    d.startLine = number ∧ d.endLine = number ∧ d.kind = .import ∧ d.scope = moduleScope ∧
      d.content = String.ofList (Text.trim line) ∧
      ∃ target tail, p.imports.captured? line = some (target, tail) ∧
        d.name = String.ofList (Text.trim target) := by
  rw [importOn?, Option.map_eq_some_iff] at h
  obtain ⟨⟨target, tail⟩, hcaptured, rfl⟩ := h
  exact ⟨rfl, rfl, rfl, rfl, rfl, target, tail, hcaptured, rfl⟩

/-- A symbol outlines the lines of which it has the first one and as many as there are. -/
theorem Outlines.of_lines (hstart : d.startLine = above.length + 1)
    (hpos : 1 ≤ (d.toSymbol path).lineCount) (hlimit : (d.toSymbol path).lineCount ≤ blockLimit)
    (hwithin : (d.toSymbol path).lineCount ≤ rest.length + 1)
    (hfound : p.ImportedOn line (d.toSymbol path) ∨
      p.DeclaredOn (above.reverse ++ line :: rest) line (d.toSymbol path)) :
    p.Outlines (above.reverse ++ line :: rest) (d.toSymbol path) := by
  have hnumber : (d.toSymbol path).lineNumber = above.length + 1 := by
    change max d.startLine 1 = above.length + 1
    omega
  refine ⟨by omega, ?_, hpos, hlimit, rfl, line, ?_, hfound⟩
  · rw [hnumber, List.length_append, List.length_reverse, List.length_cons]
    omega
  · rw [hnumber, Nat.add_sub_cancel]
    simp

/-- An import lies on its line. -/
theorem outlines_of_importOn? (h : p.importOn? (above.length + 1) line = some d) :
    p.Outlines (above.reverse ++ line :: rest) (d.toSymbol path) := by
  obtain ⟨hstart, hend, hkind, hscope, hcontent, target, tail, hcaptured, hname⟩ :=
    importOn?_eq_some h
  have hcount : (d.toSymbol path).lineCount = 1 :=
    lineCount_toSymbol path (by omega) (Nat.le_refl 1)
  refine .of_lines hstart hcount.ge (hcount.trans_le (by decide)) (by omega) (.inl ?_)
  exact ⟨⟨target, tail, hcaptured, hname⟩, hkind, hcount, hscope, hcontent⟩

/-- The lines of a declaration are its block. -/
theorem outlines_of_declarationOn? (hheaders : ∀ q ∈ p.headers, q.2 ≠ .method ∧ q.2 ≠ .import)
    (himport : p.importOn? (above.length + 1) line = none)
    (h : p.declarationOn? above (above.length + 1) (line :: rest) = some d) :
    p.Outlines (above.reverse ++ line :: rest) (d.toSymbol path) := by
  obtain ⟨hstart, hend, hcontent, hscope, kind, tail, hheader, hkind⟩ := declarationOn?_eq_some h
  have hlt := linesBehind_lt (List.cons_ne_nil line rest)
  have hlength := length_block (List.cons_ne_nil line rest)
  rw [List.length_cons] at hlt
  have hcount : (d.toSymbol path).lineCount = (block (line :: rest)).length :=
    lineCount_toSymbol path (hstart ▸ hend) (by omega)
  have hnumber : (d.toSymbol path).lineNumber - 1 = above.length := by
    change max d.startLine 1 - 1 = above.length
    omega
  obtain ⟨hname, before, pattern, after, hsplit, -⟩ := headerOn?_eq_some hheader
  obtain ⟨hnoMethod, hnoImport⟩ := hheaders (pattern, kind) (by rw [hsplit]; simp)
  refine .of_lines hstart (by omega) (by omega) (by omega) (.inr ?_)
  refine ⟨Option.map_eq_none_iff.mp himport, ?_, ⟨kind, tail, firstHeader_of_headerOn? hheader,
    ?_, ?_⟩, ?_, ?_⟩
  · change d.kind ≠ .import
    rw [hkind]
    split
    · decide
    · exact hnoImport
  · change d.kind = .method ↔ kind = .function ∧ d.scope = classScope
    rw [hkind]
    split
    · rename_i hmethod
      exact iff_of_true rfl hmethod
    · rename_i hother
      exact iff_of_false hnoMethod hother
  · change d.kind ≠ .method → d.kind = kind
    rw [hkind]
    split
    · exact fun h => absurd rfl h
    · exact fun _ => rfl
  · rw [hnumber, List.take_left' (List.length_reverse ..), List.reverse_reverse]
    exact hscope
  · rw [hnumber, hcount, List.drop_left' (List.length_reverse ..), take_length_block]
    exact hcontent

end

section

variable {p : LinePatterns}

/-- What is found on a line and below it outlines the lines, and each of it starts on a line of its
own, in order. -/
theorem outlines_of_mem_declarations (hheaders : ∀ q ∈ p.headers, q.2 ≠ .method ∧ q.2 ≠ .import)
    (above lines : List Line) (path : String) :
    (∀ d ∈ p.declarations above (above.length + 1) lines,
      above.length < d.startLine ∧ p.Outlines (above.reverse ++ lines) (d.toSymbol path)) ∧
    (p.declarations above (above.length + 1) lines).Pairwise (·.startLine < ·.startLine) := by
  induction lines generalizing above with
  | nil => exact ⟨nofun, .nil⟩
  | cons line rest ih =>
    obtain ⟨hbelow, hsorted⟩ := ih (line :: above)
    rw [List.length_cons, List.reverse_cons, List.append_assoc, List.singleton_append] at hbelow
    rw [List.length_cons] at hsorted
    have hhere : ∀ d ∈ ((p.importOn? (above.length + 1) line).orElse fun _ =>
        p.declarationOn? above (above.length + 1) (line :: rest)).toList,
        d.startLine = above.length + 1 ∧
          p.Outlines (above.reverse ++ line :: rest) (d.toSymbol path) := by
      intro d hd
      rw [Option.mem_toList] at hd
      cases himport : p.importOn? (above.length + 1) line with
      | some imported =>
        rw [himport] at hd
        cases hd
        exact ⟨(importOn?_eq_some himport).1, outlines_of_importOn? himport⟩
      | none =>
        rw [himport] at hd
        exact ⟨(declarationOn?_eq_some hd).1, outlines_of_declarationOn? hheaders himport hd⟩
    rw [declarations]
    constructor
    · intro d hd
      rcases List.mem_append.mp hd with hd | hd
      · obtain ⟨hstart, houtlines⟩ := hhere d hd
        exact ⟨by omega, houtlines⟩
      · obtain ⟨hstart, houtlines⟩ := hbelow d hd
        exact ⟨by omega, houtlines⟩
    · refine List.pairwise_append.mpr ⟨?_, hsorted, fun d hd e he => ?_⟩
      · cases (p.importOn? (above.length + 1) line).orElse fun _ =>
          p.declarationOn? above (above.length + 1) (line :: rest) with
        | none => exact .nil
        | some d => exact List.pairwise_singleton _ d
      · rw [(hhere d hd).1]
        exact (hbelow e he).1

/-- The lines of a declaration that is found by patterns are counted to the end. -/
theorem symbolInWord_of_mem_declarations
    (hheaders : ∀ q ∈ p.headers, q.2 ≠ .method ∧ q.2 ≠ .import) {lines : List Line} {path : String}
    {d : Declaration} (hd : d ∈ p.declarations [] 1 lines) :
    d.symbolInWord path = .ok (d.toSymbol path) := by
  have houtlines := ((outlines_of_mem_declarations hheaders [] lines path).1 d hd).2
  have hlimit : blockLimit < UInt64.size := by decide
  exact Declaration.symbolInWord_eq_ok_iff.mpr
    ⟨Nat.lt_of_le_of_lt houtlines.lineCount_le hlimit, rfl⟩

/-- The patterns of a language declare functions, classes, types and interfaces. -/
theorem kinds_of_headers {l : Language} (h : ofLanguage? l = some p) :
    ∀ q ∈ p.headers, q.2 ≠ .method ∧ q.2 ≠ .import := by
  cases l <;> cases h
  · simp [JavaScript.patterns]
  · simp [Go.patterns]
  · simp [Java.patterns]

/-- Symbols on lines of different numbers have different texts of identifiers. -/
theorem ownText_ne {s t : Symbol} (h : s.lineNumber ≠ t.lineNumber) : s.ownText ≠ t.ownText := by
  intro htext
  have hconfused : Coordinates.Confused ⟨s.filePath, s.name, s.lineNumber, s.kind⟩
      ⟨t.filePath, t.name, t.lineNumber, t.kind⟩ := Coordinates.text_eq_iff.mp htext
  rcases hconfused with hsame | hshifted | hshifted
  · exact h hsame.lineNumber
  · exact h hshifted.lineNumber
  · exact h hshifted.lineNumber.symm

/-- Whatever the source of a language with line patterns is: The end of a block is looked for on
lines of the source only. The symbols stand on different lines, in order, and so have different
identifiers if the digests of the texts of these do not collide. Each of them has its lines in the
source, at most as many as a block may have. An import has its line in module scope; all other
symbols have their lines as content, are not named by a control word, and are methods exactly if the
header is that of a function and the line is in the scope of a class. -/
theorem symbols_outline {l : Language} (h : ofLanguage? l = some p) (path source : String) :
    (∀ index < (Text.lines source.toList).length,
      index + linesBehind 0 false 0 (((Text.lines source.toList).drop index).take blockLimit) <
        (Text.lines source.toList).length) ∧
    (p.symbols path source).Pairwise (·.lineNumber < ·.lineNumber) ∧
    ((∀ s ∈ p.symbols path source, ∀ t ∈ p.symbols path source,
        s.id = t.id → s.ownText = t.ownText) →
      ((p.symbols path source).map (·.id)).Nodup) ∧
    ∀ s ∈ p.symbols path source, p.Outlines (Text.lines source.toList) s := by
  obtain ⟨hlines, hsorted⟩ :=
    outlines_of_mem_declarations (kinds_of_headers h) [] (Text.lines source.toList) path
  have hascending : (p.symbols path source).Pairwise (·.lineNumber < ·.lineNumber) := by
    refine List.pairwise_map.mpr (hsorted.imp_of_mem fun {d e} hd he hlt => ?_)
    change max d.startLine 1 < max e.startLine 1
    have hfirst := (hlines d hd).1
    omega
  refine ⟨fun index hindex => ?_, hascending, fun hdigests => ?_, fun s hs => ?_⟩
  · have hrest : (Text.lines source.toList).drop index ≠ [] := by
      rw [ne_eq, List.drop_eq_nil_iff]
      omega
    have hlt := linesBehind_lt hrest
    rw [List.length_drop] at hlt
    omega
  · refine List.pairwise_map.mpr (hascending.imp_of_mem fun {s t} hs ht hlt hid => ?_)
    exact ownText_ne (Nat.ne_of_lt hlt) (hdigests s hs t ht hid)
  · obtain ⟨d, hd, rfl⟩ := List.mem_map.mp hs
    exact (hlines d hd).2

end

/-- A source with an import, and a method in a class. -/
def methodInClass : String :=
  "import java.util.List;\nclass Sum \x7b\n    int of() \x7b\n        return 0;\n    \x7d\n\x7d\n"

theorem symbols_outline_methodInClass :
    ofLanguage? .java = some Java.patterns ∧
      ((Java.patterns.symbols "Sum.java" methodInClass).map fun s =>
        (s.name, s.kind, s.lineNumber, s.lineCount)) =
          [("java.util.List", .import, 1, 1), ("Sum", .class, 2, 5), ("of", .method, 3, 3)] ∧
      ((Java.patterns.symbols "Sum.java" methodInClass).map (·.id)).Nodup ∧
      ∀ s ∈ Java.patterns.symbols "Sum.java" methodInClass,
        Java.patterns.Outlines (Text.lines methodInClass.toList) s := by
  obtain ⟨-, -, hids, houtlines⟩ :=
    symbols_outline (l := .java) (p := Java.patterns) rfl "Sum.java" methodInClass
  exact ⟨rfl, by decide +kernel, hids (by decide +kernel), houtlines⟩

end CodeClones.LinePatterns
