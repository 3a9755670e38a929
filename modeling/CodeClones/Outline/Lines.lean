import CodeClones.Outline.LinePatterns
import CodeClones.Symbol.Basic
import CodeClones.Symbol.Signature

/-!
# Declarations found line by line

Every line declares at most one symbol. A function is a method if a class header encloses it by
indentation, and a declaration extends to the line that closes its braces.
-/

namespace CodeClones

/-- A line of a source. -/
abbrev Line := List Char

namespace LinePatterns

/-- Words that are never the name of a declaration. -/
def controlWords : List String :=
  ["if", "for", "while", "switch", "catch", "return", "new", "else", "do", "try"]

/-- The number of lines that a declaration is followed over. -/
def blockLimit : Nat := 400

/-- The number of blanks at the start of a line. -/
def indentation (line : Line) : Nat := (line.takeWhile Text.isBlank).length

/-- Whether a line at the indentation `indent` lies in a class, given the lines above it, the nearest
one first. Lines that are not indented less count no more than blank lines. -/
def liesInClass (isClassHeader : Line → Bool) (indent : Nat) : List Line → Bool
  | [] => false
  | line :: above =>
    if !Text.isBlankText line && indentation line < indent then
      isClassHeader line ||
        (indentation line != 0 && liesInClass isClassHeader indent above)
    else liesInClass isClassHeader indent above

/-- The scope of a line, given the lines above it, the nearest one first. -/
def scopeOf (isClassHeader : Line → Bool) (above : List Line) (line : Line) : String :=
  if indentation line != 0 && liesInClass isClassHeader (indentation line) above then classScope
  else moduleScope

/-- The number of lines of a block behind its first line, when `depth` more braces have been opened
than closed on the `passed` lines so far and `opened` tells whether any was opened. -/
def linesBehind (depth : Int) (opened : Bool) (passed : Nat) : List Line → Nat
  | [] => if opened then passed - 1 else 0
  | line :: rest =>
    let depth := depth + line.count '\x7b' - line.count '\x7d'
    let opened := opened || line.contains '\x7b'
    if opened && depth ≤ 0 then passed
    else if !opened && (passed != 0 || (Text.trimEndWith Text.isBlank line).getLast? == some ';')
    then 0
    else linesBehind depth opened (passed + 1) rest

/-- The lines of the block that starts on the first of some lines. -/
def block (lines : List Line) : List Line :=
  lines.take (linesBehind 0 false 0 (lines.take blockLimit) + 1)

/-- The name of a parameter as it is written. -/
def parameterName? (p : LinePatterns) (written : String) : Option String :=
  match p.nameWord? (Text.fields Text.isBlank written.toList) with
  | some word =>
    let name := Text.trim (dropDots word)
    if name.isEmpty then none else some (String.ofList name)
  | none => none
where
  /-- Drops dots in threes from the front. -/
  dropDots : List Char → List Char
    | '.' :: '.' :: '.' :: rest => dropDots rest
    | word => word

/-- The import on a line. -/
def importOn? (p : LinePatterns) (number : Nat) (line : Line) : Option Declaration :=
  (p.imports.captured? line).map fun (target, _) =>
    { name := String.ofList (Text.trim target)
      kind := .import
      startLine := number
      endLine := number
      content := String.ofList (Text.trim line)
      scope := moduleScope }

/-- The first header on a line whose name may name a declaration: its name, its kind, and what
follows the name. -/
def headerOn? (line : Line) : List (Pattern Char × Kind) → Option (String × Kind × List Char)
  | [] => none
  | (pattern, kind) :: rest =>
    match pattern.captured? line with
    | some (name, tail) =>
      if controlWords.contains (String.ofList name) then headerOn? line rest
      else some (String.ofList name, kind, tail)
    | none => headerOn? line rest

/-- The declaration whose header is on the first of some lines, with the lines above it. -/
def declarationOn? (p : LinePatterns) (above : List Line) (number : Nat) (lines : List Line) :
    Option Declaration := do
  let line ← lines.head?
  let (name, kind, tail) ← headerOn? line p.headers
  let scope := scopeOf (fun l => p.classHeader.fitsFront l) above line
  let kind := if kind = .function ∧ scope = classScope then .method else kind
  let body := block lines
  let parameters :=
    if kind = .function ∨ kind = .method then
      (Signature.parameters? (String.ofList tail)).map (·.filterMap p.parameterName?)
    else none
  some {
    name, kind
    startLine := number
    endLine := number + body.length - 1
    content := String.ofList (Text.joinWith ['\n'] body)
    scope, parameters }

/-- The declarations on some lines, of which the first has the given number, with the lines above
them, the nearest one first. -/
def declarations (p : LinePatterns) (above : List Line) (number : Nat) :
    List Line → List Declaration
  | [] => []
  | line :: rest =>
    ((p.importOn? number line).orElse fun _ =>
      p.declarationOn? above number (line :: rest)).toList ++
        p.declarations (line :: above) (number + 1) rest

/-- The symbols of a source text, in the order of their lines. -/
def symbols (p : LinePatterns) (filePath source : String) : List Symbol :=
  (p.declarations [] 1 (Text.lines source.toList)).map (·.toSymbol filePath)

end LinePatterns

end CodeClones
