import CodeClones.Outline.Grammars
import CodeClones.Outline.Lines
import CodeClones.Symbol.Reported
import CodeClones.Workspace.Tree

/-!
# Symbols of source files

A language server, if there is one, is asked first for the symbols of a file. Where it gives none the
grammar of the file reads them, and where there is no grammar the line patterns do. A file that is
read counts as extracted even if it has no symbols. Where the lines that a language server reports
leave a word the program stops in the middle of a call.
-/

namespace CodeClones

open Syntax

/-- What found the symbols of a file. -/
inductive Strategy where
  | semantic
  | syntaxTree
  | regex
  deriving DecidableEq, Repr

/-- The name of a strategy. -/
def Strategy.name : Strategy → String
  | semantic => "semantic"
  | syntaxTree => "syntax_tree"
  | regex => "regex"

/-- Why a file has no symbols. -/
inductive ExtractError where
  | unreadable (path : String) (cause : FileError)
  | unsupported (path : String)
  /-- No failure that a caller is told of: the program stops. -/
  | aborted (cause : Abort)
  deriving DecidableEq, Repr

/-- The text of an error. -/
def ExtractError.message : ExtractError → String
  | unreadable path cause => "failed to read " ++ path ++ ": " ++ cause.message
  | unsupported path => "unsupported file extension: " ++ path
  | aborted cause => cause.message

/-- A language server. -/
structure SymbolServer where
  name : String
  version : Option String
  languages : List Language
  loaded : Bool
  /-- The symbols of a file, given by its path in the workspace; none if the request fails. -/
  answer : String → Option (List ReportedSymbol)

/-- Counts of extracted files. -/
structure ExtractionStats where
  filesProcessed : Nat := 0
  filesFailed : Nat := 0
  semanticFiles : Nat := 0
  syntaxTreeFiles : Nat := 0
  regexFiles : Nat := 0
  symbolsExtracted : Nat := 0
  deriving DecidableEq, Repr

/-- Counts a file with the given outcome. -/
def ExtractionStats.count (s : ExtractionStats) :
    Except ExtractError (List Symbol × Strategy) → ExtractionStats
  | .error _ => { s with filesProcessed := s.filesProcessed + 1, filesFailed := s.filesFailed + 1 }
  | .ok (symbols, strategy) =>
    let s := { s with
      filesProcessed := s.filesProcessed + 1
      symbolsExtracted := s.symbolsExtracted + symbols.length }
    match strategy with
    | .semantic => { s with semanticFiles := s.semanticFiles + 1 }
    | .syntaxTree => { s with syntaxTreeFiles := s.syntaxTreeFiles + 1 }
    | .regex => { s with regexFiles := s.regexFiles + 1 }

/-- What reads the symbols of sources. -/
structure Readers where
  parsers : Parsers
  server : Option SymbolServer := none

/-- Finds the symbols of files of a workspace. -/
structure Extractor extends Readers where
  /-- The workspace. -/
  root : String
  stats : ExtractionStats := {}

/-- What some files gave: their symbols, or why there are none. -/
structure ExtractionBatch where
  files : List (String × List Symbol) := []
  skipped : List (String × ExtractError) := []

/-- All symbols of a batch, file by file. -/
def ExtractionBatch.symbols (b : ExtractionBatch) : List Symbol := b.files.flatMap (·.2)

/-- The symbols in the text of a file that is read with a grammar. -/
def grammarSymbols (parsers : Parsers) (path source : String) :
    Except ExtractError (List Symbol) :=
  let path := normalizePath path
  (GrammarEntry.ofPath? path).elim (.error (.unsupported path)) fun grammar =>
    .ok (grammar.symbols parsers path source)

namespace Extractor

/-- The paths that a language server is asked for on behalf of a file. -/
def requests (e : Extractor) (path : String) : List String :=
  if e.server.any (·.loaded) then [normalizePath path] else []

/-- What a loaded language server reports; a report of nothing does not count. -/
def reports? (e : Extractor) (path : String) : Option (List ReportedSymbol) := do
  let server ← e.server
  guard server.loaded
  let reports ← server.answer path
  guard !reports.isEmpty
  some reports

/-- The symbols of some reports. -/
def reportedSymbols (reports : List ReportedSymbol) (path source : String) :
    Except Abort (List Symbol) :=
  let found := reports.mapM fun (r : ReportedSymbol) => r.toSymbol? path source
  found.map fun symbols => symbols.filterMap id

/-- The line patterns for a file. -/
def linePatterns? (path : String) : Option LinePatterns :=
  (Language.ofPath? path).bind LinePatterns.ofLanguage?

/-- Whether files of this name can be read. -/
def supports (e : Extractor) (path : String) : Bool :=
  (Language.ofPath? path).isSome &&
    ((GrammarEntry.ofPath? path).isSome || (linePatterns? path).isSome || e.server.isSome)

/-- The symbols in the text of a file, and what found them. -/
def symbolsOf (e : Extractor) (path source : String) :
    Except ExtractError (List Symbol × Strategy) :=
  let path := normalizePath path
  match e.reports? path with
  | some reports =>
    match reportedSymbols reports path source with
    | .ok symbols => .ok (symbols, .semantic)
    | .error cause => .error (.aborted cause)
  | none =>
    if (GrammarEntry.ofPath? path).isSome then
      (grammarSymbols e.parsers path source).map fun symbols => (symbols, .syntaxTree)
    else
      match linePatterns? path with
      | some patterns => .ok (patterns.symbols path source, .regex)
      | none => .error (.unsupported path)

/-- A path as seen from the root directory. -/
def absolute (e : Extractor) (path : String) : String := FilePath.join e.root path

/-- A path as seen from the workspace, if it lies there. -/
def relative (e : Extractor) (path : String) : String := relativePath e.root (e.absolute path)

/-- The symbols of a file in a tree. -/
def readFile (e : Extractor) (t : Tree) (path : String) :
    Except ExtractError (List Symbol × Strategy) :=
  match t.readText (e.absolute path) with
  | .ok source => e.symbolsOf (e.relative path) source
  | .error cause => .error (.unreadable (e.relative path) cause)

/-- Why the program stops with an outcome. -/
def abort? {α : Type} : Except ExtractError α → Option Abort
  | .error (.aborted cause) => some cause
  | _ => none

/-- Adds the outcome for a file to a batch. -/
def addOutcome (path : String) (outcome : Except ExtractError (List Symbol × Strategy))
    (b : ExtractionBatch) : ExtractionBatch :=
  match outcome with
  | .ok (symbols, _) => { b with files := (path, symbols) :: b.files }
  | .error cause => { b with skipped := (path, cause) :: b.skipped }

/-- Counts a file with the given outcome and goes on with the files behind it, unless the program
stops. -/
def countAnd (e : Extractor) (path : String)
    (outcome : Except ExtractError (List Symbol × Strategy))
    (rest : Extractor → Extractor × Except Abort ExtractionBatch) :
    Extractor × Except Abort ExtractionBatch :=
  match abort? outcome with
  | some cause => (e, .error cause)
  | none =>
    let (e, batch) := rest { e with stats := e.stats.count outcome }
    (e, batch.map (addOutcome path outcome))

/-- Reads files one after the other and counts them, where the file at position `i` is read in the
tree `trees i`. -/
def extract (e : Extractor) (trees : Nat → Tree) :
    List String → Extractor × Except Abort ExtractionBatch
  | [] => (e, .ok {})
  | path :: paths =>
    e.countAnd path (e.readFile (trees 0) path) fun e =>
      e.extract (fun i => trees (i + 1)) paths

end Extractor

end CodeClones
