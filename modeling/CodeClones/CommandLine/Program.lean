import CodeClones.CommandLine.Arguments
import CodeClones.Finder.Run
import CodeClones.Report.Document

/-!
# The program

A call of the program resolves the workspace, loads its configuration and carries out a command. It
prints reports and statistics as indented documents, and reports failures with an exit code.
-/

namespace CodeClones

/-- What the program finds around it. -/
structure Surroundings where
  disk : Disk
  /-- The directory that relative paths start from. -/
  directory : String
  /-- The share of memory in use, in percent. -/
  usage : Float := 0
  /-- How long a run takes, in seconds. -/
  seconds : Float := 0
  timestamp : String := ""

/-- What the program leaves behind. -/
structure Outcome where
  disk : Disk
  exitCode : Nat := 0
  /-- The text on standard output. -/
  printed : String := ""
  /-- The text on standard error. -/
  reported : String := ""

/-- Why a call fails. -/
inductive ProgramError where
  | workspace (path : String) (cause : FileError)
  | settings (file : String) (cause : FinderError)
  | run (cause : FinderError)
  | outputDirectory (path : String) (cause : FileError)
  | output (path : String) (cause : FileError)
  deriving DecidableEq, Repr

namespace ProgramError

/-- A failure with its cause below. -/
def withCause (failure : String) (cause : FileError) : String :=
  "Error: " ++ failure ++ "\n\nCaused by:\n    " ++ cause.message ++ "\n"

/-- The text of an error. -/
def message : ProgramError → String
  | workspace path cause => withCause ("failed to resolve workspace path " ++ path) cause
  | settings file cause =>
    "simdup: failed to load or create workspace config at " ++ file ++ ": " ++
      cause.message ++ "\n"
  | run cause =>
    if cause.fault = .aborted then cause.reason ++ "\n" else "simdup: " ++ cause.message ++ "\n"
  | outputDirectory path cause => withCause ("failed to create " ++ path) cause
  | output path cause => withCause ("failed to write report to " ++ path) cause

/-- The exit code for an error. -/
def exitCode : ProgramError → Nat
  | settings _ cause | run cause => cause.exitCode
  | _ => 1

end ProgramError

/-- The mode that options ask for: listed files ask for an incremental run, which globs rule out. -/
def AnalyzeOptions.resolveMode (o : AnalyzeOptions) (configured : AnalysisMode) :
    Except String AnalysisMode :=
  let mode := o.mode.getD (if o.files.isEmpty then configured else .incremental)
  match mode with
  | .full =>
    if o.files.isEmpty then .ok .full
    else .error "--files cannot be combined with a full analysis"
  | mode =>
    if o.patterns.isEmpty then .ok mode
    else .error ("--pattern only applies to full analysis, not " ++ mode.name)

/-- A part of a call, which changes the disk also when it fails. -/
abbrev ProgramStep := ExceptT ProgramError (StateM Disk)

/-- The texts on standard output and on standard error. -/
structure Texts where
  printed : String := ""
  reported : String := ""
  deriving DecidableEq, Repr

namespace Surroundings

/-- Does some work with the finder of a workspace and stores what it keeps. -/
def withFinder (s : Surroundings) (root : String) (config : Config)
    (work : RunConditions → RunStep α) : ProgramStep α := do
  match Finder.start root (← get) config { parsers := .standard } {} with
  | .error cause => throw (.run cause)
  | .ok (disk, finder) =>
    let (answer, finder) := work
      { views := .still disk.tree
        search := { usage := fun _ => s.usage, query := fun _ => {} }
        usage := s.usage
        seconds := s.seconds
        timestamp := s.timestamp } finder
    set (finder.save disk)
    match answer with
    | .ok a => pure a
    | .error cause => throw (.run cause)

/-- Writes a file, making the directories above it. -/
def writeOutput (s : Surroundings) (path text : String) : ProgramStep Unit := do
  let above := (FilePath.parent? path).getD ""
  if !above.isEmpty then
    match (← get).tree.makeDirectory (FilePath.join s.directory above) with
    | .ok tree => modify fun d => { d with tree }
    | .error cause => throw (.outputDirectory above cause)
  match (← get).tree.write (FilePath.join s.directory path) text.toUTF8 with
  | .ok tree => modify fun d => { d with tree }
  | .error cause => throw (.output path cause)

/-- Writes a report to a file or prints it. -/
def writeReport (s : Surroundings) (r : Report) (output : Option String) : ProgramStep Texts :=
  let text := r.toJson.pretty
  match output with
  | none => pure { printed := text ++ "\n" }
  | some path => do
    s.writeOutput path text
    pure { reported := "wrote " ++ toString r.total ++ " findings to " ++ path ++ "\n" }

/-- Searches for duplicates. -/
def analyze (s : Surroundings) (root : String) (config : Config) (o : AnalyzeOptions) :
    ProgramStep Texts := do
  let options : RunOptions := { threshold := o.threshold, verbose := o.verbose }
  match o.resolveMode config.finder.analysisMode with
  | .error reason => throw (.run ⟨.configuration, .initializing, reason⟩)
  | .ok mode =>
    let report ← s.withFinder root config fun c =>
      if mode = .full then Finder.analyze c options o.top o.patterns
      else Finder.analyzeChanges c options (if o.files.isEmpty then none else some o.files)
    s.writeReport report o.output

/-- Carries out a call. -/
def call (s : Surroundings) (i : Invocation) : ProgramStep Texts := do
  let workspace := i.general.workspace
  match (← get).tree.canonical (FilePath.join s.directory workspace) with
  | .error cause => throw (.workspace workspace cause)
  | .ok root =>
    match Config.ensure root (← get).tree with
    | .error cause =>
      throw (.settings (settingsFile root) ⟨.configuration, .initializing, cause.message⟩)
    | .ok (config, tree) =>
      modify fun d => { d with tree }
      match i.command with
      | .analyze o => s.analyze root config o
      | .stats =>
        let info ← s.withFinder root config Finder.describe
        pure { printed := info.toJson.pretty ++ "\n" }
      | .clear =>
        s.withFinder root config Finder.clearAll
        pure { reported := "cleared index at " ++ root ++ "\n" }

end Surroundings

/-- The commands and options of the program. -/
def usageText : String := "\n".intercalate [
  "Semantic duplicate code finder",
  "",
  "Usage: simdup [--workspace PATH] [--log-format plain|json] COMMAND",
  "",
  "  analyze [--mode MODE] [--files FILE...] [--pattern GLOB] [--root PATH]",
  "          [--threshold SCORE] [--verbose] [--output FILE]",
  "  stats",
  "  clear",
  "  help",
  ""]

/-- The name and the version of the program. -/
def versionText : String := "simdup 0.1.0\n"

/-- Runs the program with some arguments. -/
def runProgram (s : Surroundings) (arguments : List String) : Outcome :=
  match Invocation.read arguments with
  | .error .help => { disk := s.disk, printed := usageText }
  | .error .version => { disk := s.disk, printed := versionText }
  | .error (.refused cause) =>
    { disk := s.disk, exitCode := 2, reported := "error: " ++ cause.message ++ "\n\n" ++ usageText }
  | .ok i =>
    match s.call i s.disk with
    | (.ok texts, disk) => { disk, printed := texts.printed, reported := texts.reported }
    | (.error cause, disk) =>
      { disk, exitCode := cause.exitCode, reported := cause.message }

end CodeClones
