import CodeClones.Config.Choice
import CodeClones.Decimal.Nearest

/-!
# Command line arguments

Options stand before or behind the name of a command and belong to it or to the whole program. An
option takes the texts that follow it as its values, or one value behind `=`. What an option was
given is checked when the next option or the end of the arguments is met.
-/

namespace CodeClones

/-- How log lines are written. -/
inductive LogFormat where
  | plain
  | json
  deriving DecidableEq, Repr

/-- The format with a name. -/
def LogFormat.ofName? : String → Option LogFormat
  | "plain" => some .plain
  | "json" => some .json
  | _ => none

/-- What holds for every command. -/
structure GeneralOptions where
  workspace : String := "."
  logFormat : LogFormat := .plain
  deriving DecidableEq, Repr

/-- What a search for duplicates is asked to do. -/
structure AnalyzeOptions where
  mode : Option AnalysisMode := none
  /-- The files to index again. -/
  files : List String := []
  /-- The globs of the files that a full run covers. -/
  patterns : List String := []
  /-- The directory that a full run covers. -/
  top : String := "."
  threshold : Option Float32 := none
  verbose : Bool := false
  /-- The file for the report. -/
  output : Option String := none

/-- A command of the program. -/
inductive Command where
  | analyze (options : AnalyzeOptions)
  | stats
  | clear

/-- A call of the program. -/
structure Invocation where
  general : GeneralOptions
  command : Command

/-- Why arguments are refused. -/
inductive UsageError where
  | unknownOption (text : String)
  | unexpectedArgument (text : String)
  | missingValue (option : String)
  | unexpectedValue (option : String)
  | repeatedOption (option : String)
  | invalidValue (option value : String)
  | missingCommand
  | unknownCommand (text : String)
  deriving DecidableEq, Repr

/-- The text of an error. -/
def UsageError.message : UsageError → String
  | unknownOption text => "unknown option '" ++ text ++ "'"
  | unexpectedArgument text => "unexpected argument '" ++ text ++ "'"
  | missingValue option => "a value is required for '--" ++ option ++ "'"
  | unexpectedValue option => "'--" ++ option ++ "' takes no value"
  | repeatedOption option => "'--" ++ option ++ "' cannot be used multiple times"
  | invalidValue option value => "invalid value '" ++ value ++ "' for '--" ++ option ++ "'"
  | missingCommand => "a command is required"
  | unknownCommand text => "unknown command '" ++ text ++ "'"

/-- Why arguments do not lead to a call. -/
inductive ArgumentStop where
  | help
  | version
  | refused (cause : UsageError)
  deriving DecidableEq, Repr

/-- How many values an option takes, and how often it may stand. -/
inductive OptionForm where
  /-- No value, once. -/
  | flag
  /-- One value, once. -/
  | single
  /-- One value, any number of times. -/
  | repeated
  /-- One or more values, any number of times. -/
  | list
  deriving DecidableEq, Repr

/-- An option that changes settings of type `σ`. -/
structure OptionSpec (σ : Type) where
  name : String
  form : OptionForm
  /-- The settings with a value, if the value is acceptable; the value of a flag is empty. -/
  set : String → σ → Option σ

/-- The settings that were read so far. -/
structure Reading (σ : Type) where
  settings : σ
  /-- The options that were checked. -/
  given : List String := []
  /-- The last option with its values, if it was not checked yet. -/
  pending : Option (OptionSpec σ × List String) := none
  /-- Whether the last option takes further values. -/
  wantsValue : Bool := false

namespace Reading

variable {σ : Type}

/-- Refuses the arguments. -/
def refuse (cause : UsageError) : Except ArgumentStop α := .error (.refused cause)

/-- Gives an option its values. -/
def give (r : Reading σ) (o : OptionSpec σ) (values : List String) :
    Except ArgumentStop (Reading σ) := do
  if (o.form = .flag ∨ o.form = .single) ∧ r.given.contains o.name then
    refuse (.repeatedOption o.name)
  let settings ← values.foldlM (fun settings value =>
    match o.set value settings with
    | some settings => .ok settings
    | none => refuse (.invalidValue o.name value)) r.settings
  pure { r with settings, given := o.name :: r.given }

/-- Checks the last option. -/
def settle (r : Reading σ) : Except ArgumentStop (Reading σ) :=
  match r.pending with
  | none => .ok r
  | some (o, []) => refuse (.missingValue o.name)
  | some (o, values) => { r with pending := none, wantsValue := false }.give o values

/-- Reads an option by its name, with the value behind `=` if there is one. -/
def takeOption (r : Reading σ) (specs : List (OptionSpec σ)) (name : String)
    (value : Option String) : Except ArgumentStop (Reading σ) :=
  match specs.find? fun o => o.name == name with
  | none => refuse (.unknownOption ("--" ++ name))
  | some o =>
    match o.form, value with
    | .flag, some _ => refuse (.unexpectedValue name)
    | .flag, none => do (← r.settle).give o [""]
    | _, some value => do (← r.settle).give o [value]
    | _, none => do pure { (← r.settle) with pending := some (o, []), wantsValue := true }

/-- Reads a text that is no option as a value of the last option. -/
def takeValue (r : Reading σ) (text : String) : Except ArgumentStop (Reading σ) :=
  match r.pending, r.wantsValue with
  | some (o, values), true =>
    .ok { r with pending := some (o, values ++ [text]), wantsValue := o.form == .list }
  | _, _ => refuse (.unexpectedArgument text)

/-- Reads one argument; `hasVersion` tells whether the version can be asked for. -/
def step (r : Reading σ) (specs : List (OptionSpec σ)) (hasVersion : Bool) (argument : String) :
    Except ArgumentStop (Reading σ) :=
  match argument.toList with
  | '-' :: '-' :: rest =>
    let name := String.ofList (rest.takeWhile (· != '='))
    let value := match rest.dropWhile (· != '=') with
      | _ :: value => some (String.ofList value)
      | [] => none
    if name = "help" then
      if value.isSome then refuse (.unexpectedValue name) else do let _ ← r.settle; .error .help
    else if name = "version" ∧ hasVersion then
      if value.isSome then refuse (.unexpectedValue name) else do let _ ← r.settle; .error .version
    else r.takeOption specs name value
  | '-' :: 'h' :: _ => do let _ ← r.settle; .error .help
  | '-' :: 'V' :: _ =>
    if hasVersion then do let _ ← r.settle; .error .version else refuse (.unknownOption argument)
  | '-' :: _ :: _ => refuse (.unknownOption argument)
  | _ => r.takeValue argument

/-- Reads arguments up to the first command, and hands back the command with all behind it. -/
def upTo (r : Reading σ) (specs : List (OptionSpec σ)) (hasVersion : Bool)
    (isCommand : String → Bool) : List String → Except ArgumentStop (Reading σ × List String)
  | [] => .ok (r, [])
  | argument :: rest =>
    if !r.wantsValue && isCommand argument then .ok (r, argument :: rest)
    else if argument = "--" then
      match rest with
      | [] => .ok (r, [])
      | next :: _ => refuse (.unexpectedArgument next)
    else do (← r.step specs hasVersion argument).upTo specs hasVersion isCommand rest

/-- Reads all arguments of a command. -/
def all (settings : σ) (specs : List (OptionSpec σ)) (arguments : List String) :
    Except ArgumentStop σ := do
  let (r, _) ← upTo { settings } specs false (fun _ => false) arguments
  pure (← r.settle).settings

end Reading

/-- The value of an option that is a path, which is not empty. -/
def pathValue (value : String) : Option String := if value.isEmpty then none else some value

/-- The options for every command. -/
def generalSpecs : List (OptionSpec GeneralOptions) := [
  ⟨"workspace", .single, fun v o => (pathValue v).map fun workspace => { o with workspace }⟩,
  ⟨"log-format", .single, fun v o =>
    (LogFormat.ofName? v).map fun logFormat => { o with logFormat }⟩]

/-- The options of a search for duplicates. -/
def analyzeSpecs : List (OptionSpec AnalyzeOptions) := [
  ⟨"mode", .single, fun v o =>
    (AnalysisMode.parse v).toOption.map fun mode => { o with mode := some mode }⟩,
  ⟨"files", .list, fun v o => (pathValue v).map fun file => { o with files := o.files ++ [file] }⟩,
  ⟨"pattern", .repeated, fun v o => some { o with patterns := o.patterns ++ [v] }⟩,
  ⟨"root", .single, fun v o => (pathValue v).map fun top => { o with top }⟩,
  ⟨"threshold", .single, fun v o =>
    (Decimal.ofText32? v).map fun threshold => { o with threshold := some threshold }⟩,
  ⟨"verbose", .flag, fun _ o => some { o with verbose := true }⟩,
  ⟨"output", .single, fun v o => (pathValue v).map fun path => { o with output := some path }⟩]

/-- The names of all commands. -/
def commandNames : List String := ["analyze", "stats", "clear", "help"]

/-- The commands that help is asked for. -/
def readHelp : List String → ArgumentStop
  | [] => .help
  | [name] => if commandNames.contains name then .help else .refused (.unknownCommand name)
  | name :: next :: _ =>
    .refused (.unknownCommand (if commandNames.contains name then next else name))

namespace Command

/-- Reads the command with a name. -/
def read (name : String) (arguments : List String) : Except ArgumentStop Command :=
  match name with
  | "analyze" => (Reading.all {} analyzeSpecs arguments).map .analyze
  | "stats" => (Reading.all () [] arguments).map fun _ => .stats
  | "clear" => (Reading.all () [] arguments).map fun _ => .clear
  | "help" => .error (readHelp arguments)
  | _ => .error (.refused (.unknownCommand name))

end Command

namespace Invocation

/-- Reads the arguments of a call; one leading `--` is passed over. -/
def read (arguments : List String) : Except ArgumentStop Invocation := do
  let arguments := match arguments with
    | "--" :: rest => rest
    | arguments => arguments
  match ← Reading.upTo { settings := {} } generalSpecs true commandNames.contains arguments with
  | (_, []) => Reading.refuse .missingCommand
  | (r, name :: rest) =>
    let command ← Command.read name rest
    pure ⟨(← r.settle).settings, command⟩

end Invocation

end CodeClones
