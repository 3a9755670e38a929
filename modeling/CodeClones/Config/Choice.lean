import CodeClones.Text.Basic

/-!
# Choices among named alternatives

Each choice is found by its exact name. When a choice is read from free text, blanks around the name
are ignored and any other text is refused with the list of names.
-/

namespace CodeClones

/-- Why a text names none of the alternatives of a choice. -/
def refusedChoice (what text : String) (names : List String) : String :=
  "invalid " ++ what ++ " '" ++ text.trimBlanks ++ "', expected one of: " ++
    ", ".intercalate names

/-- Which files a run re-indexes. -/
inductive AnalysisMode where
  | full
  | incremental
  | targeted
  deriving DecidableEq, Repr

namespace AnalysisMode

/-- Every mode. -/
def all : List AnalysisMode := [full, incremental, targeted]

/-- The name of a mode. -/
def name : AnalysisMode → String
  | full => "full"
  | incremental => "incremental"
  | targeted => "targeted"

/-- The mode with a name. -/
def ofName? (text : String) : Option AnalysisMode := all.find? fun m => m.name == text

/-- Why a text is refused as the name of a mode. -/
def refusal (text : String) : String := refusedChoice "analysis mode" text (all.map name)

/-- Reads the name of a mode, blanks around it ignored. -/
def parse (text : String) : Except String AnalysisMode :=
  match ofName? text.trimBlanks with
  | some choice => .ok choice
  | none => .error (refusal text)

end AnalysisMode

/-- Where vectors are kept. -/
inductive BackendKind where
  /-- In a database file. -/
  | sqlite
  /-- In memory only. -/
  | memory
  deriving DecidableEq, Repr

namespace BackendKind

/-- Every kind of backend. -/
def all : List BackendKind := [sqlite, memory]

/-- The name of a kind of backend. -/
def name : BackendKind → String
  | sqlite => "sqlite"
  | memory => "memory"

/-- The kind of backend with a name. -/
def ofName? (text : String) : Option BackendKind := all.find? fun b => b.name == text

/-- Why a text is refused as the name of a kind of backend. -/
def refusal (text : String) : String := refusedChoice "vector backend" text (all.map name)

/-- Reads the name of a kind of backend, blanks around it ignored. -/
def parse (text : String) : Except String BackendKind :=
  match ofName? text.trimBlanks with
  | some choice => .ok choice
  | none => .error (refusal text)

end BackendKind

/-- What turns texts into vectors. -/
inductive ProviderKind where
  /-- Hashed words, for tests. -/
  | mock
  /-- A language model in files. -/
  | candle
  deriving DecidableEq, Repr

namespace ProviderKind

/-- Every kind of provider. -/
def all : List ProviderKind := [mock, candle]

/-- The name of a kind of provider. -/
def name : ProviderKind → String
  | mock => "mock"
  | candle => "candle"

/-- The kind of provider with a name. -/
def ofName? (text : String) : Option ProviderKind := all.find? fun p => p.name == text

/-- Why a text is refused as the name of a kind of provider. -/
def refusal (text : String) : String := refusedChoice "embedding provider" text (all.map name)

/-- Reads the name of a kind of provider, blanks around it ignored. -/
def parse (text : String) : Except String ProviderKind :=
  match ofName? text.trimBlanks with
  | some choice => .ok choice
  | none => .error (refusal text)

end ProviderKind

end CodeClones
