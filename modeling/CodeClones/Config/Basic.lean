import CodeClones.Config.Choice
import CodeClones.Config.Thresholds
import CodeClones.Symbol.Kind

/-!
# Configuration

The settings of a search: which symbols are compared, where vectors are kept and how they are made.
A loaded configuration is normal (names trimmed, kinds sorted, empty patterns dropped) and its limits
are positive.
-/

namespace CodeClones

/-- Which files and symbols are searched, and how similar duplicates are. -/
structure FinderConfig where
  analysisMode : AnalysisMode := .full
  /-- Number of queries that are run together. -/
  batchSize : Nat := 100
  maxSymbols : Nat := 10000
  enableCaching : Bool := true
  enableIncremental : Bool := true
  maxMemoryGb : Float := 2
  includeSymbolTypes : List Kind :=
    [.function, .class, .method, .variable, .constant, .interface, .type]
  excludeFilePatterns : List String :=
    ["node_modules/*", ".git/*", "build/*", "dist/*", "coverage/*", "*.min.js", "__pycache__/*",
      "*.pyc"]
  /-- Least number of characters of a symbol's content. -/
  minSymbolLength : Nat := 10
  thresholds : Thresholds := .default

/-- Parameters of an approximate index, which exhaustive backends only report. -/
structure IndexParams where
  m : Nat := 16
  constructionEf : Nat := 400
  searchEf : Nat := 128
  numThreads : Nat := 4
  deriving DecidableEq, Repr

/-- The name of the only distance in use. -/
def IndexParams.space : String := "cosine"

/-- The collection that vectors go to unless another one is named. -/
def defaultCollection : String := "code_symbols"

/-- Where vectors are kept and how they are queried. -/
structure StoreConfig where
  backend : BackendKind := .sqlite
  collection : String := defaultCollection
  /-- Directory of the database; a relative one lies in the settings directory. -/
  persistDir : Option String := none
  maxResults : Nat := 100
  enablePooling : Bool := true
  maxConnections : Nat := 5
  connectionTimeoutSecs : Nat := 30
  enableQueryCache : Bool := true
  cacheTtlSecs : Nat := 300
  maxCacheEntries : Nat := 1000
  enableAsync : Bool := true
  maxConcurrentQueries : Nat := 5
  searchTimeoutSecs : Nat := 30
  index : IndexParams := {}
  deriving DecidableEq, Repr

/-- How vectors are made. -/
structure EmbeddingsConfig where
  provider : ProviderKind := .mock
  model : Option String := none
  dimension : Nat := 64
  batchSize : Nat := 32
  normalize : Bool := true
  deriving DecidableEq, Repr

/-- All settings. -/
structure Config where
  finder : FinderConfig := {}
  store : StoreConfig := {}
  embeddings : EmbeddingsConfig := {}

namespace FinderConfig

/-- Equality of settings; a memory limit that is no number equals nothing. -/
def equal (a b : FinderConfig) : Bool :=
  a.analysisMode == b.analysisMode && a.batchSize == b.batchSize && a.maxSymbols == b.maxSymbols &&
    a.enableCaching == b.enableCaching && a.enableIncremental == b.enableIncremental &&
    a.maxMemoryGb == b.maxMemoryGb && a.includeSymbolTypes == b.includeSymbolTypes &&
    a.excludeFilePatterns == b.excludeFilePatterns && a.minSymbolLength == b.minSymbolLength &&
    a.thresholds.equal b.thresholds

end FinderConfig

/-- A kind at its place among ascending kinds, once. -/
def insertKind (k : Kind) : List Kind → List Kind
  | [] => [k]
  | l :: rest =>
    if k.rank < l.rank then k :: l :: rest
    else if k = l then l :: rest
    else l :: insertKind k rest

namespace Config

/-- Equality of settings. -/
def equal (a b : Config) : Bool :=
  a.finder.equal b.finder && a.store == b.store && a.embeddings == b.embeddings

/-- The limits that must be positive, by name and in the order of checks. -/
def limits (c : Config) : List (String × Nat) := [
  ("finder.batch_size", c.finder.batchSize),
  ("finder.max_symbols", c.finder.maxSymbols),
  ("store.max_results", c.store.maxResults),
  ("store.max_connections", c.store.maxConnections),
  ("store.max_cache_entries", c.store.maxCacheEntries),
  ("store.max_concurrent_queries", c.store.maxConcurrentQueries),
  ("embeddings.batch_size", c.embeddings.batchSize),
  ("embeddings.dimension", c.embeddings.dimension)]

/-- Refuses a configuration with a limit of zero. -/
def validate (c : Config) : Except ConfigError Unit :=
  match c.limits.find? fun (_, limit) => limit == 0 with
  | some (name, _) => .error (.zeroValue name)
  | none => .ok ()

/-- A text without blanks around it, unless nothing is left. -/
def trimmed? (text : String) : Option String :=
  if text.trimBlanks.isEmpty then none else some text.trimBlanks

/-- The configuration with names trimmed, kinds in order and empty patterns dropped. -/
def normalize (c : Config) : Config :=
  { finder :=
      { c.finder with
        includeSymbolTypes := c.finder.includeSymbolTypes.foldr insertKind []
        excludeFilePatterns := c.finder.excludeFilePatterns.filterMap trimmed? }
    store := { c.store with collection := (trimmed? c.store.collection).getD defaultCollection }
    embeddings := { c.embeddings with model := c.embeddings.model.bind trimmed? } }

end Config

end CodeClones
