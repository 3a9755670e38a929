import CodeClones.Config.Basic
import CodeClones.Toml.Reader
import CodeClones.Toml.Writer

/-!
# Configuration files

A configuration is written as a document of sections, and read from one. When reading, missing
settings keep their defaults and unknown keys are ignored; a section may also be an array that gives
the settings in order.
-/

namespace CodeClones

namespace Toml

/-- The settings of a section with the given names. A date is a section without settings. -/
def Value.settings? (names : List String) : Value → Option (List (String × Value))
  | .table entries => some (entries.filter fun (k, _) => names.contains k)
  | .array items => some (names.zip items)
  | .moment => some []
  | _ => none

/-- Reads the setting with a name, or takes its default. -/
def setting (settings : List (String × Value)) (name : String) (read : Value → Option α)
    (default : α) : Option α :=
  match settings.lookup name with
  | some v => read v
  | none => some default

/-- A natural number. -/
def Value.natural? : Value → Option Nat
  | .integer n => if 0 ≤ n then some n.toNat else none
  | _ => none

/-- A truth value. -/
def Value.bool? : Value → Option Bool
  | .bool b => some b
  | _ => none

/-- A text. -/
def Value.string? : Value → Option String
  | .string s => some s
  | _ => none

/-- A number of 64 bits. -/
def Value.number? : Value → Option Float
  | .float x => some x
  | .integer n => some (Float.ofInt n)
  | _ => none

/-- The items of an array. -/
def Value.list? (read : Value → Option α) : Value → Option (List α)
  | .array items => items.mapM read
  | _ => none

/-- A name of an alternative: a text, or a section of that name with nothing in it. -/
def Value.choice? (ofName? : String → Option α) : Value → Option α
  | .string s => ofName? s
  | .table [(name, .table [])] => ofName? name
  | .table [(name, .array [])] => ofName? name
  | _ => none

end Toml

open Toml

/-- The kind with exactly the given name. -/
def Kind.ofExactName? (text : String) : Option Kind := Kind.all.find? fun k => k.name == text

/-- Reads thresholds. -/
def Thresholds.ofToml? (v : Toml.Value) : Option Thresholds := do
  let s ← v.settings? ["low", "medium", "high", "exact"]
  let value := fun name (default : Float32) =>
    setting s name (fun v => v.number?.map Decimal.narrow) default
  let made := Thresholds.make? (← value "low" Thresholds.default.low)
    (← value "medium" Thresholds.default.medium) (← value "high" Thresholds.default.high)
    (← value "exact" Thresholds.default.exact)
  made.toOption

/-- Reads the section of the finder. -/
def FinderConfig.ofToml? (v : Toml.Value) : Option FinderConfig := do
  let s ← v.settings? ["analysis_mode", "batch_size", "max_symbols", "enable_caching",
    "enable_incremental", "max_memory_gb", "include_symbol_types", "exclude_file_patterns",
    "min_symbol_length", "thresholds"]
  let d : FinderConfig := {}
  pure {
    analysisMode := ← setting s "analysis_mode" (Value.choice? AnalysisMode.ofName?) d.analysisMode
    batchSize := ← setting s "batch_size" Value.natural? d.batchSize
    maxSymbols := ← setting s "max_symbols" Value.natural? d.maxSymbols
    enableCaching := ← setting s "enable_caching" Value.bool? d.enableCaching
    enableIncremental := ← setting s "enable_incremental" Value.bool? d.enableIncremental
    maxMemoryGb := ← setting s "max_memory_gb" Value.number? d.maxMemoryGb
    includeSymbolTypes := ← setting s "include_symbol_types"
      (Value.list? (Value.choice? Kind.ofExactName?)) d.includeSymbolTypes
    excludeFilePatterns := ← setting s "exclude_file_patterns" (Value.list? Value.string?)
      d.excludeFilePatterns
    minSymbolLength := ← setting s "min_symbol_length" Value.natural? d.minSymbolLength
    thresholds := ← setting s "thresholds" Thresholds.ofToml? d.thresholds }

/-- Reads the parameters of an index. -/
def IndexParams.ofToml? (v : Toml.Value) : Option IndexParams := do
  let s ← v.settings? ["space", "m", "construction_ef", "search_ef", "num_threads"]
  let d : IndexParams := {}
  let onlySpace := fun name => if name = IndexParams.space then some () else none
  setting s "space" (Value.choice? onlySpace) ()
  pure {
    m := ← setting s "m" Value.natural? d.m
    constructionEf := ← setting s "construction_ef" Value.natural? d.constructionEf
    searchEf := ← setting s "search_ef" Value.natural? d.searchEf
    numThreads := ← setting s "num_threads" Value.natural? d.numThreads }

/-- Reads the section of the store. -/
def StoreConfig.ofToml? (v : Toml.Value) : Option StoreConfig := do
  let s ← v.settings? ["backend", "collection", "persist_dir", "max_results", "enable_pooling",
    "max_connections", "connection_timeout_secs", "enable_query_cache", "cache_ttl_secs",
    "max_cache_entries", "enable_async", "max_concurrent_queries", "search_timeout_secs", "index"]
  let d : StoreConfig := {}
  pure {
    backend := ← setting s "backend" (Value.choice? BackendKind.ofName?) d.backend
    collection := ← setting s "collection" Value.string? d.collection
    persistDir := ← setting s "persist_dir" (fun v => v.string?.map some) d.persistDir
    maxResults := ← setting s "max_results" Value.natural? d.maxResults
    enablePooling := ← setting s "enable_pooling" Value.bool? d.enablePooling
    maxConnections := ← setting s "max_connections" Value.natural? d.maxConnections
    connectionTimeoutSecs := ← setting s "connection_timeout_secs" Value.natural?
      d.connectionTimeoutSecs
    enableQueryCache := ← setting s "enable_query_cache" Value.bool? d.enableQueryCache
    cacheTtlSecs := ← setting s "cache_ttl_secs" Value.natural? d.cacheTtlSecs
    maxCacheEntries := ← setting s "max_cache_entries" Value.natural? d.maxCacheEntries
    enableAsync := ← setting s "enable_async" Value.bool? d.enableAsync
    maxConcurrentQueries := ← setting s "max_concurrent_queries" Value.natural?
      d.maxConcurrentQueries
    searchTimeoutSecs := ← setting s "search_timeout_secs" Value.natural? d.searchTimeoutSecs
    index := ← setting s "index" IndexParams.ofToml? d.index }

/-- Reads the section of the embeddings. -/
def EmbeddingsConfig.ofToml? (v : Toml.Value) : Option EmbeddingsConfig := do
  let s ← v.settings? ["provider", "model", "dimension", "batch_size", "normalize"]
  let d : EmbeddingsConfig := {}
  pure {
    provider := ← setting s "provider" (Value.choice? ProviderKind.ofName?) d.provider
    model := ← setting s "model" (fun v => v.string?.map some) d.model
    dimension := ← setting s "dimension" Value.natural? d.dimension
    batchSize := ← setting s "batch_size" Value.natural? d.batchSize
    normalize := ← setting s "normalize" Value.bool? d.normalize }

namespace Config

/-- Reads a configuration as it is written. -/
def ofToml? (t : Toml.Table) : Option Config := do
  pure {
    finder := ← setting t "finder" FinderConfig.ofToml? {}
    store := ← setting t "store" StoreConfig.ofToml? {}
    embeddings := ← setting t "embeddings" EmbeddingsConfig.ofToml? {} }

/-- The configuration that a text stands for: normal, and with positive limits. -/
def ofText (text : String) : Except ConfigError Config :=
  match (Toml.Table.ofText? text).bind ofToml? with
  | some c => do
    c.normalize.validate
    pure c.normalize
  | none => .error .malformed

/-- A natural number as a value. -/
def natural (n : Nat) : Toml.Value := .integer n

/-- A number of 32 bits as a value. -/
def single (x : Float32) : Toml.Value := .float (Decimal.widen x)

/-- The document of a configuration. -/
def toToml (c : Config) : Toml.Table :=
  let strings := fun (xs : List String) => Toml.Value.array (xs.map .string)
  let optional := fun key (v : Option String) => (v.map fun v => (key, Toml.Value.string v)).toList
  let f := c.finder
  let s := c.store
  let e := c.embeddings
  [("finder", .table [
      ("analysis_mode", .string f.analysisMode.name),
      ("batch_size", natural f.batchSize),
      ("max_symbols", natural f.maxSymbols),
      ("enable_caching", .bool f.enableCaching),
      ("enable_incremental", .bool f.enableIncremental),
      ("max_memory_gb", .float f.maxMemoryGb),
      ("include_symbol_types", strings (f.includeSymbolTypes.map Kind.name)),
      ("exclude_file_patterns", strings f.excludeFilePatterns),
      ("min_symbol_length", natural f.minSymbolLength),
      ("thresholds", .table [
        ("low", single f.thresholds.low),
        ("medium", single f.thresholds.medium),
        ("high", single f.thresholds.high),
        ("exact", single f.thresholds.exact)])]),
    ("store", .table ([
      ("backend", .string s.backend.name),
      ("collection", .string s.collection)] ++ optional "persist_dir" s.persistDir ++ [
      ("max_results", natural s.maxResults),
      ("enable_pooling", .bool s.enablePooling),
      ("max_connections", natural s.maxConnections),
      ("connection_timeout_secs", natural s.connectionTimeoutSecs),
      ("enable_query_cache", .bool s.enableQueryCache),
      ("cache_ttl_secs", natural s.cacheTtlSecs),
      ("max_cache_entries", natural s.maxCacheEntries),
      ("enable_async", .bool s.enableAsync),
      ("max_concurrent_queries", natural s.maxConcurrentQueries),
      ("search_timeout_secs", natural s.searchTimeoutSecs),
      ("index", .table [
        ("space", .string IndexParams.space),
        ("m", natural s.index.m),
        ("construction_ef", natural s.index.constructionEf),
        ("search_ef", natural s.index.searchEf),
        ("num_threads", natural s.index.numThreads)])])),
    ("embeddings", .table ([("provider", .string e.provider.name)] ++ optional "model" e.model ++ [
      ("dimension", natural e.dimension),
      ("batch_size", natural e.batchSize),
      ("normalize", .bool e.normalize)]))]

/-- The text of a configuration file. -/
def text (c : Config) : String := c.toToml.text

end Config

end CodeClones
