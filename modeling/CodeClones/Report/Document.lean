import CodeClones.Json.Writer
import CodeClones.Report.Basic

/-!
# Reports as documents

The entries of each object are written in a fixed order. Entries without a value are left out, except
that a store without a cache says so.
-/

namespace CodeClones

open Json Json.Value

/-- An object with its entries in the given order. -/
def document (entries : List (String × Value)) : Value := .object entries

/-- An entry that is left out without a value. -/
def optionalEntry (key : String) (value : Option Value) : List (String × Value) :=
  (value.map fun v => (key, v)).toList

/-- A list of texts. -/
def texts (items : List String) : Value := .array (items.map .string)

/-- The document of thresholds. -/
def Thresholds.toJson (t : Thresholds) : Value := document [
  ("low", ofSingle t.low),
  ("medium", ofSingle t.medium),
  ("high", ofSingle t.high),
  ("exact", ofSingle t.exact)]

/-- The document of the finder's settings. -/
def FinderConfig.toJson (c : FinderConfig) : Value := document [
  ("analysis_mode", .string c.analysisMode.name),
  ("batch_size", ofNat c.batchSize),
  ("max_symbols", ofNat c.maxSymbols),
  ("enable_caching", .bool c.enableCaching),
  ("enable_incremental", .bool c.enableIncremental),
  ("max_memory_gb", .number (.float c.maxMemoryGb)),
  ("include_symbol_types", texts (c.includeSymbolTypes.map Kind.name)),
  ("exclude_file_patterns", texts c.excludeFilePatterns),
  ("min_symbol_length", ofNat c.minSymbolLength),
  ("thresholds", c.thresholds.toJson)]

/-- The document of index parameters. -/
def IndexParams.toJson (i : IndexParams) : Value := document [
  ("space", .string IndexParams.space),
  ("m", ofNat i.m),
  ("construction_ef", ofNat i.constructionEf),
  ("search_ef", ofNat i.searchEf),
  ("num_threads", ofNat i.numThreads)]

/-- The document of counts of extracted files. -/
def ExtractionStats.toJson (s : ExtractionStats) : Value := document [
  ("files_processed", ofNat s.filesProcessed),
  ("files_failed", ofNat s.filesFailed),
  ("semantic_files", ofNat s.semanticFiles),
  ("syntax_tree_files", ofNat s.syntaxTreeFiles),
  ("regex_files", ofNat s.regexFiles),
  ("symbols_extracted", ofNat s.symbolsExtracted)]

/-- The document of a language server. -/
def SymbolServer.toJson (s : SymbolServer) : Value := document <|
  [("name", .string s.name)] ++ optionalEntry "version" (s.version.map .string) ++
    [("languages", texts (s.languages.map Language.tag))]

/-- The document of an engine. -/
def EngineInfo.toJson (e : EngineInfo) : Value := document [
  ("model", .string e.model),
  ("dimension", ofNat e.dimension),
  ("batch_size", ofNat e.batchSize),
  ("normalize", .bool e.normalize)]

/-- The document of a pool. -/
def PoolStats.toJson (p : PoolStats) : Value := document [
  ("max_connections", ofNat p.maxConnections),
  ("in_use", ofNat p.inUse),
  ("idle", ofNat p.idle),
  ("created", ofNat p.created),
  ("reuse", .bool p.reuse)]

/-- The document of a cache. -/
def CacheStats.toJson (c : CacheStats) : Value := document [
  ("entries", ofNat c.entries),
  ("max_entries", ofNat c.maxEntries),
  ("ttl_secs", ofNat c.ttlSecs),
  ("hits", ofNat c.hits),
  ("misses", ofNat c.misses),
  ("evictions", ofNat c.evictions)]

/-- The document of a store. -/
def StoreStats.toJson (s : StoreStats) : Value := document [
  ("backend", .string s.backend),
  ("collection", .string s.collection),
  ("count", ofNat s.count),
  ("index", s.index.toJson),
  ("pool", s.pool.toJson),
  ("cache", ofOption CacheStats.toJson s.cache),
  ("memory_usage_percent", .number (.float s.memoryUsage)),
  ("memory_pressure", .string s.pressure.name)]

/-- The document of the parts of a finder. -/
def ComponentInfo.toJson (c : ComponentInfo) : Value := document <|
  [("extractor", c.extraction.toJson)] ++
    optionalEntry "semantic_source" (c.server.map SymbolServer.toJson) ++
    [("embedding", c.embedding.toJson), ("vector_store", c.store.toJson)]

/-- The document of a symbol as evidence. -/
def EvidenceSymbol.toJson (s : EvidenceSymbol) : Value := document [
  ("name", .string s.name),
  ("kind", .string s.kind.name),
  ("file_path", .string s.filePath),
  ("line_number", ofNat s.lineNumber),
  ("line_count", ofNat s.lineCount),
  ("content", .string s.content)]

/-- The document of evidence. -/
def Evidence.toJson (e : Evidence) : Value := document [
  ("similarity_score", ofSingle e.score),
  ("confidence", ofSingle e.confidence),
  ("comparison_type", .string e.comparison.name),
  ("reason", .string e.reason.name),
  ("symbol_a", e.a.toJson),
  ("symbol_b", e.b.toJson)]

/-- The document of a finding. -/
def Finding.toJson (f : Finding) : Value := document [
  ("id", .string f.id),
  ("title", .string f.title),
  ("description", .string f.description),
  ("severity", .string f.severity.name),
  ("file_path", .string f.filePath),
  ("line_number", ofNat f.lineNumber),
  ("evidence", f.evidence.toJson)]

/-- The document of counts by severity. No pair is less than low, so none is only informative. -/
def SeverityCounts.toJson (c : SeverityCounts) : Value := document [
  ("critical", ofNat c.critical),
  ("high", ofNat c.high),
  ("medium", ofNat c.medium),
  ("low", ofNat c.low),
  ("info", ofNat 0)]

/-- The document of counts of a run. -/
def RunStats.toJson (s : RunStats) : Value := document [
  ("symbols_extracted", ofNat s.symbolsExtracted),
  ("embeddings_generated", ofNat s.embeddingsGenerated),
  ("duplicates_found", ofNat s.duplicatesFound),
  ("execution_time", .number (.float s.seconds))]

/-- The document of the circumstances of a run. -/
def RunContext.toJson (c : RunContext) : Value := document <| [
  ("project_root", .string c.root),
  ("analysis_mode", .string c.mode.name),
  ("component_info", c.components.toJson),
  ("configuration", c.settings.toJson),
  ("stats", c.stats.toJson)] ++
  optionalEntry "changed_files" (c.changedFiles.map texts) ++
  [("timestamp", .string c.timestamp)]

/-- The document of a report. -/
def Report.toJson (r : Report) : Value := document [
  ("findings", .array (r.findings.map Finding.toJson)),
  ("summary", document [
    ("total_duplicates_found", ofNat r.total),
    ("symbols_analyzed", ofNat r.context.stats.symbolsExtracted),
    ("execution_time_seconds", .number (.float r.context.stats.seconds)),
    ("severity_breakdown", r.counts.toJson),
    ("detection_method", .string "embedding_cosine_similarity"),
    ("thresholds", r.context.settings.thresholds.toJson)]),
  ("metadata", r.context.toJson)]

end CodeClones
