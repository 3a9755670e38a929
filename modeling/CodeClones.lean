import CodeClones.Config.Basic
import CodeClones.Config.Choice
import CodeClones.Config.Document
import CodeClones.Config.Thresholds
import CodeClones.Config.Workspace
import CodeClones.Decimal.Binary
import CodeClones.Decimal.Nearest
import CodeClones.Decimal.Notation
import CodeClones.Decimal.Shortest
import CodeClones.Digest.Blake3
import CodeClones.Digest.Fnv
import CodeClones.Digest.Hex
import CodeClones.Digest.Sha256
import CodeClones.Duplicate.Basic
import CodeClones.Embedding.Engine
import CodeClones.Embedding.Model
import CodeClones.Embedding.ModelFiles
import CodeClones.Embedding.Vector
import CodeClones.Extraction.Basic
import CodeClones.FilePath
import CodeClones.Finder.Basic
import CodeClones.Finder.Error
import CodeClones.Finder.Pairs
import CodeClones.Finder.Progress
import CodeClones.Finder.Run
import CodeClones.Glob.Basic
import CodeClones.Glob.Reader
import CodeClones.Json.Reader
import CodeClones.Json.Value
import CodeClones.Json.Writer
import CodeClones.Language
import CodeClones.Outline.Grammars
import CodeClones.Outline.LinePatterns
import CodeClones.Outline.Lines
import CodeClones.Outline.Python
import CodeClones.Outline.Rust
import CodeClones.Outline.TypeScript
import CodeClones.Outline.Walk
import CodeClones.Report.Basic
import CodeClones.Report.Document
import CodeClones.SortedMap
import CodeClones.Store.Backend
import CodeClones.Store.Basic
import CodeClones.Store.Batch
import CodeClones.Store.Cache
import CodeClones.Store.CacheKey
import CodeClones.Store.Pool
import CodeClones.Store.Pressure
import CodeClones.Store.Ranking
import CodeClones.Store.VectorStore
import CodeClones.Symbol.Basic
import CodeClones.Symbol.Canonical
import CodeClones.Symbol.Filter
import CodeClones.Symbol.Kind
import CodeClones.Symbol.Metadata
import CodeClones.Symbol.Reported
import CodeClones.Symbol.Signature
import CodeClones.Syntax.Lexeme
import CodeClones.Syntax.Parsers
import CodeClones.Syntax.Python.Grammar
import CodeClones.Syntax.Python.Layout
import CodeClones.Syntax.Python.Literal
import CodeClones.Syntax.Rule
import CodeClones.Syntax.Rust.Grammar
import CodeClones.Syntax.Rust.Literal
import CodeClones.Syntax.Tree
import CodeClones.Syntax.TypeScript.Expressions
import CodeClones.Syntax.TypeScript.Grammar
import CodeClones.Syntax.TypeScript.Lexicon
import CodeClones.Syntax.TypeScript.Sorts
import CodeClones.Syntax.TypeScript.Types
import CodeClones.Text.Basic
import CodeClones.Text.Classes
import CodeClones.Text.Pattern
import CodeClones.Toml.Reader
import CodeClones.Toml.Value
import CodeClones.Toml.Writer
import CodeClones.Word
import CodeClones.Workspace.Discovery
import CodeClones.Workspace.Disk
import CodeClones.Workspace.FileState
import CodeClones.Workspace.Tree
import CodeClones.CommandLine.Arguments
import CodeClones.CommandLine.Program
import CodeClones.Proofs.Checksums
import CodeClones.Proofs.Config.Loading
import CodeClones.Proofs.ExtractionCounts
import CodeClones.Proofs.Finder.Coverage
import CodeClones.Proofs.Finder.Cutoff
import CodeClones.Proofs.Finder.Identifiers
import CodeClones.Proofs.Finder.Incremental
import CodeClones.Proofs.Finder.Independence
import CodeClones.Proofs.Finder.Listing
import CodeClones.Proofs.Finder.Order
import CodeClones.Proofs.Finder.Orphans
import CodeClones.Proofs.Finder.Progress
import CodeClones.Proofs.Finder.Races
import CodeClones.Proofs.Finder.Rejection
import CodeClones.Proofs.Finder.Restarts
import CodeClones.Proofs.Finder.Retry
import CodeClones.Proofs.Finder.Search
import CodeClones.Proofs.Finder.Stages
import CodeClones.Proofs.Finder.Unchanged
import CodeClones.Proofs.Metadata
import CodeClones.Proofs.Outline.Blocks
import CodeClones.Proofs.Outline.Declarations
import CodeClones.Proofs.Outline.Enclosure
import CodeClones.Proofs.Outline.Repeats
import CodeClones.Proofs.Outline.Scopes
import CodeClones.Proofs.Report
import CodeClones.Proofs.Reported
import CodeClones.Proofs.Signature
import CodeClones.Proofs.Store.CacheHistory
import CodeClones.Proofs.Store.CacheKey
import CodeClones.Proofs.Store.Overlap
import CodeClones.Proofs.Store.Checkouts
import CodeClones.Proofs.Store.Collections
import CodeClones.Proofs.Store.OneByOne
import CodeClones.Proofs.Store.Parts
import CodeClones.Proofs.Store.Pressure
import CodeClones.Proofs.Store.Returns
import CodeClones.Proofs.Store.Searchable
import CodeClones.Proofs.Store.TopMatches
import CodeClones.Proofs.StoredPath
import CodeClones.Proofs.Slices
import CodeClones.Proofs.Support
import CodeClones.Proofs.Workspace.Covered
import CodeClones.Proofs.Workspace.Settling
