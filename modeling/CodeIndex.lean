import CodeIndex.Text.Letters
import CodeIndex.Text.Words
import CodeIndex.Text.Casing
import CodeIndex.Text.Blank
import CodeIndex.Text.Lines
import CodeIndex.Text.Find
import CodeIndex.Text.Utf8
import CodeIndex.Numeric.Single
import CodeIndex.Numeric.Shortest
import CodeIndex.Json.Printer
import CodeIndex.Json.Parser
import CodeIndex.Path
import CodeIndex.Tree.Pattern
import CodeIndex.Language.Registry
import CodeIndex.Extraction
import CodeIndex.Ignore.Policy
import CodeIndex.Tree.Listing
import CodeIndex.Report.Language
import CodeIndex.Report.Extraction
import CodeIndex.Chunk.File
import CodeIndex.Digest.Blake3
import CodeIndex.Digest.Sha1
import CodeIndex.LineReading
import CodeIndex.PassLock
import CodeIndex.SymbolTable.Category
import CodeIndex.Report.SymbolTable
import CodeIndex.Report.Enrichment
import CodeIndex.Graph.Memory
import CodeIndex.Graph.Table
import CodeIndex.Report.Graph
import CodeIndex.Report.Embedding
import CodeIndex.Vectors.Memory
import CodeIndex.Vectors.Table
import CodeIndex.Vectors.Service
import CodeIndex.Vectors.Remote
import CodeIndex.Report.Remote
import CodeIndex.Numeric.Decimal
import CodeIndex.Toml.Scalar
import CodeIndex.Toml.Quoted
import CodeIndex.Toml.Document
import CodeIndex.Toml.Parser
import CodeIndex.Settings
import CodeIndex.Failure
import CodeIndex.Workspace.Host
import CodeIndex.Workspace.Basic
import CodeIndex.Workspace.Snippet
import CodeIndex.Command.Form
import CodeIndex.Command.Basic
import CodeIndex.Command.Help
import CodeIndex.Program
import CodeIndex.Json.Pretty
import CodeIndex.Json.Reader
import CodeIndex.Workspace.Stored
import CodeIndex.Main
import CodeIndex.Proofs.Chunk.Coverage
import CodeIndex.Proofs.Chunk.Budget
import CodeIndex.Proofs.SymbolTable.Incremental
import CodeIndex.Proofs.Graph.Incremental
import CodeIndex.Proofs.Graph.Agreement
import CodeIndex.Proofs.Vectors.Agreement
import CodeIndex.Proofs.Embedding.Interchange
import CodeIndex.Proofs.Chunk.Identity
import CodeIndex.Proofs.Graph.Hierarchy
import CodeIndex.Proofs.SymbolTable.Frame
import CodeIndex.Proofs.Graph.Integrity
import CodeIndex.Proofs.SymbolTable.Repetition
import CodeIndex.Proofs.Graph.Repetition
import CodeIndex.Proofs.Embedding.Batches
import CodeIndex.Proofs.Chunk.Origin
import CodeIndex.Proofs.Embedding.Convergence
import CodeIndex.Proofs.Language.Registry
import CodeIndex.Proofs.Language.Detection
import CodeIndex.Proofs.Graph.Escaping
import CodeIndex.Proofs.Graph.Search
import CodeIndex.Proofs.Embedding.Documents
import CodeIndex.Proofs.Embedding.Filtering
import CodeIndex.Proofs.Chunk.Sliding
import CodeIndex.Proofs.Chunk.Ownership
import CodeIndex.Proofs.SymbolTable.Interruption
import CodeIndex.Proofs.Graph.Resumption
import CodeIndex.Proofs.Graph.Reach
import CodeIndex.Proofs.Extraction.Callers
import CodeIndex.Proofs.Graph.Containment
import CodeIndex.Proofs.Chunk.Naming
import CodeIndex.Proofs.Extraction.Symbols
import CodeIndex.Proofs.Workspace.Snippet
import CodeIndex.Proofs.Tree.Places
import CodeIndex.Proofs.Enrichment.Signature
import CodeIndex.Proofs.Enrichment.Conversation
import CodeIndex.Proofs.SymbolTable.Merging
import CodeIndex.Proofs.Extraction.WellFormed
import CodeIndex.Proofs.LineReading.Nesting
import CodeIndex.Proofs.Vectors.Ranking
import CodeIndex.Proofs.Chunk.Plan
import CodeIndex.Proofs.Chunk.Overhang
import CodeIndex.Proofs.Chunk.Overflow
import CodeIndex.Proofs.Tree.FirstError
import CodeIndex.Proofs.Source.LineTable
