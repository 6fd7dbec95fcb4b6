import CodeIndex.Json.Basic
import CodeIndex.Numeric.Double
import CodeIndex.SymbolTable.Pass
import CodeIndex.SymbolTable.Query

/-!
# The symbol table as JSON
-/

namespace CodeIndex

def Dict.counts (d : Dict Nat) : Json :=
  .ofMembers (d.map fun (k, n) => (k, .ofNat n))

def FileError.toJson (e : FileError) : Json := .ofMembers [
  ("path", .str e.path), ("kind", .str e.kind.text), ("message", .str e.message)]

def SymbolRow.toJson (s : SymbolRow) : Json := .ofMembers [
  ("name", .str s.name), ("symbol_type", .str s.kind), ("file_path", .str s.file),
  ("line_number", .ofNat s.line), ("language", .str s.language), ("category", .ofOption .str s.category),
  ("docstring", .ofOption .str s.docstring), ("signature", .ofOption .str s.signature),
  ("parent_symbol", .ofOption .str s.parent), ("modifiers", .strings s.modifiers),
  ("is_exported", .bool s.isExported), ("content_hash", .str s.contentHash)]

def PatternRow.toJson (p : PatternRow) : Json := .ofMembers [
  ("pattern_name", .str p.name), ("pattern_type", .str p.type), ("file_path", .ofOption .str p.file),
  ("symbol_name", .ofOption .str p.symbol), ("line_number", .ofOption .ofNat p.line),
  ("description", .str p.description)]

def FileRow.toJson (f : FileRow) : Json := .ofMembers [
  ("path", .str f.path), ("language", .str f.language), ("file_type", .str f.type.text),
  ("size", .ofNat f.size), ("lines", .ofNat f.lines), ("symbol_count", .ofNat f.symbolCount),
  ("import_count", .ofNat f.importCount), ("content_hash", .str f.contentHash),
  ("last_modified", .str f.mtime.hex), ("indexed", .bool true)]

namespace SymbolTable

def Stats.toJson (s : Stats) : Json := .ofMembers [
  ("total_files", .ofNat s.files), ("total_symbols", .ofNat s.symbols), ("total_imports", .ofNat s.imports),
  ("total_patterns", .ofNat s.patterns), ("source_files", .ofNat s.sourceFiles),
  ("config_files", .ofNat s.configFiles), ("by_language", s.byLanguage.counts), ("by_type", s.byKind.counts),
  ("by_category", s.byCategory.counts), ("last_indexed", .bool s.wasIndexed)]

def PassReport.toJson (p : PassReport) : Json := .ofMembers [
  ("total_files", .ofNat p.total), ("files_indexed", .ofNat p.indexed), ("files_skipped", .ofNat p.skipped),
  ("files_deleted", .ofNat p.deleted), ("files_with_errors", .ofNat p.degraded),
  ("files_failed", .ofNat p.failed), ("symbols_found", .ofNat p.symbols),
  ("patterns_detected", .ofNat p.patterns), ("languages", p.languages.counts),
  ("errors", .ofList FileError.toJson p.errors)]

end SymbolTable

end CodeIndex
