import CodeIndex.Enrichment.Basic
import CodeIndex.Report.Extraction
import CodeIndex.Report.Language

/-!
# Enriched symbols as JSON
-/

namespace CodeIndex

def HoverInfo.toJson (h : HoverInfo) : Json := .ofMembers [
  ("signature", .ofOption .str h.signature), ("return_type", .ofOption .str h.returnType),
  ("docstring", .ofOption .str h.docstring)]

def HoverCall.toJson : HoverCall → Json
  | .openDocument path size => .arr [.str "open", .str path, .ofNat size]
  | .hover path line column => .arr [.str "hover", .str path, .ofNat line, .ofNat column]
  | .closeDocument path => .arr [.str "close", .str path]

def EnrichedSymbol.toJson (s : EnrichedSymbol) : Json := .ofMembers [
  ("name", .str s.symbol.name), ("symbol_type", .str s.symbol.kind), ("file_path", .str s.symbol.file),
  ("line_number", .ofNat s.symbol.startLine), ("end_line", .ofNat s.symbol.endLine),
  ("signature", .ofOption .str s.signature), ("return_type", .ofOption .str s.returnType),
  ("docstring", .ofOption .str s.docstring), ("parameters", .strings s.parameters),
  ("decorators", .strings s.decorators), ("is_async", .bool s.isAsync),
  ("parent_symbol", .ofOption .str s.symbol.parent), ("visibility", .ofOption .str s.visibility),
  ("source_tier", .str s.tier.label)]

/-- The members of an answer that are about symbols. -/
def EnrichedSymbol.members (symbols : List EnrichedSymbol) : List (String × Json) := [
  ("symbols", .ofList toJson symbols), ("qualified", .strings (symbols.map (·.symbol.qualifiedName)))]

def FileExtraction.members (e : FileExtraction) : List (String × Json) :=
  EnrichedSymbol.members e.symbols ++ [
    ("language", .str e.language), ("tier", e.support.toJson), ("edges", .ofNat e.links.length),
    ("imports", .ofList Import.toJson e.imports), ("syntax_error", .ofOption .ofNat e.syntaxError)]

end CodeIndex
