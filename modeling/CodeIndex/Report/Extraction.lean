import CodeIndex.Extraction
import CodeIndex.Json.Basic

/-!
# Extractions as JSON
-/

namespace CodeIndex

def Symbol.toJson (s : Symbol) : Json := .ofMembers [
  ("name", .str s.name), ("kind", .str s.kind), ("file", .str s.file),
  ("start_line", .ofNat s.startLine), ("end_line", .ofNat s.endLine),
  ("parent", .ofOption .str s.parent)]

def Link.toJson (l : Link) : Json := .ofMembers [
  ("source", .str l.source), ("target", .str l.target), ("edge_type", .str l.kind.text),
  ("file", .str l.file), ("line", .ofNat l.line)]

/-- A link as one line of text. -/
def Link.sentence (l : Link) : String :=
  s!"{l.source} {l.kind.text} {l.target} at {l.file}:{l.line}"

def Reference.toJson (r : Reference) : Json := .ofMembers [
  ("name", .str r.name), ("file", .str r.file), ("line", .ofNat r.line), ("column", .ofNat r.column),
  ("enclosing_scope", .ofOption .str r.scope)]

def Import.toJson (i : Import) : Json := .ofMembers [
  ("name", .str i.name), ("line", .ofNat i.line)]

def Extraction.toJson (e : Extraction) : Json := .ofMembers [
  ("symbols", .ofList Symbol.toJson e.symbols),
  ("edges", .ofList Link.toJson e.links),
  ("references", .ofList Reference.toJson e.references),
  ("imports", .ofList Import.toJson e.imports),
  ("syntax_error", .ofOption .ofNat e.syntaxError),
  ("qualified", .strings (e.symbols.map Symbol.qualifiedName))]

end CodeIndex
