import CodeIndex.Chunk.Settings
import CodeIndex.Chunk.Window

/-!
# Chunks

A chunk is a text to embed with where it stands. All but the two kinds of summary are cut from the
source as they stand: a draft names the octets, and cutting fills in the text.
-/

namespace CodeIndex

inductive ChunkKind where
  | fileSummary
  | classSummary
  | function
  | classLike
  | method
  | methodHeader
  | methodBody
  | moduleCode
  | importBlock
  | configSection
  | window
  /-- A piece of something that is too long. -/
  | part (whole : ChunkKind)
  deriving DecidableEq, Repr

namespace ChunkKind

def text : ChunkKind → String
  | .fileSummary => "file_summary"
  | .classSummary => "class_summary"
  | .function => "function"
  | .classLike => "class"
  | .method => "method"
  | .methodHeader => "method_header"
  | .methodBody => "method_body"
  | .moduleCode => "module_code"
  | .importBlock => "import_block"
  | .configSection => "config_section"
  | .window => "window"
  | .part whole => whole.text ++ "_part"

/-- Summaries are composed, not cut. -/
def isSummary : ChunkKind → Bool
  | .fileSummary | .importBlock => true
  | _ => false

def ofSymbolKind (kind : String) : ChunkKind :=
  if ["class", "struct", "interface", "trait", "enum", "impl"].contains kind then .classLike
  else if kind = "method" then .method
  else .function

end ChunkKind

structure Chunk where
  id : String
  content : String
  kind : ChunkKind
  path : String
  symbolName : Option String := none
  symbolType : Option String := none
  /-- From 1, inclusive. -/
  lineStart : Nat := 1
  lineEnd : Nat := 1
  parentId : Option String := none
  metadata : Dict String := []
  deriving DecidableEq, Repr

namespace Chunk

def onLines (c : Chunk) (first last : Nat) : Chunk :=
  { c with lineStart := first, lineEnd := max last first }

def note (c : Chunk) (key value : String) : Chunk :=
  { c with metadata := c.metadata.put key value }

def noteNat (c : Chunk) (key : String) (value : Nat) : Chunk :=
  c.note key (toString value)

def isOversized (c : Chunk) : Bool :=
  c.metadata.lookup "oversized" = some "true"

/-- The flat description that goes with the text into a vector store. -/
def document (c : Chunk) : Dict Json :=
  let own := Dict.ofList <|
    [("chunk_type", Json.str c.kind.text), ("file_path", .str c.path),
      ("line_start", .ofNat c.lineStart), ("line_end", .ofNat c.lineEnd)] ++
    (c.symbolName.map fun n => ("symbol_name", Json.str n)).toList ++
    (c.symbolType.map fun n => ("symbol_type", Json.str n)).toList ++
    (c.parentId.map fun n => ("parent_id", Json.str n)).toList
  c.metadata.foldl (fun d (k, v) => d.putNew k (.str v)) own

def toJson (c : Chunk) : Json := .ofMembers [
  ("id", .str c.id),
  ("content", .str c.content),
  ("chunk_type", .str c.kind.text),
  ("file_path", .str c.path),
  ("symbol_name", .ofOption .str c.symbolName),
  ("symbol_type", .ofOption .str c.symbolType),
  ("line_start", .ofNat c.lineStart),
  ("line_end", .ofNat c.lineEnd),
  ("parent_id", .ofOption .str c.parentId),
  ("metadata", .obj (c.metadata.map fun (k, v) => (k, .str v))),
  ("oversized", .bool c.isOversized),
  ("summary", .bool c.kind.isSummary)]

end Chunk

/-- A chunk whose text is still to be cut. -/
structure Draft where
  chunk : Chunk
  start : Nat
  stop : Nat
  deriving DecidableEq, Repr

def Draft.map (f : Chunk → Chunk) (d : Draft) : Draft :=
  { d with chunk := f d.chunk }

def Draft.cut (s : Source) (d : Draft) : Except Source.Fault Chunk := do
  return { d.chunk with content := ← s.slice d.start d.stop }

end CodeIndex
