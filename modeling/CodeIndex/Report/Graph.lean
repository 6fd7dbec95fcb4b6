import CodeIndex.Graph.Pass
import CodeIndex.Json.Basic
import CodeIndex.Report.SymbolTable

/-!
# Graphs as JSON
-/

namespace CodeIndex.Graph

/-- Metadata as an object of texts. -/
def metadataJson (d : Dict String) : Json :=
  .ofMembers (d.map fun (k, v) => (k, .str v))

def metadataOf (j : Json) : Dict String :=
  .ofList (((j.get? "metadata").bind Json.obj?).getD [] |>.filterMap fun (k, v) => v.str?.map (k, ·))

def textAt? (j : Json) (key : String) : Option String :=
  (j.get? key).bind Json.str?

def textAt (j : Json) (key : String) : String :=
  (textAt? j key).getD ""

namespace Node

def toJson (n : Node) : Json := .ofMembers [
  ("node_id", .str n.id), ("node_type", .str n.kind), ("name", .str n.name), ("file", .str n.file),
  ("line", .ofOption .ofInt n.line), ("end_line", .ofOption .ofInt n.endLine),
  ("lang", .ofOption .str n.language), ("signature", .ofOption .str n.signature),
  ("docstring", .ofOption .str n.docstring), ("parent_id", .ofOption .str n.parent),
  ("embedding_ref", .ofOption .str n.embeddingRef), ("metadata", metadataJson n.metadata)]

/-- A node from an object in which any member may be missing. -/
def ofJson (j : Json) : Node :=
  { id := textAt j "node_id", kind := textAt j "node_type", name := textAt j "name", file := textAt j "file"
    line := (j.get? "line").bind Json.int?, endLine := (j.get? "end_line").bind Json.int?
    language := textAt? j "lang", signature := textAt? j "signature", docstring := textAt? j "docstring"
    parent := textAt? j "parent_id", embeddingRef := textAt? j "embedding_ref", metadata := metadataOf j }

end Node

namespace Edge

def toJson (e : Edge) : Json := .ofMembers [
  ("src", .str e.source), ("dst", .str e.target), ("edge_type", .str e.kind.text),
  ("weight", .ofOption (fun w => .str w.hex) e.weight), ("metadata", metadataJson e.metadata)]

/-- An edge from an object; only the kind can be at fault. -/
def ofJson (number : Json → Option Double) (j : Json) : Except IndexError Edge := do
  let kind ← EdgeKind.ofText (textAt j "edge_type")
  return {
    source := textAt j "src", target := textAt j "dst", kind
    weight := (j.get? "weight").bind number, metadata := metadataOf j }

end Edge

def Stats.toJson (s : Stats) : Json := .ofMembers [
  ("nodes", .ofNat s.nodes), ("edges", .ofNat s.edges), ("files", .ofNat s.files),
  ("nodes_by_type", s.nodesByKind.counts), ("edges_by_type", s.edgesByKind.counts)]

def PassReport.toJson (p : PassReport) : Json := .ofMembers [
  ("files_total", .ofNat p.total), ("files_indexed", .ofNat p.indexed), ("files_skipped", .ofNat p.skipped),
  ("files_deleted", .ofNat p.deleted), ("files_failed", .ofNat p.failed), ("nodes_written", .ofNat p.nodes),
  ("edges_written", .ofNat p.edges), ("edges_unresolved", .ofNat p.unresolved),
  ("nodes_pruned", .ofNat p.pruned), ("errors", .ofList FileError.toJson p.errors)]

end CodeIndex.Graph
