import CodeIndex.Graph.Table
import CodeIndex.Json.Parser
import CodeIndex.Json.Printer
import CodeIndex.SymbolTable.Basic
import CodeIndex.Vectors.Table

/-!
# Tables as text

What is kept of tables between two runs of the program: a row is the list of its columns.
-/

namespace CodeIndex

namespace Json

def storedText : Option String → Json
  | some s => .str s
  | none => .null

def ofStoredText? : Json → Option (Option String)
  | .str s => some (some s)
  | .null => some none
  | _ => none

/-- Pairs of texts. -/
def storedPairs (d : List (String × String)) : Json :=
  .arr (d.map fun (k, v) => .arr [.str k, .str v])

def ofStoredPairs? (j : Json) : Option (List (String × String)) :=
  j.arr?.bind (·.mapM fun
    | .arr [.str k, .str v] => some (k, v)
    | _ => none)

/-- A list, item by item. -/
def listed? (read : Json → Option α) (j : Json) : Option (List α) :=
  j.arr?.bind (·.mapM read)

end Json

/-- A double by its bit pattern. -/
def Double.toStored (x : Double) : Json :=
  .ofNat x.bits.toNat

def Double.ofStored? (j : Json) : Option Double :=
  j.nat?.map fun n => ⟨.ofNat n⟩

/-! ## Symbols -/

def SymbolRow.toStored (s : SymbolRow) : Json := .arr [
  .str s.name, .str s.kind, .str s.file, .ofNat s.line, .str s.language, .storedText s.category,
  .storedText s.docstring, .storedText s.signature, .storedText s.parent, .strings s.modifiers,
  .bool s.isExported, .str s.contentHash]

def SymbolRow.ofStored? : Json → Option SymbolRow
  | .arr [.str name, .str kind, .str file, line, .str language, category, docstring, signature, parent,
      modifiers, .bool isExported, .str contentHash] => do
    return {
      name, kind, file, line := ← line.nat?, language, category := ← category.ofStoredText?
      docstring := ← docstring.ofStoredText?, signature := ← signature.ofStoredText?
      parent := ← parent.ofStoredText?, modifiers := ← modifiers.listed? Json.str?, isExported, contentHash }
  | _ => none

def FileRow.toStored (f : FileRow) : Json := .arr [
  .str f.path, .str f.language, .ofNat f.size, .ofNat f.lines, f.mtime.toStored, .str f.contentHash,
  .ofNat f.symbolCount, .ofNat f.importCount]

/-- The type of a file follows from its path. -/
def FileRow.ofStored? : Json → Option FileRow
  | .arr [.str path, .str language, size, lines, mtime, .str contentHash, symbolCount, importCount] => do
    return {
      path, language, size := ← size.nat?, lines := ← lines.nat?, mtime := ← Double.ofStored? mtime, contentHash
      symbolCount := ← symbolCount.nat?, importCount := ← importCount.nat?, type := .ofPath path }
  | _ => none

def PatternRow.toStored (p : PatternRow) : Json := .arr [
  .str p.name, .str p.type, .storedText p.file, .storedText p.symbol, .ofOption .ofNat p.line,
  .str p.description]

def PatternRow.ofStored? : Json → Option PatternRow
  | .arr [.str name, .str type, file, symbol, line, .str description] => do
    return {
      name, type, file := ← file.ofStoredText?, symbol := ← symbol.ofStoredText?, line := line.nat?
      description }
  | _ => none

/-- A row behind its number. -/
def storedNumbered (encode : α → Json) (row : Nat × α) : Json :=
  .arr [.ofNat row.1, encode row.2]

def ofStoredNumbered? (read : Json → Option α) : Json → Option (Nat × α)
  | .arr [n, row] => do return (← n.nat?, ← read row)
  | _ => none

def ImportRow.toStored (i : ImportRow) : Json :=
  .arr [.str i.file, .str i.name]

def ImportRow.ofStored? : Json → Option ImportRow
  | .arr [.str file, .str name] => some ⟨file, name⟩
  | _ => none

def SymbolTable.toStored (t : SymbolTable) : Json := .arr [
  .ofList FileRow.toStored t.files, .ofList (storedNumbered SymbolRow.toStored) t.symbols,
  .ofList (storedNumbered ImportRow.toStored) t.imports, .ofList PatternRow.toStored t.patterns,
  .bool t.wasIndexed, .ofNat t.nextSymbol, .ofNat t.nextImport]

def SymbolTable.ofStored? : Json → Option SymbolTable
  | .arr [files, symbols, imports, patterns, .bool wasIndexed, nextSymbol, nextImport] => do
    return {
      files := ← files.listed? FileRow.ofStored?
      symbols := ← symbols.listed? (ofStoredNumbered? SymbolRow.ofStored?)
      imports := ← imports.listed? (ofStoredNumbered? ImportRow.ofStored?)
      patterns := ← patterns.listed? PatternRow.ofStored?
      wasIndexed, nextSymbol := ← nextSymbol.nat?, nextImport := ← nextImport.nat? }
  | _ => none

/-! ## Graphs -/

namespace Graph

def Node.toStored (n : Node) : Json := .arr [
  .str n.id, .str n.kind, .str n.name, .str n.file, .ofOption .ofInt n.line, .ofOption .ofInt n.endLine,
  .storedText n.language, .storedText n.signature, .storedText n.docstring, .storedText n.parent,
  .storedText n.embeddingRef, .storedPairs n.metadata]

def Node.ofStored? : Json → Option Node
  | .arr [.str id, .str kind, .str name, .str file, line, endLine, language, signature, docstring, parent,
      embeddingRef, metadata] => do
    return {
      id, kind, name, file, line := line.int?, endLine := endLine.int?, language := ← language.ofStoredText?
      signature := ← signature.ofStoredText?, docstring := ← docstring.ofStoredText?
      parent := ← parent.ofStoredText?, embeddingRef := ← embeddingRef.ofStoredText?
      metadata := ← metadata.ofStoredPairs? }
  | _ => none

def Edge.toStored (e : Edge) : Json := .arr [
  .str e.source, .str e.target, .str e.kind.text, .ofOption Double.toStored e.weight, .storedPairs e.metadata]

def Edge.ofStored? : Json → Option Edge
  | .arr [.str source, .str target, .str kind, weight, metadata] => do
    return {
      source, target, kind := ← (EdgeKind.ofText kind).toOption, weight := Double.ofStored? weight
      metadata := ← metadata.ofStoredPairs? }
  | _ => none

def TableGraph.toStored (g : TableGraph) : Json := .arr [
  .ofList Node.toStored g.nodes, .ofList Edge.toStored g.edges,
  .ofList (fun (file, time) => .arr [.str file, Double.toStored time]) g.mtimes]

def TableGraph.ofStored? : Json → Option TableGraph
  | .arr [nodes, edges, mtimes] => do
    return {
      nodes := ← nodes.listed? Node.ofStored?
      edges := ← edges.listed? Edge.ofStored?
      mtimes := ← mtimes.listed? fun
        | .arr [.str file, time] => (Double.ofStored? time).map (file, ·)
        | _ => none }
  | _ => none

end Graph

/-! ## Vectors -/

namespace Vectors

def Row.toStored (r : Row) : Json := .arr [
  .str r.collection, .str r.id, .str r.file, .storedText r.symbol, .str r.metadata,
  .ofList (fun (b : UInt8) => .ofNat b.toNat) r.vector]

def Row.ofStored? : Json → Option Row
  | .arr [.str collection, .str id, .str file, symbol, .str metadata, vector] => do
    return {
      collection, id, file, symbol := ← symbol.ofStoredText?, metadata
      vector := ← vector.listed? fun j => j.nat?.map UInt8.ofNat }
  | _ => none

def TableIndex.toStored (x : TableIndex) : Json :=
  .arr [.str x.metric.text, .strings x.collections, .ofList Row.toStored x.rows]

def TableIndex.ofStored? : Json → Option TableIndex
  | .arr [.str metric, collections, rows] => do
    return {
      metric := ← Metric.ofName? metric, collections := ← collections.listed? Json.str?
      rows := ← rows.listed? Row.ofStored? }
  | _ => none

end Vectors

end CodeIndex
