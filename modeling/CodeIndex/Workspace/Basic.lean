import CodeIndex.Chunk.File
import CodeIndex.Embedding.Provider
import CodeIndex.Graph.Pass
import CodeIndex.SymbolTable.Pass
import CodeIndex.Vectors.Memory
import CodeIndex.Workspace.Host

/-!
# Workspaces

A repository with its settings and the place of its tables, and what is done with it as a whole: passes
over its files, and embedding its chunks.
-/

namespace CodeIndex

/-- What commands work with: the variables that are set, parsers, and the network. -/
structure Tools where
  environment : Environment := []
  grammars : Grammars
  send : HttpRequest → Except EmbedError HttpReply

structure Workspace where
  /-- From the root of the files. -/
  root : String
  /-- Where its tables are. -/
  place : String
  settings : Settings

/-- A chunk as a document to embed. -/
def Chunk.toDocument (c : Chunk) : Document :=
  { id := c.id, content := c.content, metadata := c.document }

namespace Workspace

/-- Finds a repository and creates the directory of its tables. -/
def enter (h : Host) (settings : Settings) (path : String) : Except Failure (Host × Workspace) :=
  match h.resolve path with
  | .error refusal => .error ⟨"repository root not found: " ++ path, [refusal.message]⟩
  | .ok root =>
    let directory := settings.dataDirectory (h.wholePath root)
    match h.makeDirectory directory with
    | .error refusal => .error ⟨"failed to create data directory " ++ directory, [refusal.message]⟩
    | .ok (h, place) => .ok (h, { root, place, settings })

def reader (t : Tools) : Reader :=
  ⟨.builtin, t.grammars⟩

def symbols (w : Workspace) (h : Host) : SymbolTable :=
  h.symbols w.place

def graph (w : Workspace) (h : Host) : Graph.TableGraph :=
  (h.tables.graphs.lookup w.place).getD {}

/-- The files of the repository to index. -/
def files (w : Workspace) (h : Host) : List Candidate :=
  candidates .builtin w.settings.ignorePolicy h.disk w.root

/-- A pass over the symbols and then one over the graph. -/
def index (w : Workspace) (t : Tools) (force : Bool) (h : Host) :
    Host × SymbolTable.PassReport × Graph.PassReport :=
  let files := w.files h
  let (symbols, report) := SymbolTable.index (reader t) force files (w.symbols h)
  let pass := Graph.index (reader t) none force (Graph.filesOf files) [] (w.graph h)
  ({ h with tables := { h.tables with
      symbols := h.tables.symbols.put w.place symbols
      graphs := h.tables.graphs.put w.place pass.store } },
    report, pass.report)

/-- The chunks of every text file. A language that only the first line of a file tells is sought from
the working directory. -/
def chunks (w : Workspace) (t : Tools) (h : Host) : Except Source.Fault (List Chunk) :=
  chunkCodebase .builtin t.grammars w.settings.chunking w.settings.ignorePolicy h.disk w.root fun path =>
    (h.read path).toOption.bind firstLine?

/-! ## Embedding -/

section

variable {σ : Type} [Vectors.Index σ]

/-- Removes the documents of files, one after the other. -/
def deleteFiles (p : Provider σ) : List String → Provider σ × Except EmbedError Unit
  | [] => (p, .ok ())
  | file :: rest =>
    match p.deleteFile file with
    | .ok (p, _) => deleteFiles p rest
    | .error e => (p, .error e)

/-- Makes room for chunks: all documents go, or those of the files that have chunks. -/
def makeRoom (p : Provider σ) (force : Bool) (chunks : List Chunk) : Provider σ × Except Failure Unit :=
  if force then
    let (p, r) := p.clear
    (p, (EmbedError.failing r).mapError (.during "failed to clear vector index"))
  else
    let (p, r) := deleteFiles p ((chunks.map (·.path)).mergeSort (· ≤ ·)).eraseDups
    (p, EmbedError.failing r)

/-- Writes every chunk to the index. -/
def embed (p : Provider σ) (force : Bool) (chunks : List Chunk) : Provider σ × Except Failure Nat :=
  match p.prepare with
  | (p, .error e) => (p, .error (.during "failed to initialize embedding provider" (.ofEmbedError e)))
  | (p, .ok _) =>
    match makeRoom p force chunks with
    | (p, .error f) => (p, .error f)
    | (p, .ok ()) =>
      let (p, r) := p.indexDocuments (chunks.map Chunk.toDocument)
      (p, (EmbedError.failing r).mapError (.during "failed to index chunks"))

end

/-- Where the vectors are: beside the other tables, or in a directory of the settings. -/
def vectorPlace (w : Workspace) (h : Host) : Except EmbedError (Host × String) :=
  match w.settings.embedding.persistDirectory with
  | none => .ok (h, w.place)
  | some directory =>
    (h.makeDirectory (Path.join (h.wholePath h.directory) directory)).mapError fun refusal =>
      .other s!"cannot create {directory}: {refusal.message}"

/-- Runs over the index that the settings ask for. A table of vectors keeps what is left in it. -/
def withProvider (w : Workspace) (t : Tools) (h : Host)
    (use : {σ : Type} → [Vectors.Index σ] → Provider σ → Provider σ × Except Failure α) :
    Host × Except Failure α :=
  let settings := w.settings.embeddingFor (h.wholePath w.root)
  let prepared : Except EmbedError (Model × VectorBackend × Vectors.Metric) := do
    let spec ← ModelSpec.create settings
    let (backend, metric) ← Backends.defaults.create settings
    return (spec.model t.send, backend, metric)
  let refused (e : EmbedError) : Host × Except Failure α :=
    (h, .error (.during "failed to create embedding provider" (.ofEmbedError e)))
  match prepared with
  | .error e => refused e
  | .ok (model, .memory, metric) =>
    (h, (use (Provider.ofParts settings metric model ({ metric } : Vectors.MemoryIndex))).2)
  | .ok (model, .table, metric) =>
    match w.vectorPlace h with
    | .error e => refused e
    | .ok (h, place) =>
      let kept := (h.tables.vectors.lookup place).getD { metric }
      let (p, r) := use (Provider.ofParts settings metric model { kept with metric })
      let vectors := h.tables.vectors.put place { p.index with isClosed := false }
      ({ h with tables := { h.tables with vectors } }, r)
  | .ok (_, .remote, _) => refused (.index ⟨.connection, "the service does not answer"⟩)

end Workspace

end CodeIndex
