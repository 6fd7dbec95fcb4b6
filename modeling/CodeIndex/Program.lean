import CodeIndex.Command.Help
import CodeIndex.Report.Embedding
import CodeIndex.Report.Graph
import CodeIndex.Report.Language
import CodeIndex.Workspace.Snippet

/-!
# Running commands

A command turns the host into another one and says something: lines of text or one value.
-/

namespace CodeIndex

/-- A line of text. -/
inductive Line where
  | plain (text : String)
  /-- A line that ends in the time which the work took. -/
  | timed (text : String)
  deriving DecidableEq, Repr

/-- The text of a line, given the number of milliseconds. -/
def Line.text (elapsed : String) : Line → String
  | .plain t => t
  | .timed t => t ++ " (" ++ elapsed ++ " ms)"

inductive Output where
  | lines (ls : List Line)
  | value (v : Json)
  deriving Repr

/-- How a run of the program ends. -/
structure Outcome where
  code : Nat := 0
  output : Output := .lines []
  /-- What is said about a failure. -/
  report : String := ""
  deriving Repr

def Outcome.ofFailure (f : Failure) : Outcome :=
  { code := 1, report := f.report }

namespace Program

def version : String := "sextant 0.11.4"

/-! ## Indexing -/

def kindName : FileErrorKind → String
  | .parseError => "ParseError"
  | .encoding => "Encoding"
  | .io => "Io"
  | .database => "Database"

/-- How many faulty files are told. -/
def maxErrors : Nat := 10

def indexLines (s : SymbolTable.PassReport) (g : Graph.PassReport) : List Line :=
  [.timed (s!"symbols: {s.indexed} files indexed, {s.skipped} skipped, {s.deleted} deleted, " ++
      s!"{s.symbols} symbols, {s.patterns} patterns"),
    .timed s!"graph: {g.indexed} files indexed, {g.nodes} nodes, {g.edges} edges, {g.unresolved} unresolved"] ++
  (s.errors.take maxErrors).map (fun e => .plain (s!"  {kindName e.kind} {e.path}: {e.message}")) ++
  if maxErrors < s.errors.length then [.plain s!"  ... and {s.errors.length - maxErrors} more"] else []

def index (t : Tools) (h : Host) (s : Settings) (path : String) (force : Bool) :
    Host × Except Failure Output :=
  match Workspace.enter h s path with
  | .error f => (h, .error f)
  | .ok (h, w) =>
    let (h, symbols, graph) := w.index t (force || s.index.force) h
    (h, .ok (.lines (indexLines symbols graph)))

/-! ## Questions -/

def symbolLine (s : SymbolRow) : Line :=
  let parent := (s.parent.map (· ++ ".")).getD ""
  .plain s!"{s.file}:{s.line}  {s.kind} {parent}{s.name}"

def askSymbols (table : SymbolTable) (limit : Int) : SymbolQuestion → Except Failure Output
  | .stats => .ok (.value table.stats.toJson)
  | .patterns => .ok (.value (.ofList PatternRow.toJson table.detectedPatterns))
  | .name pattern => (IndexError.failing (table.byName pattern limit)).map rows
  | .category name => .ok (rows (table.byCategory name limit))
  | .kind name => .ok (rows (table.byKind name limit))
  | .file path => .ok (rows (table.inFile path))
  | .keyComponents => .ok (rows (table.keyComponents limit))
where
  rows (found : List SymbolRow) : Output := .lines (found.map symbolLine)

/-- None stands for all kinds. -/
def orAll (xs : List α) : Option (List α) :=
  if xs.isEmpty then none else some xs

open CodeIndex.Graph in
def askGraph [Store σ] (g : σ) : GraphQuestion → Except Failure Output
  | .search query limit kinds =>
    (IndexError.failing (Store.search g query limit (orAll kinds))).map fun nodes =>
      .value (.ofList Node.toJson nodes)
  | .neighbors id depth edges => do
    let kinds ← IndexError.failing (edges.mapM EdgeKind.ofText)
    if (Store.node? g id).isNone then .error ⟨s!"no graph node with id '{id}'", []⟩
    else return .value (.ofList Edge.toJson (Store.neighbors g id (orAll kinds) depth))
  | .file path => .ok (.value (.ofList Node.toJson (Store.nodesOf g path)))
  | .stats => .ok (.value (Store.stats g).toJson)

/-! ## Embedding -/

def chunksOf (w : Workspace) (t : Tools) (h : Host) : Except Failure (List Chunk) :=
  (w.chunks t h).mapError fun _ => ⟨"a chunk lies outside its text", []⟩

def embed (t : Tools) (h : Host) (s : Settings) (path : String) (force : Bool) :
    Host × Except Failure Output :=
  match Workspace.enter h s path with
  | .error f => (h, .error f)
  | .ok (h, w) =>
    w.withProvider t h fun p =>
      match chunksOf w t h with
      | .error f => (p, .error f)
      | .ok chunks =>
        match Workspace.embed p force chunks with
        | (p, .error f) => (p, .error f)
        | (p, .ok _) => (p, (EmbedError.failing p.stats).map fun stats => .value stats.toJson)

/-- Embeds the repository if nothing is embedded yet. -/
def embedIfEmpty [Vectors.Index σ] (w : Workspace) (t : Tools) (h : Host) (p : Provider σ) :
    Provider σ × Except Failure Unit :=
  match EmbedError.failing p.stats with
  | .error f => (p, .error f)
  | .ok stats =>
    if stats.documents ≠ 0 then (p, .ok ())
    else match chunksOf w t h with
      | .error f => (p, .error f)
      | .ok chunks =>
        let (p, r) := Workspace.embed p false chunks
        (p, r.map fun _ => ())

/-- A hit with its score as the shortest decimal. -/
def resultValue (r : SearchResult) : Json :=
  r.toJson fun score => .num (.float (Shortest.widened score))

def search (t : Tools) (h : Host) (s : Settings) (query root : String) (limit : Nat) (file : Option String) :
    Host × Except Failure Output :=
  match Workspace.enter h s root with
  | .error f => (h, .error f)
  | .ok (h, w) =>
    let wanted : Dict Json := file.toList.map fun f => ("file_path", .str f)
    w.withProvider t h fun p =>
      match embedIfEmpty w t h p with
      | (p, .error f) => (p, .error f)
      | (p, .ok ()) =>
        let (p, found) := p.search query limit wanted
        (p, (EmbedError.failing found).map fun results =>
          .value (.ofList resultValue (results.map (w.withSnippet h))))

/-! ## Languages -/

def languageLine (r : Registry) (l : Language) : Line :=
  let reader := if l.hasGrammar then "parser" else "regex"
  let server := if (Tier.support l.name).recommendsServer then "lsp" else ""
  .plain (" ".intercalate [
    Command.padEnd 12 l.name, Command.padEnd 6 (r.support l.name).tier.text, Command.padEnd 8 reader, Command.padEnd 4 server,
    " ".intercalate l.extensions])

def languageLines : List Line :=
  let r := Registry.builtin
  (r.listNames.filterMap r.lookup?).map (languageLine r) ++
    [.plain "", .plain s!"{Tier.first.count} tier1, {Tier.second.count} tier2, {Tier.third.count} tier3"]

/-! ## Whole runs -/

/-- Runs a command that the settings allow for. Watching starts with a pass. -/
def perform (t : Tools) (h : Host) (s : Settings) : Command → Host × Except Failure Output
  | .index path force => index t h s path force
  | .symbols root question limit =>
    match Workspace.enter h s root with
    | .error f => (h, .error f)
    | .ok (h, w) => (h, askSymbols (w.symbols h) limit question)
  | .graph root question =>
    match Workspace.enter h s root with
    | .error f => (h, .error f)
    | .ok (h, w) => (h, askGraph (w.graph h) question)
  | .embed path force => embed t h s path force
  | .search query root limit file => search t h s query root limit file
  | .languages => (h, .ok (.lines languageLines))
  | .watch path =>
    let (h, r) := index t h s path false
    (h, r.map fun _ => .lines [])

def stopped : Command.Stop → Outcome
  | .usage => { code := 2 }
  | .version => { output := .lines [.plain version] }
  | .help path => { output := .lines ((Text.lines (Command.helpText path)).map .plain) }

/-- Runs the program. -/
def run (t : Tools) (h : Host) (args : List String) : Host × Outcome :=
  match Command.parse args with
  | .error stop => (h, stopped stop)
  | .ok invocation =>
    match h.settings t.environment invocation.settings with
    | .error f => (h, .ofFailure f)
    | .ok settings =>
      match perform t h settings invocation.command with
      | (h, .ok output) => (h, { output })
      | (h, .error f) => (h, .ofFailure f)

end Program

end CodeIndex
