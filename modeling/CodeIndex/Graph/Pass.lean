import CodeIndex.Candidate
import CodeIndex.Graph.File
import CodeIndex.Graph.Store

/-!
# Passes that bring a graph up to date

Files that are gone leave the graph, files that changed are replaced as a whole. Edges into a replaced
file from files that stay are set aside first and find their target by name again at the end. A pass
records its writes in order, so that one which stops early is a run over the front of that record.
-/

namespace CodeIndex.Graph

structure PassReport where
  total : Nat := 0
  indexed : Nat := 0
  skipped : Nat := 0
  deleted : Nat := 0
  failed : Nat := 0
  nodes : Nat := 0
  edges : Nat := 0
  /-- Links whose target is no known symbol. -/
  unresolved : Nat := 0
  /-- Modules and external types that nothing refers to any more. -/
  pruned : Nat := 0
  errors : List FileError := []
  deriving DecidableEq, Repr

/-- An edge that was set aside, and the name of the node it pointed at. -/
structure Detached where
  edge : Edge
  target : String
  deriving DecidableEq, Repr

/-- What names were found to mean, for those that were sought before. -/
abbrev Memo := Dict (Option String)

/-- A pass on its way. -/
structure Pass (σ : Type) where
  store : σ
  writes : List Write := []
  report : PassReport := {}
  detached : List Detached := []
  memo : Memo := []
  asked : List HoverCall := []

variable {σ : Type} [Store σ]

def Pass.write (p : Pass σ) (w : Write) : Pass σ :=
  { p with store := w.apply p.store, writes := p.writes ++ [w] }

/-- Edges into a file from others, with the names they point at. -/
def detach (s : σ) (file : String) : List Detached :=
  let nodes := Store.nodesOf s file
  (Store.incoming s file).filterMap fun e =>
    (nodes.find? (·.id = e.target)).map fun n => ⟨e, n.name⟩

/-- Sets aside the edges into a file and removes it. -/
def Pass.remove (p : Pass σ) (file : String) : Pass σ :=
  ({ p with detached := p.detached ++ detach p.store file } : Pass σ).write (.deleteFile file)

/-- The node of the only symbol of that name. -/
def resolve (s : σ) (name : String) : Option String :=
  match (Store.find s { name := some name }).filter fun n => Text.startsWith n.id "symbol:" with
  | [n] => some n.id
  | _ => none

/-- `resolve`, where a name that was sought before is not sought again. -/
def resolveOnce (s : σ) (memo : Memo) (name : String) : Option String × Memo :=
  match memo.lookup name with
  | some hit => (hit, memo)
  | none =>
    let hit := resolve s name
    (hit, Dict.put name hit memo)

def externalNode (name : String) : Node :=
  { id := externalType ++ ":" ++ name, kind := externalType, name, file := "" }

/-- Whether an edge of this kind may end at a type outside the repository. -/
def EdgeKind.reachesOutside (k : EdgeKind) : Bool :=
  k = .inherits || k = .implements

/-- The end of an edge: the resolved node, else a type outside, else nothing. -/
def endOf (resolved : Option String) (kind : EdgeKind) (name : String) : Option (String × List Node) :=
  match resolved with
  | some id => some (id, [])
  | none => if kind.reachesOutside then some ((externalNode name).id, [externalNode name]) else none

/-- Edges found, nodes they need, and how many found no end. -/
structure Resolved where
  edges : List Edge := []
  externals : List Node := []
  unresolved : Nat := 0
  deriving DecidableEq, Repr

def Resolved.add (r : Resolved) (e : Edge) (found : Option (String × List Node)) : Resolved :=
  match found with
  | some (target, nodes) =>
    { r with edges := r.edges ++ [{ e with target }], externals := r.externals ++ nodes }
  | none => { r with unresolved := r.unresolved + 1 }

/-- The edge of a link, its target left open. -/
def FileGraph.openEdge (f : FileGraph) (l : Link) : Edge :=
  { source := f.sourceOf l, target := "", kind := .ofLink l.kind
    metadata := [("file", l.file), ("line", toString l.line)] }

/-- Adds the edge of a link: its target is sought in the file first, then everywhere. -/
def relate (s : σ) (f : FileGraph) (acc : Resolved × Memo) (l : Link) : Resolved × Memo :=
  let name := bareName l.target
  let (found, memo) := match f.onlyNamed? name with
    | some id => (some id, acc.2)
    | none => resolveOnce s acc.2 name
  (acc.1.add (f.openEdge l) (endOf found (.ofLink l.kind) name), memo)

/-- The links of a file as edges. -/
def relations (s : σ) (f : FileGraph) (memo : Memo) : Resolved × Memo :=
  f.extraction.links.foldl (relate s f) ({}, memo)

/-- Adds an edge that was set aside, its end sought again, unless it started in a replaced file: then it was
found anew with that file. -/
def reattach (s : σ) (replaced : List String) (acc : Resolved × Memo) (d : Detached) : Resolved × Memo :=
  match Store.node? s d.edge.source with
  | none => acc
  | some source =>
    if replaced.contains source.file then acc
    else
      let (found, memo) := resolveOnce s acc.2 d.target
      (acc.1.add d.edge (endOf found d.edge.kind d.target), memo)

/-- The edges that were set aside. -/
def reattached (s : σ) (replaced : List String) (detached : List Detached) (memo : Memo) : Resolved × Memo :=
  detached.foldl (reattach s replaced) ({}, memo)

/-- Writes the nodes and edges that were found. -/
def Pass.writeResolved (p : Pass σ) (found : Resolved × Memo) : Pass σ :=
  let (r, memo) := found
  let p := (p.write (.nodes r.externals)).write (.edges r.edges)
  { p with memo, report := { p.report with
      unresolved := p.report.unresolved + r.unresolved
      nodes := p.report.nodes + r.externals.length
      edges := p.report.edges + r.edges.length } }

/-- Removes a file that is gone. -/
def Pass.vanish (p : Pass σ) (file : String) : Pass σ :=
  let p := p.remove file
  { p with report := { p.report with deleted := p.report.deleted + 1 } }

/-- Replaces the nodes of a file; one whose text cannot be had leaves the graph. -/
def Pass.replace (rd : Reader) (hover : Option HoverSource) (s : Pass σ × List (Candidate × FileGraph)) (c : Candidate) :
    Pass σ × List (Candidate × FileGraph) :=
  let p := s.1.remove c.path
  match c.text with
  | .error e =>
    ({ p with report := { p.report with
        failed := p.report.failed + 1
        errors := p.report.errors ++ [e] } }, s.2)
  | .ok text =>
    let (extraction, asked) := extractWithHover rd.registry rd.grammars hover p.asked c.path c.language text
    let f : FileGraph := { path := c.path, text, extraction }
    let p := (p.write (.nodes f.nodes)).write (.edges f.edges)
    ({ p with
        asked
        report := { p.report with
          nodes := p.report.nodes + f.nodes.length, edges := p.report.edges + f.edges.length } },
      s.2 ++ [(c, f)])

/-- Writes the relations of a file and marks it as indexed. -/
def Pass.relate (p : Pass σ) (entry : Candidate × FileGraph) : Pass σ :=
  let p := p.writeResolved (relations p.store entry.2 p.memo)
  let p := p.write (.mtime entry.1.path entry.1.mtime)
  { p with report := { p.report with indexed := p.report.indexed + 1 } }

/-- A whole pass over the files of a repository, each known by its path. -/
def index (rd : Reader) (hover : Option HoverSource) (force : Bool) (files : Dict Candidate)
    (asked : List HoverCall) (s : σ) : Pass σ :=
  let stale :=
    if force then files.map (·.1)
    else Store.stale s (files.map fun (path, c) => (path, c.mtime))
  let vanished := (Store.indexedFiles s).filter fun path => (files.lookup path).isNone
  let start : Pass σ :=
    { store := s, asked, report := { total := files.length, skipped := files.length - stale.length } }
  let p := vanished.foldl Pass.vanish start
  let (p, found) := (stale.filterMap fun path => files.lookup path).foldl (Pass.replace rd hover) (p, [])
  let p := found.foldl Pass.relate p
  let p := p.writeResolved (reattached p.store (stale ++ vanished) p.detached p.memo)
  let pruned := Store.pruneCount [moduleKind, externalType] p.store
  let p := p.write (.prune [moduleKind, externalType])
  { p with report := { p.report with pruned } }

/-- The files to index by their paths. -/
def filesOf (found : List Candidate) : Dict Candidate :=
  .ofList (found.map fun c => (c.path, c))

end CodeIndex.Graph
