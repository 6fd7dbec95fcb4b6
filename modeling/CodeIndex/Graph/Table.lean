import CodeIndex.Graph.Store
import CodeIndex.Text.Find
import CodeIndex.Text.Like

/-!
# Graphs in tables

Rows in the order in which they were added; a row that is replaced keeps its place. A search first takes
the rows whose texts match a wildcard pattern, which knows the case of ASCII letters only.
-/

namespace CodeIndex.Graph

structure TableGraph where
  nodes : List Node := []
  edges : List Edge := []
  mtimes : List (String × Double) := []
  deriving DecidableEq, Repr, Inhabited

namespace TableGraph

/-- Replaces the row of the same key, or adds a row at the end. -/
def upsert (sameKey : α → α → Bool) (row : α) (rows : List α) : List α :=
  if rows.any (sameKey row) then rows.map fun r => if sameKey row r then row else r else rows ++ [row]

/-- What a column of numbers keeps: a NaN becomes no value, and a zero loses its sign. -/
def stored (x : Double) : Option Double :=
  if x.isNaN then none else if x.key = 0 then some .zero else some x

/-- A character gets an escape character before it wherever it stands. -/
def escapeEach (special : Char) (text : List Char) : List Char :=
  Text.replaceWith special ['\\', special] text

/-- A text with its special characters escaped: first the escape character itself, then the two wildcards. -/
def escaped (needle : List Char) : List Char :=
  escapeEach '_' (escapeEach '%' (escapeEach '\\' needle))

/-- A pattern for texts that hold a needle. -/
def likePattern (needle : List Char) : List Char :=
  '%' :: escaped needle ++ ['%']

def likeNeedle (needle text : String) : Bool :=
  Like.matchesText (some '\\') (String.ofList (likePattern needle.toList)) text

def idsOf (g : TableGraph) (file : String) : List String :=
  (g.nodes.filter (·.file = file)).map (·.id)

/-- The edges into a file from outside, by the names of their kinds. -/
def incoming (g : TableGraph) (file : String) : List Edge :=
  let inside := g.idsOf file
  (g.edges.filter fun e => inside.contains e.target && !inside.contains e.source).mergeSort Edge.leByName

/-- Removes the nodes of one kind that no edge touches. -/
def pruneKind (kind : String) (g : TableGraph) : TableGraph :=
  { g with nodes := g.nodes.filter fun n =>
      !(n.kind = kind && !g.edges.any (·.source = n.id) && !g.edges.any (·.target = n.id)) }

/-- How many rows the removals kind by kind take away. -/
def pruneCount : List String → TableGraph → Nat
  | [], _ => 0
  | kind :: kinds, g =>
    let after := g.pruneKind kind
    (g.nodes.length - after.nodes.length) + pruneCount kinds after

instance : Store TableGraph where
  empty := {}
  putNode n g := { g with nodes := upsert (·.id = ·.id) n g.nodes }
  putEdge e g := { g with edges := upsert Edge.sameKey { e with weight := e.weight.bind stored } g.edges }
  setMtime file time g :=
    { g with mtimes := upsert (·.1 = ·.1) (file, (stored time).getD time) g.mtimes }
  deleteFile file g :=
    let ids := g.idsOf file
    { edges := g.edges.filter fun e => !(ids.contains e.source || ids.contains e.target)
      nodes := g.nodes.filter (·.file != file)
      mtimes := g.mtimes.filter (·.1 != file) }
  deleteCount file g := (g.nodes.filter (·.file = file)).length
  prune kinds g := kinds.foldl (fun g kind => g.pruneKind kind) g
  pruneCount := pruneCount
  node? g id := g.nodes.find? (·.id = id)
  find g q := (g.nodes.filter q.holds).mergeSort Node.le
  searchable g needle := g.nodes.filter fun n =>
    likeNeedle needle n.name || n.signature.any (likeNeedle needle) || n.docstring.any (likeNeedle needle)
  searchFault g needle :=
    let size := ((likePattern needle.toList).map Char.utf8Size).foldr (· + ·) 0
    if !g.nodes.isEmpty && Like.maxPattern < size then some (.database Like.tooComplex) else none
  mtimeFault _ time :=
    if time.isNaN then
      some (.database
        "error returned from database: (code: 1299) NOT NULL constraint failed: graph_file_mtime.mtime")
    else none
  outgoing g id := (g.edges.filter (·.source = id)).mergeSort Edge.le
  incoming g file := g.incoming file
  allEdges g := g.edges.mergeSort Edge.leByName
  mtime? g file := g.mtimes.lookup file
  indexedFiles g := (g.mtimes.map (·.1)).mergeSort (· ≤ ·)
  stats g := Stats.of g.nodes g.edges g.mtimes.length

end TableGraph

end CodeIndex.Graph
