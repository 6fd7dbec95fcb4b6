import CodeIndex.Graph.Store

/-!
# Graphs in memory

Nodes and times by their keys, edges in the order of their ends and kinds.
-/

namespace CodeIndex.Graph

structure MemoryGraph where
  nodes : Dict Node := []
  edges : List Edge := []
  mtimes : Dict Double := []
  deriving DecidableEq, Repr, Inhabited

namespace MemoryGraph

/-- Sets an edge in a sorted list. -/
def insertEdge (e : Edge) : List Edge → List Edge
  | [] => [e]
  | f :: rest =>
    if e.sameKey f then e :: rest
    else if e.le f then e :: f :: rest
    else f :: insertEdge e rest

def hasFile (g : MemoryGraph) (file id : String) : Bool :=
  (g.nodes.lookup id).any (·.file = file)

def touches (g : MemoryGraph) (id : String) : Bool :=
  g.edges.any fun e => e.source = id || e.target = id

instance : Store MemoryGraph where
  empty := {}
  putNode n g := { g with nodes := Dict.put n.id n g.nodes }
  putEdge e g := { g with edges := insertEdge e g.edges }
  setMtime file time g := { g with mtimes := Dict.put file time g.mtimes }
  deleteFile file g :=
    { nodes := g.nodes.filter (·.2.file != file)
      edges := g.edges.filter fun e => !g.hasFile file e.source && !g.hasFile file e.target
      mtimes := g.mtimes.filter (·.1 != file) }
  deleteCount file g := (g.nodes.filter (·.2.file = file)).length
  prune kinds g :=
    { g with nodes := g.nodes.filter fun (id, n) => !kinds.contains n.kind || g.touches id }
  pruneCount kinds g := (g.nodes.filter fun (id, n) => kinds.contains n.kind && !g.touches id).length
  node? g id := g.nodes.lookup id
  find g q := ((g.nodes.map (·.2)).filter q.holds).mergeSort Node.le
  searchable g _ := g.nodes.map (·.2)
  searchFault _ _ := none
  mtimeFault _ _ := none
  outgoing g id := g.edges.filter (·.source = id)
  incoming g file := g.edges.filter fun e => g.hasFile file e.target && !g.hasFile file e.source
  allEdges g := g.edges
  mtime? g file := g.mtimes.lookup file
  indexedFiles g := g.mtimes.map (·.1)
  stats g := Stats.of (g.nodes.map (·.2)) g.edges g.mtimes.length

end MemoryGraph

end CodeIndex.Graph
