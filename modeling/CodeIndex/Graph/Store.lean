import CodeIndex.Graph.Reach
import CodeIndex.Graph.Search

/-!
# Stores of nodes and edges

What every store of a graph offers, and what follows from it.
-/

namespace CodeIndex.Graph

class Store (σ : Type) where
  empty : σ
  /-- Adds a node or replaces the one with its id. -/
  putNode : Node → σ → σ
  /-- Adds an edge or replaces the one with its ends and kind. -/
  putEdge : Edge → σ → σ
  setMtime : String → Double → σ → σ
  /-- Removes the nodes of a file, every edge that touches them, and the file's time. -/
  deleteFile : String → σ → σ
  /-- How many nodes `deleteFile` removes. -/
  deleteCount : String → σ → Nat
  /-- Removes the nodes of the given kinds that no edge touches. -/
  prune : List String → σ → σ
  /-- How many nodes `prune` removes. -/
  pruneCount : List String → σ → Nat
  node? : σ → String → Option Node
  /-- The nodes that agree with a question, by file, line and name. -/
  find : σ → NodeQuery → List Node
  /-- The nodes that a search for a lower-case text looks at. -/
  searchable : σ → String → List Node
  /-- Why a search for a lower-case text is refused. -/
  searchFault : σ → String → Option IndexError
  /-- Why a time is refused. -/
  mtimeFault : σ → Double → Option IndexError
  /-- The edges that leave a node, by target and kind. -/
  outgoing : σ → String → List Edge
  /-- Edges that end at a node of a file and start outside it. -/
  incoming : σ → String → List Edge
  allEdges : σ → List Edge
  mtime? : σ → String → Option Double
  /-- The files with a time, sorted. -/
  indexedFiles : σ → List String
  stats : σ → Stats

namespace Store

variable {σ : Type} [Store σ]

/-- Edges of the allowed kinds within a number of steps. -/
def neighbors (s : σ) (id : String) (kinds : Option (List EdgeKind)) (depth : Nat) : List Edge :=
  within (fun src => (outgoing s src).filter fun e => kinds.all (·.contains e.kind)) id depth

def search (s : σ) (query : String) (limit : Nat) (kinds : Option (List String)) : Except IndexError (List Node) :=
  let needle := Text.lower query
  match searchFault s needle with
  | some e => .error e
  | none => .ok (ranked needle kinds limit (searchable s needle))

def nodesOf (s : σ) (file : String) : List Node :=
  find s { file := some file }

/-- The files that have no time yet or a newer one, sorted. -/
def stale (s : σ) (times : List (String × Double)) : List String :=
  ((times.filter fun (file, mtime) => (mtime? s file).all (·.lt mtime)).map (·.1)).mergeSort (· ≤ ·)

def recordMtime (s : σ) (file : String) (mtime : Double) : Except IndexError σ :=
  match mtimeFault s mtime with
  | some e => .error e
  | none => .ok (setMtime file mtime s)

end Store

/-- Where a graph is kept. -/
inductive Backend where
  | memory
  | table
  deriving DecidableEq, Repr

/-- The backend of a name in the settings. -/
def Backend.ofName : String → Except IndexError Backend
  | "memory" => .ok .memory
  | "sqlite" => .ok .table
  | other => .error (.other s!"unknown graph store '{other}'. Available: memory, sqlite")

/-- One change of a store. -/
inductive Write where
  | nodes (ns : List Node)
  | edges (es : List Edge)
  | mtime (file : String) (time : Double)
  | deleteFile (file : String)
  | prune (kinds : List String)
  deriving DecidableEq, Repr

def Write.apply [Store σ] (s : σ) : Write → σ
  | .nodes ns => ns.foldl (fun s n => Store.putNode n s) s
  | .edges es => es.foldl (fun s e => Store.putEdge e s) s
  | .mtime file time => Store.setMtime file time s
  | .deleteFile file => Store.deleteFile file s
  | .prune kinds => Store.prune kinds s

/-- What is asked of a store that is to change. -/
inductive Request where
  | write (w : Write)
  | clear
  deriving DecidableEq, Repr

/-- Carries out a request, or refuses it and leaves the store as it is. Where nodes are removed, the answer is
their number. -/
def Request.run [Store σ] (s : σ) : Request → σ × Except IndexError (Option Nat)
  | .write (.mtime file time) =>
    match Store.recordMtime s file time with
    | .ok s => (s, .ok none)
    | .error e => (s, .error e)
  | .write (.deleteFile file) => (Store.deleteFile file s, .ok (some (Store.deleteCount file s)))
  | .write (.prune kinds) => (Store.prune kinds s, .ok (some (Store.pruneCount kinds s)))
  | .write w => (w.apply s, .ok none)
  | .clear => (Store.empty, .ok none)

/-- Requests one after another, with their answers. -/
def Request.runAll [Store σ] (s : σ) : List Request → σ × List (Except IndexError (Option Nat))
  | [] => (s, [])
  | r :: rest =>
    let (s, answer) := r.run s
    let (s, answers) := runAll s rest
    (s, answer :: answers)

end CodeIndex.Graph
