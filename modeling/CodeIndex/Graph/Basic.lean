import CodeIndex.Dict
import CodeIndex.Error
import CodeIndex.Numeric.Double

/-!
# Nodes and edges

A node stands for a file, a symbol, or a module or type that lies outside. It keeps a range of lines and
no body. An edge is known by its two ends and its kind.
-/

namespace CodeIndex.Graph

inductive EdgeKind where
  | calls
  | inherits
  | implements
  | composition
  | contains
  | imports
  deriving DecidableEq, Repr, Inhabited

namespace EdgeKind

def all : List EdgeKind :=
  [.calls, .inherits, .implements, .composition, .contains, .imports]

def text : EdgeKind → String
  | .calls => "CALLS"
  | .inherits => "INHERITS"
  | .implements => "IMPLEMENTS"
  | .composition => "COMPOSITION"
  | .contains => "CONTAINS"
  | .imports => "IMPORTS"

/-- The place of a kind among all kinds. -/
def rank : EdgeKind → Nat
  | .calls => 0
  | .inherits => 1
  | .implements => 2
  | .composition => 3
  | .contains => 4
  | .imports => 5

/-- The kind that a text names in either case of letters. -/
def ofText (s : String) : Except IndexError EdgeKind :=
  match all.find? fun k => k.text = s.map Char.toUpper with
  | some k => .ok k
  | none => .error (.other s!"unknown edge type '{s}'")

end EdgeKind

structure Node where
  id : String
  kind : String
  name : String
  file : String
  line : Option Int := none
  endLine : Option Int := none
  language : Option String := none
  signature : Option String := none
  docstring : Option String := none
  parent : Option String := none
  /-- The document in a vector index that belongs to the node. -/
  embeddingRef : Option String := none
  metadata : Dict String := []
  deriving DecidableEq, Repr, Inhabited

structure Edge where
  source : String
  target : String
  kind : EdgeKind
  weight : Option Double := none
  metadata : Dict String := []
  deriving DecidableEq, Repr, Inhabited

def symbolId (file qualifiedName : String) : String :=
  "symbol:" ++ file ++ ":" ++ qualifiedName

def fileId (file : String) : String :=
  "file:" ++ file

/-- No line comes before every line. -/
def leLine : Option Int → Option Int → Bool
  | none, _ => true
  | some _, none => false
  | some a, some b => a ≤ b

/-- By file, line and name. -/
def Node.le (a b : Node) : Bool :=
  a.file < b.file ||
    (a.file = b.file && if a.line = b.line then a.name ≤ b.name else leLine a.line b.line)

/-- Whether two edges have the same ends and kind. -/
def Edge.sameKey (a b : Edge) : Bool :=
  a.source = b.source && a.target = b.target && a.kind = b.kind

/-- By source, target and the place of the kind. -/
def Edge.le (a b : Edge) : Bool :=
  if a.source = b.source then
    if a.target = b.target then a.kind.rank ≤ b.kind.rank else a.target ≤ b.target
  else a.source ≤ b.source

/-- By source, target and the name of the kind. -/
def Edge.leByName (a b : Edge) : Bool :=
  if a.source = b.source then
    if a.target = b.target then a.kind.text ≤ b.kind.text else a.target ≤ b.target
  else a.source ≤ b.source

/-- What a node has to agree with; an open part agrees with anything. -/
structure NodeQuery where
  name : Option String := none
  kind : Option String := none
  file : Option String := none
  deriving DecidableEq, Repr

def NodeQuery.holds (q : NodeQuery) (n : Node) : Bool :=
  q.name.all (· = n.name) && q.kind.all (· = n.kind) && q.file.all (· = n.file)

structure Stats where
  nodes : Nat
  edges : Nat
  files : Nat
  nodesByKind : Dict Nat
  edgesByKind : Dict Nat
  deriving DecidableEq, Repr

/-- Counts of nodes, edges and files. -/
def Stats.of (nodes : List Node) (edges : List Edge) (files : Nat) : Stats :=
  { nodes := nodes.length, edges := edges.length, files
    nodesByKind := .tally (nodes.map (·.kind)), edgesByKind := .tally (edges.map (·.kind.text)) }

end CodeIndex.Graph
