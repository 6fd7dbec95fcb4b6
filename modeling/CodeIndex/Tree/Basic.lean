import CodeIndex.Source

/-!
# Syntax trees

A node has a kind, the field it fills in its parent, flags, the octets it spans, and its children in
order. A located node carries its ancestors, the parent first.
-/

namespace CodeIndex.Tree

structure Node where
  kind : String
  field : Option String
  isNamed : Bool
  isError : Bool
  isMissing : Bool
  isExtra : Bool
  /-- An error or a missing node lies in the subtree. -/
  hasError : Bool
  start : Nat
  stop : Nat
  children : List Node
  deriving Repr, Inhabited

/-- A syntax error, or a node put in for something that is missing. -/
def Node.isBroken (n : Node) : Bool :=
  n.isError || n.isMissing

/-- The first child that fills the field. -/
def Node.child? (n : Node) (field : String) : Option Node :=
  n.children.find? (·.field = some field)

/-- The text a node spans; empty where the span is no text. -/
def Node.text (s : Source) (n : Node) : String :=
  (s.slice? n.start n.stop).getD ""

/-- The line on which a node starts. -/
def Node.startLine (s : Source) (n : Node) : Nat :=
  s.row n.start + 1

/-- The line on which a node ends. -/
def Node.stopLine (s : Source) (n : Node) : Nat :=
  s.row n.stop + 1

/-- A node with its ancestors, the parent first. -/
structure Located where
  node : Node
  ancestors : List Node
  deriving Inhabited

def Located.children (l : Located) : List Located :=
  l.node.children.map fun c => ⟨c, l.node :: l.ancestors⟩

mutual

/-- Every node of a subtree in pre-order. -/
def preorder (ancestors : List Node) : Node → List Located
  | n@⟨_, _, _, _, _, _, _, _, _, children⟩ => ⟨n, ancestors⟩ :: preorderAll (n :: ancestors) children

def preorderAll (ancestors : List Node) : List Node → List Located
  | [] => []
  | c :: rest => preorder ancestors c ++ preorderAll ancestors rest

end

theorem preorder_eq (ancestors : List Node) (n : Node) :
    preorder ancestors n = ⟨n, ancestors⟩ :: preorderAll (n :: ancestors) n.children := by
  cases n
  rw [preorder]

/-! ## Trees from flat lists -/

/-- One entry of a pre-order listing: a node without children and its depth. -/
structure Entry where
  depth : Nat
  node : Node

/-- Adds the entries to a stack of open nodes. A node closes when an entry of no greater depth
follows; its children are held in reverse. -/
def closeTo (depth : Nat) : List (Nat × Node) → List (Nat × Node)
  | (d, n) :: (e, p) :: rest =>
    if depth ≤ d then
      closeTo depth ((e, { p with children := { n with children := n.children.reverse } :: p.children }) :: rest)
    else (d, n) :: (e, p) :: rest
  | stack => stack
  termination_by stack => stack.length

/-- The tree that a pre-order listing spells, the root first at depth 0. -/
def ofPreorder? (entries : List Entry) : Option Node :=
  let stack := entries.foldl (fun stack e => (e.depth, e.node) :: closeTo e.depth stack) []
  (closeTo 1 stack).getLast?.map fun (_, n) => { n with children := n.children.reverse }

end CodeIndex.Tree
