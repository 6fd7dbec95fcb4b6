import CodeIndex.Tree.Basic

/-!
# Tree patterns

A pattern describes a named node by its kind, the field it fills, its text and some of its children.
The child patterns match a subsequence of the children. Every way to choose that subsequence is one
match, and a match lists what was captured in pre-order of the pattern.

This is the part of the query language of syntax trees that the queries of the known languages need. Left out are
alternations, repetitions and optional parts, groups, anchors between neighbours, negated fields, anonymous nodes, and
all predicates but equality of a text.
-/

namespace CodeIndex.Tree

/-- What a captured node is to the rule that looks for it. -/
inductive Capture where
  | name
  | definition
  | callee
  | child
  | base
  | contract
  | owner
  | part
  | module
  | other
  deriving DecidableEq, Repr

structure Pattern where
  /-- Any named node when absent. -/
  kind : Option String
  field : Option String := none
  capture : Option Capture := none
  /-- The text that the node must have. -/
  text : Option String := none
  children : List Pattern := []
  deriving Repr, Inhabited

namespace Pattern

/-- A node of that kind with those children. -/
def node (kind : String) (children : List Pattern := []) : Pattern :=
  { kind := some kind, children }

/-- The same node, in that field of its parent. -/
def filling (p : Pattern) (field : String) : Pattern :=
  { p with field := some field }

def as (p : Pattern) (capture : Capture) : Pattern :=
  { p with capture := some capture }

/-- The same node, with that text. -/
def reading (p : Pattern) (text : String) : Pattern :=
  { p with text := some text }

end Pattern

abbrev Match := List (Capture × Located)

namespace Match

/-- The node first captured under a name. -/
def get? (m : Match) (c : Capture) : Option Located :=
  m.lookup c

def all (m : Match) (c : Capture) : List Located :=
  m.filterMap fun (d, l) => if d = c then some l else none

/-- Where the last captured node starts. -/
def lastStart (m : Match) : Nat :=
  match m.getLast? with
  | some (_, l) => l.node.start
  | none => 0

end Match

/-- The kind, field and text that a pattern asks of a node, its children apart. -/
def Pattern.fits (s : Source) (kind field text : Option String) (n : Node) : Bool :=
  n.isNamed &&
    (match kind with
      | some k => n.kind = k && !n.isError
      | none => true) &&
    (match field with
      | some f => n.field = some f
      | none => true) &&
    (match text with
      | some t => n.text s = t
      | none => true)

/-- What `f` yields at each element of a list, given the elements behind it. -/
def atEach (f : α → List α → List β) : List α → List β
  | [] => []
  | a :: rest => f a rest ++ atEach f rest

mutual

/-- Every match of a pattern at a node. -/
def Pattern.matchAt (s : Source) : Pattern → Located → List Match
  | ⟨kind, field, capture, text, children⟩, l =>
    if Pattern.fits s kind field text l.node then
      (Pattern.matchChildren s children l.children).map fun m =>
        match capture with
        | some c => (c, l) :: m
        | none => m
    else []

/-- Every way to match patterns, in order, with a subsequence of nodes. -/
def Pattern.matchChildren (s : Source) : List Pattern → List Located → List Match
  | [], _ => [[]]
  | p :: ps, nodes =>
    atEach (fun n after =>
      (Pattern.matchAt s p n).flatMap fun m => (Pattern.matchChildren s ps after).map (m ++ ·)) nodes

end

/-- A query: its patterns, or nothing when it does not fit the grammar. -/
structure Query where
  patterns : List Pattern
  /-- Whether the grammar accepts the query. -/
  compiles : Bool := true
  deriving Repr, Inhabited

mutual

/-- The names under which a pattern captures nodes. -/
def Pattern.captures : Pattern → List Capture
  | ⟨_, _, capture, _, children⟩ => capture.toList ++ Pattern.capturesAll children

def Pattern.capturesAll : List Pattern → List Capture
  | [] => []
  | p :: ps => p.captures ++ Pattern.capturesAll ps

end

/-- The matches of a query in a tree, by the start of the last captured node and then by pattern. -/
def Query.run (q : Query) (s : Source) (root : Node) : List Match :=
  if q.compiles then
    let nodes := preorder [] root
    let found := q.patterns.flatMap fun p => nodes.flatMap (p.matchAt s)
    found.mergeSort fun a b => a.lastStart ≤ b.lastStart
  else []

end CodeIndex.Tree
