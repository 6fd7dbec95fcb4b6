import CodeIndex.Graph.Basic

/-!
# Edges within reach

A breadth-first walk along outgoing edges. Every node is left once, in the round in which it was first
reached.
-/

namespace CodeIndex.Graph

/-- Leaves the nodes of one round in order. Gives the edges walked, the nodes reached for the first
time, and all nodes reached. -/
def walkRound (outgoing : String → List Edge) :
    (frontier reached : List String) → List Edge × List String × List String
  | [], reached => ([], [], reached)
  | id :: rest, reached =>
    let edges := outgoing id
    let fresh := (edges.map (·.target)).eraseDups.filter (!reached.contains ·)
    let (more, later, reached) := walkRound outgoing rest (reached ++ fresh)
    (edges ++ more, fresh ++ later, reached)

/-- Walks at most `rounds` rounds. -/
def walk (outgoing : String → List Edge) : (rounds : Nat) → (frontier reached : List String) → List Edge
  | 0, _, _ => []
  | _ + 1, [], _ => []
  | rounds + 1, id :: frontier, reached =>
    let (edges, next, reached) := walkRound outgoing (id :: frontier) reached
    edges ++ walk outgoing rounds next reached

/-- The edges within a number of steps from a node, at least one. -/
def within (outgoing : String → List Edge) (start : String) (depth : Nat) : List Edge :=
  walk outgoing (max depth 1) [start] [start]

end CodeIndex.Graph
