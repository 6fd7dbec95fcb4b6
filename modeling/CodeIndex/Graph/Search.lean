import CodeIndex.Graph.Basic
import CodeIndex.Text.Casing
import CodeIndex.Text.Find

/-!
# Searching nodes by text

A name that equals the text comes first, then one that starts with it, then one that holds it, then a
signature or documentation that holds it. Case does not count.
-/

namespace CodeIndex.Graph

/-- The place of a node in the answer to a lower-case text. -/
def searchRank (needle : String) (n : Node) : Option Nat :=
  let name := Text.lower n.name
  if name = needle then some 0
  else if Text.startsWith name needle then some 1
  else if Text.contains name needle then some 2
  else if (n.signature.toList ++ n.docstring.toList).any fun t => Text.contains (Text.lower t) needle then some 3
  else none

/-- The nodes that answer to a lower-case text, each with its place. -/
def hits (needle : String) (nodes : List Node) : List (Nat × Node) :=
  nodes.filterMap fun n => (searchRank needle n).map (·, n)

/-- By place, and by name where the places are equal. -/
def leHit (a b : Nat × Node) : Bool :=
  a.1 < b.1 || (a.1 = b.1 && a.2.name ≤ b.2.name)

/-- The nodes of the given kinds that answer to a lower-case text, the best first. -/
def ranked (needle : String) (kinds : Option (List String)) (limit : Nat) (nodes : List Node) : List Node :=
  let allowed := nodes.filter fun n => kinds.all (·.contains n.kind)
  (((hits needle allowed).mergeSort leHit).take limit).map (·.2)

end CodeIndex.Graph
