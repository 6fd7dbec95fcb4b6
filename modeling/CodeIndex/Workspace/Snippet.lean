import CodeIndex.Workspace.Basic

/-!
# Source text of hits

An index may keep no text. The lines of a hit are then those of the graph's node for its symbol.
-/

namespace CodeIndex.Workspace

/-- The name behind the last dot. -/
def shortName (name : String) : String :=
  match Text.cutLast? name "." with
  | some (_, short) => short
  | none => name

/-- The first and the last line of a node. -/
def lineRange? (n : Graph.Node) : Option (Nat × Nat) := do
  let line ← n.line
  let last := n.endLine.getD line
  if 0 ≤ line && 0 ≤ last then
    let first := max line.toNat 1
    return (first, max last.toNat first)
  else none

/-- Lines from the first to the last, without the break behind the last. -/
def linesOf (text : String) (first last : Nat) : String :=
  "\n".intercalate (((Text.lines text).drop (first - 1)).take (last + 1 - first))

/-- The text of a hit: the lines of the first node of its file with the short name of its symbol. -/
def snippet? [Graph.Store σ] (graph : σ) (text? : String → Option String) (r : SearchResult) :
    Option String := do
  let name ← r.symbol
  let node ← (Graph.Store.find graph { name := some (shortName name), file := some r.file }).head?
  let (first, last) ← lineRange? node
  return linesOf (← text? r.file) first last

/-- The text of a file of the repository. -/
def text? (w : Workspace) (h : Host) (file : String) : Option String := do
  let octets ← (h.disk.read (Path.join w.root file)).toOption
  (Text.Utf8.decode octets).toOption

/-- Gives a hit its text, where the index has kept none. -/
def withSnippet (w : Workspace) (h : Host) (r : SearchResult) : SearchResult :=
  if r.content.isSome then r else { r with content := snippet? (w.graph h) (w.text? h) r }

end CodeIndex.Workspace
