import CodeIndex.Extraction

/-!
# Who owns which lines

The outermost symbols of a file have disjoint lines. Together with the larger gaps between them they
part the file into segments; a small gap goes to the symbol after it, at the end to the one before.
-/

namespace CodeIndex.Layout

/-- By first line, and of those the longest first. -/
def precedes (a b : Symbol) : Bool :=
  a.startLine < b.startLine || (a.startLine = b.startLine && b.endLine ≤ a.endLine)

/-- The symbols that start after `lastLine`, each after the end of the one before it. -/
def disjointFrom (lineCount lastLine : Nat) : List Symbol → List Symbol
  | [] => []
  | sym :: rest =>
    if lastLine < sym.startLine then sym :: disjointFrom lineCount (min sym.endLine lineCount) rest
    else disjointFrom lineCount lastLine rest

/-- The outermost symbols among those that start in the first `lineCount` lines. -/
def outermost (symbols : List Symbol) (lineCount : Nat) : List Symbol :=
  let inside := symbols.filter fun s => 1 ≤ s.startLine && s.startLine ≤ lineCount
  disjointFrom lineCount 0 (inside.mergeSort precedes)

/-- The direct members of a class. -/
def members (symbols : List Symbol) (owner : Symbol) : List Symbol :=
  outermost (symbols.filter fun s => owner.startLine < s.startLine && s.endLine ≤ owner.endLine)
    owner.endLine

/-- Consecutive lines that belong to a symbol, or to none. -/
structure Segment where
  first : Nat
  last : Nat
  symbol : Option Symbol
  deriving DecidableEq, Repr

def visibleChars (text : String) : Nat :=
  text.toList.countP (!Text.isBlank ·)

/-- Whether lines hold enough visible characters to be a chunk of their own. -/
def isLarge (s : Source) (minSize first last : Nat) : Except Source.Fault Bool := do
  return minSize ≤ visibleChars (← s.lineText first last)

/-- The gap before a symbol and the symbol's segment, which takes in a gap that is small. -/
def leading (s : Source) (minSize last cursor : Nat) (sym : Symbol) : Except Source.Fault (List Segment) := do
  let stop := max (min sym.endLine last) sym.startLine
  if cursor < sym.startLine then
    if ← isLarge s minSize cursor (sym.startLine - 1) then
      return [⟨cursor, sym.startLine - 1, none⟩, ⟨sym.startLine, stop, some sym⟩]
    else return [⟨cursor, stop, some sym⟩]
  else return [⟨sym.startLine, stop, some sym⟩]

/-- Lets the last segment reach to a line. -/
def extendLast (last : Nat) : List Segment → List Segment
  | [] => []
  | [seg] => [{ seg with last }]
  | seg :: rest => seg :: extendLast last rest

/-- The segments of the symbols in order, and the line after them. -/
def segmentsFrom (s : Source) (minSize last cursor : Nat) :
    List Symbol → Except Source.Fault (List Segment × Nat)
  | [] => .ok ([], cursor)
  | sym :: rest => do
    let front ← leading s minSize last cursor sym
    let (more, after) ← segmentsFrom s minSize last (max (min sym.endLine last) sym.startLine + 1) rest
    return (front ++ more, after)

/-- The lines from 1 to `last`, parted among the outermost symbols and the gaps between them. -/
def segments (s : Source) (top : List Symbol) (last minSize : Nat) : Except Source.Fault (List Segment) := do
  let (found, cursor) ← segmentsFrom s minSize last 1 top
  if cursor ≤ last then
    let large ← isLarge s minSize cursor last
    if !large && !found.isEmpty then return extendLast last found
    else return found ++ [⟨cursor, last, none⟩]
  else return found

end CodeIndex.Layout
