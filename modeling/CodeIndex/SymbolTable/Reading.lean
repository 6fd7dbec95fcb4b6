import CodeIndex.LineReading
import CodeIndex.SymbolTable.Row

/-!
# The symbols of a file

Symbols come from the syntax tree. Where it has none, or is faulty, those that single lines declare are
added, unless the tree has one of the same name on the same line.
-/

namespace CodeIndex

/-- What a file holds for the symbol table. -/
structure FileContents where
  symbols : List SymbolRow
  imports : List String
  parseError : Option String
  deriving DecidableEq, Repr

namespace FileContents

/-- The symbols of single lines that no symbol of the tree shares name and line with. An earlier line
symbol counts as well. -/
def addedFrom (taken : List (String × Nat)) : List Symbol → List Symbol
  | [] => []
  | s :: rest =>
    if taken.contains (s.name, s.startLine) then addedFrom taken rest
    else s :: addedFrom ((s.name, s.startLine) :: taken) rest

/-- Symbols of the tree and of single lines in the order of their lines. -/
def merged (structural : List Symbol) (syntaxError : Option Nat) (declared : List Symbol) :
    List (Symbol × Recognition) :=
  let needed := structural.isEmpty || syntaxError.isSome
  let added := if needed then addedFrom (structural.map fun s => (s.name, s.startLine)) declared else []
  (structural.map (·, Recognition.tree) ++ added.map (·, Recognition.line)).mergeSort
    fun a b => a.1.startLine ≤ b.1.startLine

/-- The imports of the tree, or those of single lines if there are none and lines were read. -/
def mergedImports (e : Extraction) (declared : List Import) : List Import :=
  if e.imports.isEmpty && (e.symbols.isEmpty || e.syntaxError.isSome) then declared else e.imports

/-- Reads the text of a file in a language. -/
def read (r : Registry) (g : Grammars) (path language text : String) : FileContents :=
  let e := if r.supports language then extract r g path language text else {}
  let (declared, declaredImports) := LineReading.read path text (r.lookup? language)
  let lines := (Text.lineChars text.toList).toArray
  { symbols := (merged e.symbols e.syntaxError declared).map fun (s, how) => .ofSymbol s how language lines
    imports := (mergedImports e declaredImports).map (·.name)
    parseError := e.syntaxError.map fun line => s!"syntax error near line {line}" }

end FileContents

end CodeIndex
