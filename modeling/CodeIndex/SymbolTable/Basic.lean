import CodeIndex.Dict
import CodeIndex.SymbolTable.Reading

/-!
# The symbol table

Files, their symbols and imports, and the patterns that the symbols show. Symbols and imports carry
numbers in the order in which they were added, and no number is used twice.
-/

namespace CodeIndex

structure ImportRow where
  file : String
  name : String
  deriving DecidableEq, Repr

structure SymbolTable where
  files : List FileRow := []
  symbols : List (Nat × SymbolRow) := []
  imports : List (Nat × ImportRow) := []
  patterns : List PatternRow := []
  /-- Whether a pass was completed. -/
  wasIndexed : Bool := false
  nextSymbol : Nat := 1
  nextImport : Nat := 1
  deriving DecidableEq, Repr, Inhabited

namespace SymbolTable

def empty : SymbolTable := {}

def file? (t : SymbolTable) (path : String) : Option FileRow :=
  t.files.find? (·.path = path)

/-- Rows with numbers from `start` on. -/
def numbered (start : Nat) (rows : List α) : List (Nat × α) :=
  rows.zipIdx.map fun (row, i) => (start + i, row)

/-- Removes a file with its symbols and imports. -/
def drop (t : SymbolTable) (path : String) : SymbolTable :=
  { t with
    files := t.files.filter (·.path != path)
    symbols := t.symbols.filter (·.2.file != path)
    imports := t.imports.filter (·.2.file != path) }

/-- Adds a file with its symbols and imports. -/
def insert (t : SymbolTable) (f : FileRow) (symbols : List SymbolRow) (imports : List String) : SymbolTable :=
  { t with
    files := t.files ++ [f]
    symbols := t.symbols ++ numbered t.nextSymbol symbols
    imports := t.imports ++ numbered t.nextImport (imports.map (⟨f.path, ·⟩))
    nextSymbol := t.nextSymbol + symbols.length
    nextImport := t.nextImport + imports.length }

/-- Remembers the new time of a file. -/
def touch (t : SymbolTable) (path : String) (mtime : Double) : SymbolTable :=
  { t with files := t.files.map fun f => if f.path = path then { f with mtime } else f }

/-- Removes all rows. -/
def clear (t : SymbolTable) : SymbolTable :=
  { t with files := [], symbols := [], imports := [], patterns := [], wasIndexed := false }

/-! ## Patterns -/

def symbolRows (t : SymbolTable) : List SymbolRow :=
  t.symbols.map (·.2)

/-- By file, then by line. -/
def leByPlace (a b : SymbolRow) : Bool :=
  a.file < b.file || (a.file = b.file && a.line ≤ b.line)

/-- A pattern for each category that at least two symbols belong to. -/
def architecturePatterns (rows : List SymbolRow) : List PatternRow :=
  (Dict.tally (rows.filterMap (·.category))).filterMap fun (category, n) =>
    if n < 2 then none
    else some {
      name := Category.title category ++ " Pattern", type := "architecture", file := none, symbol := none
      line := none, description := s!"Found {n} {category} components" }

/-- A pattern for each class or interface that is named as a base. -/
def inheritancePatterns (rows : List SymbolRow) : List PatternRow :=
  let bases := rows.filter fun s => (s.kind = "class" || s.kind = "interface") && Category.isAnchor s.name
  (bases.mergeSort leByPlace).map fun s =>
    { name := "Base Class: " ++ s.name, type := "inheritance", file := some s.file, symbol := some s.name
      line := some s.line, description := "Abstract base class for inheritance" }

/-- The patterns that symbols show. -/
def patternsOf (rows : List SymbolRow) : List PatternRow :=
  architecturePatterns rows ++ inheritancePatterns rows

def refreshPatterns (t : SymbolTable) : SymbolTable :=
  { t with patterns := patternsOf t.symbolRows }

end SymbolTable

end CodeIndex
