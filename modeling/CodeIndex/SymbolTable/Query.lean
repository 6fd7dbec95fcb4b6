import CodeIndex.SymbolTable.Basic
import CodeIndex.Text.Like

/-!
# Questions to the symbol table

Rows come by file and line, and in the order of their numbers where these are equal.
-/

namespace CodeIndex.SymbolTable

/-- The rows that satisfy a condition, by file and line. -/
def select (t : SymbolTable) (p : SymbolRow → Bool) (limit : Int) : List SymbolRow :=
  limited limit ((t.symbolRows.filter p).mergeSort leByPlace)

def byCategory (t : SymbolTable) (category : String) (limit : Int) : List SymbolRow :=
  t.select (·.category = some category) limit

def byKind (t : SymbolTable) (kind : String) (limit : Int) : List SymbolRow :=
  t.select (·.kind = kind) limit

/-- Symbols whose name matches a pattern, in which a star may stand for a percent sign. A pattern that
is too long is refused as soon as a row is looked at. -/
def byName (t : SymbolTable) (pattern : String) (limit : Int) : Except IndexError (List SymbolRow) :=
  if !t.symbols.isEmpty && limit != 0 && Like.maxPattern < pattern.utf8ByteSize then
    .error (.database Like.tooComplex)
  else
    let pattern := Text.replaceChar pattern '*' '%'
    .ok (t.select (fun s => Like.matchesText none pattern s.name) limit)

def inFile (t : SymbolTable) (path : String) : List SymbolRow :=
  (t.symbolRows.filter (·.file = path)).mergeSort fun a b => a.line ≤ b.line

/-- Symbols with a category that stand for types, the most central categories first. -/
def keyComponents (t : SymbolTable) (limit : Int) : List SymbolRow :=
  let rank (s : SymbolRow) := Category.rank (s.category.getD "")
  let rows := t.symbolRows.filter fun s =>
    s.category.isSome && ["class", "interface", "struct", "trait"].contains s.kind
  limited limit (rows.mergeSort fun a b => rank a < rank b || (rank a = rank b && a.name ≤ b.name))

/-- The patterns by type and name. -/
def detectedPatterns (t : SymbolTable) : List PatternRow :=
  t.patterns.mergeSort fun a b => a.type < b.type || (a.type = b.type && a.name ≤ b.name)

/-- The imports of a file in the order in which it has them. -/
def importsOf (t : SymbolTable) (path : String) : List String :=
  (t.imports.filter (·.2.file = path)).map (·.2.name)

structure Stats where
  files : Nat
  symbols : Nat
  imports : Nat
  patterns : Nat
  sourceFiles : Nat
  configFiles : Nat
  byLanguage : Dict Nat
  byKind : Dict Nat
  byCategory : Dict Nat
  wasIndexed : Bool
  deriving Repr

def stats (t : SymbolTable) : Stats :=
  { files := t.files.length
    symbols := t.symbols.length
    imports := t.imports.length
    patterns := t.patterns.length
    sourceFiles := t.files.countP (·.type = .source)
    configFiles := t.files.countP (·.type = .config)
    byLanguage := .tally (t.files.map (·.language))
    byKind := .tally (t.symbolRows.map (·.kind))
    byCategory := .tally (t.symbolRows.filterMap (·.category))
    wasIndexed := t.wasIndexed }

end CodeIndex.SymbolTable
