import CodeIndex.Database
import CodeIndex.SymbolTable.Basic

/-!
# The symbol table in a database

The table that earlier runs have left in a database file. Files, symbols, imports and patterns are tables
of their own. Every finished pass leaves a note of its time, and the highest number that a table of
numbered rows ever had is kept beside it.
-/

namespace CodeIndex

/-- Texts that were joined by commas. -/
def SymbolRow.storedModifiers (joined : Option String) : List String :=
  (Text.splitOn (joined.getD "") ',').filter (· != "")

/-- The number of a symbol and its columns. -/
def SymbolRow.ofRow? (r : Database.Row) : Option (Nat × SymbolRow) :=
  match r.columns with
  | [_, name, kind, file, line, language, category, docstring, signature, parent, modifiers, isExported,
      contentHash] => do
    return (r.number.toNat, {
      name := ← name.text?, kind := ← kind.text?, file := ← file.text?, line := ← line.nat?
      language := ← language.text?, category := ← category.optional?, docstring := ← docstring.optional?
      signature := ← signature.optional?, parent := ← parent.optional?
      modifiers := storedModifiers (← modifiers.optional?), isExported := (← isExported.nat?) != 0
      contentHash := ← contentHash.text? })
  | _ => none

/-- The time at which a file was read last is not used, and its type follows from its path. -/
def FileRow.ofRow? (r : Database.Row) : Option FileRow :=
  match r.columns with
  | [path, language, size, lines, mtime, _, contentHash, symbolCount, importCount, _] => do
    let path ← path.text?
    return {
      path, language := ← language.text?, size := ← size.nat?, lines := ← lines.nat?, mtime := ← mtime.number?
      contentHash := ← contentHash.text?, symbolCount := ← symbolCount.nat?
      importCount := ← importCount.nat?, type := .ofPath path }
  | _ => none

def ImportRow.ofRow? (r : Database.Row) : Option (Nat × ImportRow) :=
  match r.columns with
  | [_, file, name, _] => do return (r.number.toNat, ⟨← file.text?, ← name.text?⟩)
  | _ => none

def PatternRow.ofRow? (r : Database.Row) : Option PatternRow :=
  match r.columns with
  | [_, name, type, file, symbol, line, description] => do
    return {
      name := ← name.text?, type := ← type.text?, file := ← file.optional?, symbol := ← symbol.optional?
      line := line.nat?, description := ← description.text? }
  | _ => none

/-- The highest number that a table has had. -/
def Database.highest (d : Database) (name : String) : Option Nat := do
  let entries ← d.table "sqlite_sequence"
  return (entries.findSome? fun r =>
    match r.columns with
    | [.text n, .int highest] => if n = name then some highest.toNat else none
    | _ => none).getD 0

def SymbolTable.ofDatabase? (d : Database) : Option SymbolTable := do
  return {
    files := ← (← d.table "files").mapM FileRow.ofRow?
    symbols := ← (← d.table "symbols").mapM SymbolRow.ofRow?
    imports := ← (← d.table "imports").mapM ImportRow.ofRow?
    patterns := ← (← d.table "patterns").mapM PatternRow.ofRow?
    wasIndexed := (← d.table "metadata").any fun r => r.columns.head? = some (.text "last_indexed")
    nextSymbol := (← d.highest "symbols") + 1
    nextImport := (← d.highest "imports") + 1 }

end CodeIndex
