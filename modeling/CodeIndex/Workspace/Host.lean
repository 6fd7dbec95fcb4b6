import CodeIndex.Failure
import CodeIndex.Graph.Table
import CodeIndex.Settings
import CodeIndex.SymbolTable.Database
import CodeIndex.Vectors.Table

/-!
# Where commands run

Files, the tables that earlier commands have left beside them, and a working directory.
-/

namespace CodeIndex

/-- Tables by the directory that holds them. -/
structure Tables where
  symbols : Dict SymbolTable := []
  graphs : Dict Graph.TableGraph := []
  vectors : Dict Vectors.TableIndex := []

namespace Tables

/-- The files in which tables are kept. -/
def symbolsFile : String := "symbols.db"

def graphFile : String := "graph.db"

def vectorsFile : String := "vectors.db"

/-- What is left when a file, or a directory with everything below it, is removed. -/
def erase (t : Tables) (path : String) : Tables :=
  let kept {α : Type} (file : String) (d : Dict α) : Dict α :=
    d.filter fun (directory, _) => !Disk.isWithin (Path.join directory file) path
  { symbols := kept symbolsFile t.symbols
    graphs := kept graphFile t.graphs
    vectors := kept vectorsFile t.vectors }

end Tables

structure Host where
  disk : Disk := {}
  tables : Tables := {}
  /-- The text of the path to the root of the files. -/
  name : String := ""
  /-- The working directory, from that root. -/
  directory : String := ""

namespace Host

/-- The path from the root to which a path from the working directory leads. -/
def resolve (h : Host) (path : String) : Except Disk.Refusal String :=
  h.disk.resolve (Path.join h.directory path)

def read (h : Host) (path : String) : Except Disk.Refusal (List UInt8) :=
  h.disk.read (Path.join h.directory path)

/-- The symbols kept in a directory: a known table, or one in a database file that came with the files. -/
def symbols (h : Host) (place : String) : SymbolTable :=
  let filed := do
    let file ← h.disk.file? (Path.join place Tables.symbolsFile)
    let octets ← file.read.toOption
    SymbolTable.ofDatabase? (← Database.ofOctets? octets.toArray)
  ((h.tables.symbols.lookup place).or filed).getD {}

/-- The whole path of a place below the root. -/
def wholePath (h : Host) (place : String) : String :=
  if place = "" && h.name ≠ "" then h.name else h.name ++ "/" ++ place

/-- Creates a directory by its whole path and says where it lies. One outside the known files is left
alone. -/
def makeDirectory (h : Host) (path : String) : Except Disk.Refusal (Host × String) :=
  match Path.relativeTo? (h.name ++ "/") path with
  | none => .ok (h, path)
  | some inner => (h.disk.makeDirectory inner).map fun (disk, place) => ({ h with disk }, place)

/-- The settings for a command, from a file that it may name itself. -/
def settings (h : Host) (env : Environment) (asked : Option String) : Except Failure Settings :=
  let path := Settings.filePath env asked
  let loaded := match h.resolve path with
    | .error _ => Settings.load env none
    | .ok _ =>
      match h.read path with
      | .ok octets => Settings.load env (some octets)
      | .error refusal => .error (.unreadable refusal.message)
  loaded.mapError fun e => ⟨e.message, match e with
    | .unreadable cause => [cause]
    | .malformed => ["the text is no settings file"]⟩

end Host

end CodeIndex
