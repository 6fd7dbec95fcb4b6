import CodeIndex.Json.Pretty
import CodeIndex.Program
import CodeIndex.Workspace.Stored

/-!
# The command line

Reads the files that a command is about and the tables of earlier runs, runs the command, prints what it
says and keeps the tables. Parsers are not linked in: symbols are recognised by their lines.
-/

namespace CodeIndex.Main

/-- The variables that settings may come from. -/
def settingVariables : List String := [
  "SEXTANT_CONFIG", "SEXTANT_DB_DIR", "SEXTANT_VECTOR_STORE", "SEXTANT_EMBEDDING_MODEL_TYPE",
  "SEXTANT_EMBEDDING_MODEL", "SEXTANT_EMBEDDING_API_KEY", "SEXTANT_QDRANT_URL", "SEXTANT_EMBED_CONCURRENCY"]

def environment : IO Environment := do
  let mut env : Environment := []
  for name in settingVariables do
    if let some value ← IO.getEnv name then
      env := env.put name value
  return env

/-- The repository that a command is about. -/
def rootOf : Command → Option String
  | .index path _ | .embed path _ | .watch path => some path
  | .symbols root _ _ | .graph root _ | .search _ root _ _ => some root
  | .languages => none

/-- A whole path from a working directory, without dots, as a place below the root of all files. -/
def placeOf (directory path : String) : String :=
  let step (place : List String) : Path.Component → List String
    | .name n => place ++ [n]
    | .up => place.dropLast
    | .current | .root => place
  "/".intercalate ((Path.components (Path.join directory path)).foldl step [])

/-- Adds a file to those known. -/
def addFile (d : Disk) (place : String) : IO Disk := do
  try
    let path ← IO.FS.realPath ("/" ++ place)
    let info ← path.metadata
    if info.type == .file then
      let seconds := Float.ofInt info.modified.sec + info.modified.nsec.toNat.toFloat / 1e9
      let file ← try
          pure { octets := (← IO.FS.readBinFile path).toList, mtime := .ofFloat seconds }
        catch _ => pure { octets := [], mtime := .ofFloat seconds, refusal := some .denied }
      return d.put place file
    else return d
  catch _ => return d

/-- Adds the files below a directory; what no walk reaches is left out. -/
partial def addDirectory (p : IgnorePolicy) (d : Disk) (place : String) : IO Disk := do
  let mut d := (d.makeDirectory place).toOption.elim d (·.1)
  try
    for entry in ← (← IO.FS.realPath ("/" ++ place)).readDir do
      let inner := place ++ "/" ++ entry.fileName
      if ← entry.path.isDir then
        if entry.fileName = ".git" then d ← addFile d (inner ++ "/info/exclude")
        else if !p.ignoresSegment entry.fileName then d ← addDirectory p d inner
      else if entry.fileName = ".gitignore" || entry.fileName = ".ignore" || !p.ignoresSegment entry.fileName then
        d ← addFile d inner
    return d
  catch _ => return d

/-- The table in a file, if there is one. -/
def readTable (directory file : String) (read : Json → Option α) : IO (Dict α) := do
  try
    let text ← IO.FS.readFile ("/" ++ directory ++ "/" ++ file)
    return ((Json.parse? text).bind read).elim [] fun t => [(directory, t)]
  catch _ => return []

def writeTable (file : String) (encode : α → Json) (tables : Dict α) : IO Unit := do
  for (directory, t) in tables do
    IO.FS.createDirAll ("/" ++ directory)
    IO.FS.writeFile ("/" ++ directory ++ "/" ++ file) (encode t).render

/-- The host of a command: its settings file, its repository and the tables of that repository. -/
def hostOf (env : Environment) (i : Invocation) : IO Host := do
  let directory := placeOf "" (← IO.currentDir).toString
  let host : Host := { directory }
  let host := { host with disk := (host.disk.makeDirectory directory).toOption.elim host.disk (·.1) }
  let host := { host with disk := ← addFile host.disk (placeOf directory (Settings.filePath env i.settings)) }
  match rootOf i.command, host.settings env i.settings with
  | some root, .ok settings =>
    let place := placeOf directory root
    let isThere ← try (← IO.FS.realPath ("/" ++ place)).isDir catch _ => pure false
    let disk ← if isThere then addDirectory settings.ignorePolicy host.disk place else addFile host.disk place
    let host := { host with disk }
    match Workspace.enter host settings root with
    | .error _ => return host
    | .ok (entered, w) =>
      let vectors := (w.vectorPlace entered).toOption.elim w.place (·.2)
      let disk ← addFile host.disk (Path.join w.place Tables.symbolsFile)
      return { host with disk, tables := {
        symbols := ← readTable w.place Tables.symbolsFile SymbolTable.ofStored?
        graphs := ← readTable w.place Tables.graphFile Graph.TableGraph.ofStored?
        vectors := ← readTable vectors Tables.vectorsFile Vectors.TableIndex.ofStored? } }
  | _, _ => return host

def keep (t : Tables) : IO Unit := do
  writeTable Tables.symbolsFile SymbolTable.toStored t.symbols
  writeTable Tables.graphFile Graph.TableGraph.toStored t.graphs
  writeTable Tables.vectorsFile Vectors.TableIndex.toStored t.vectors

/-- Nothing is sent: there is no client for the network. -/
def offline (_ : HttpRequest) : Except EmbedError HttpReply :=
  .error .http

def say (elapsed : Nat) : Output → IO Unit
  | .lines ls => for l in ls do IO.println (l.text (toString elapsed))
  | .value v => IO.println v.pretty

/-- Runs the program once. -/
def runOnce (args : List String) : IO UInt32 := do
  let env ← environment
  let host ← match Command.parse args with
    | .ok i => hostOf env i
    | .error _ => pure {}
  let start ← IO.monoMsNow
  let (host, outcome) := Program.run ⟨env, { parse := fun _ _ => none }, offline⟩ host args
  keep host.tables
  say ((← IO.monoMsNow) - start) outcome.output
  if outcome.code = 2 then IO.eprint (Command.helpText [Command.programForm])
  else IO.eprint outcome.report
  return outcome.code.toUInt32

/-- Indexes again every half second, until interrupted. -/
partial def watch (args : List String) : IO UInt32 := do
  let code ← runOnce args
  if code = 0 then
    IO.sleep 500
    watch args
  else return code

end CodeIndex.Main

open CodeIndex in
def main (args : List String) : IO UInt32 :=
  match Command.parse args with
  | .ok ⟨_, .watch _⟩ => Main.watch args
  | _ => Main.runOnce args
