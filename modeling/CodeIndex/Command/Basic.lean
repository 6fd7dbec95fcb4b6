import CodeIndex.Command.Form

/-!
# Commands

What the program can be asked for.
-/

namespace CodeIndex

/-- A question to the table of symbols. -/
inductive SymbolQuestion where
  | stats
  | patterns
  | name (pattern : String)
  | category (name : String)
  | kind (name : String)
  | file (path : String)
  | keyComponents
  deriving DecidableEq, Repr

/-- A question to the graph. -/
inductive GraphQuestion where
  | search (query : String) (limit : Nat) (kinds : List String)
  | neighbors (id : String) (depth : Nat) (edges : List String)
  | file (path : String)
  | stats
  deriving DecidableEq, Repr

inductive Command where
  | index (path : String) (force : Bool)
  | symbols (root : String) (question : SymbolQuestion) (limit : Int)
  | graph (root : String) (question : GraphQuestion)
  | embed (path : String) (force : Bool)
  | search (query root : String) (limit : Nat) (file : Option String)
  | languages
  | watch (path : String)
  deriving DecidableEq, Repr

/-- A command and the settings file that it names. -/
structure Invocation where
  settings : Option String
  command : Command
  deriving DecidableEq, Repr

namespace Command

/-- Digits after an optional sign, below a bound; a minus sign counts only if `least` is negative. -/
def integer? (least bound : Int) (text : String) : Option Int :=
  let (negative, ds) := match text.toList with
    | '+' :: ds => (false, ds)
    | '-' :: ds => (true, ds)
    | ds => (false, ds)
  let n : Int := ds.foldl (fun n d => n * 10 + (d.toNat - 48 : Nat)) 0
  let n := if negative then -n else n
  if !ds.isEmpty && ds.all Char.isDigit && !(negative && 0 ≤ least) && least ≤ n && n < bound then some n
  else none

/-- A number of 64 bits with a sign. -/
def signed? (text : String) : Option Int :=
  integer? (-Int.pow 2 63) (Int.pow 2 63) text

/-- A number of 64 bits without one. -/
def size? (text : String) : Option Nat :=
  (integer? 0 (Int.pow 2 64) text).map (·.toNat)

/-! ## Forms -/

def isPath (text : String) : Bool :=
  text ≠ ""

def everywhere : List Switch := [
  { long := "config", value := some "PATH", about := "Path to sextant.toml", accepts := isPath },
  { letter := some 'v', long := "verbose", about := "Debug logging unless RUST_LOG is set" }]

def pathOperand : Operand :=
  { name := "PATH", initial := some ".", accepts := isPath }

def rootSwitch : Switch :=
  { long := "root", value := some "ROOT", initial := some ".", accepts := isPath }

def sizeSwitch (letter : Char) (long name : String) (initial : Nat) : Switch :=
  { letter := some letter, long, value := some name, initial := some (toString initial)
    accepts := fun v => (size? v).isSome }

def forceSwitch (about : String) : Switch :=
  { letter := some 'f', long := "force", about }

def indexForm : Form :=
  { name := "index", about := "Index symbols and the code graph"
    operands := [pathOperand], switches := [forceSwitch "Re-index every file"] }

def symbolsForm : Form :=
  { name := "symbols", about := "Query the symbol store"
    switches := [
      rootSwitch,
      { letter := some 'n', long := "name", value := some "NAME", about := "Name pattern, \x60*\x60 matches anything" },
      { letter := some 'c', long := "category", value := some "CATEGORY" },
      { letter := some 't', long := "type", value := some "SYMBOL_TYPE" },
      { long := "file", value := some "FILE", about := "Symbols defined in this repository-relative file" },
      { long := "patterns", about := "Show detected architecture patterns" },
      { long := "stats", about := "Show store statistics" },
      { letter := some 'l', long := "limit", value := some "LIMIT", initial := some "50"
        accepts := fun v => (signed? v).isSome }] }

def graphForm : Form :=
  { name := "graph", about := "Query the code graph", switches := [rootSwitch]
    inner := [
      { name := "search", about := "Search nodes by name, signature or docstring"
        operands := [{ name := "QUERY" }]
        switches := [
          sizeSwitch 'l' "limit" "LIMIT" 20,
          { letter := some 't', long := "type", value := some "NODE_TYPES", repeats := true
            about := "Restrict to node types, e.g. \x60class\x60" }] },
      { name := "neighbors", about := "Outgoing edges from a node"
        operands := [{ name := "NODE_ID" }]
        switches := [
          sizeSwitch 'd' "depth" "DEPTH" 1,
          { letter := some 'e', long := "edge", value := some "EDGES", repeats := true
            about := "Follow only these edge types, e.g. \x60CALLS\x60" }] },
      { name := "file", about := "Nodes defined in a file", operands := [{ name := "FILE" }] },
      { name := "stats", about := "Node and edge counts" }] }

def embedForm : Form :=
  { name := "embed", about := "Chunk and embed the repository into the vector index"
    operands := [pathOperand], switches := [forceSwitch "Drop the collection before embedding"] }

def searchForm : Form :=
  { name := "search", about := "Semantic search over embedded chunks"
    operands := [{ name := "QUERY" }]
    switches := [
      rootSwitch, sizeSwitch 'l' "limit" "LIMIT" 10,
      { long := "file", value := some "FILE", about := "Only chunks from this repository-relative file" }] }

def languagesForm : Form :=
  { name := "languages", about := "List registered languages and their extraction tiers" }

def watchForm : Form :=
  { name := "watch", about := "Index, then re-index on every change until interrupted"
    operands := [pathOperand] }

/-- The whole program. -/
def programForm : Form :=
  { name := "sextant", about := "Code intelligence index: symbols, graph and semantic search"
    inner := [indexForm, symbolsForm, graphForm, embedForm, searchForm, languagesForm, watchForm] }

/-! ## From arguments to commands -/

/-- Of several questions the first in this order counts. -/
def symbolQuestion (g : Given) : SymbolQuestion :=
  if g.has "stats" then .stats
  else if g.has "patterns" then .patterns
  else
    (((g.value? "name").map SymbolQuestion.name).or <|
      ((g.value? "category").map SymbolQuestion.category).or <|
      ((g.value? "type").map SymbolQuestion.kind).or <|
      (g.value? "file").map SymbolQuestion.file).getD .keyComponents

def sizeOf (g : Given) (long : String) (initial : Nat) : Nat :=
  ((g.value? long).bind size?).getD initial

def ofGiven? (g : Given) : Option Command :=
  let root := (g.value? "root").getD "."
  match g.path, g.operands with
  | ["index"], [path] => some (.index path (g.has "force"))
  | ["symbols"], [] => some (.symbols root (symbolQuestion g) (((g.value? "limit").bind signed?).getD 50))
  | ["graph", "search"], [query] => some (.graph root (.search query (sizeOf g "limit" 20) (g.all "type")))
  | ["graph", "neighbors"], [id] => some (.graph root (.neighbors id (sizeOf g "depth" 1) (g.all "edge")))
  | ["graph", "file"], [file] => some (.graph root (.file file))
  | ["graph", "stats"], [] => some (.graph root .stats)
  | ["embed"], [path] => some (.embed path (g.has "force"))
  | ["search"], [query] => some (.search query root (sizeOf g "limit" 10) (g.value? "file"))
  | ["languages"], [] => some .languages
  | ["watch"], [path] => some (.watch path)
  | _, _ => none

/-- The command that arguments ask for. -/
def parse (args : List String) : Except Stop Invocation :=
  match Context.parse (args.length + 1) { form := programForm, everywhere } args with
  | .error stop => .error stop
  | .ok given =>
    match ofGiven? given with
    | some command => .ok { settings := given.value? "config", command }
    | none => .error .usage

end Command

end CodeIndex
