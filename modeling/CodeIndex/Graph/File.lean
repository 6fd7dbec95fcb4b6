import CodeIndex.Enrichment.Basic
import CodeIndex.Graph.Basic

/-!
# The part of a graph that one file gives

A node for the file, one for each symbol below its class or its file, and one for each imported module.
-/

namespace CodeIndex.Graph

/-- Types that are named but not defined in the repository. -/
def externalType : String := "external_type"

def moduleKind : String := "module"

/-- The longest signature that is taken from a line. -/
def maxSignature : Nat := 200

/-- The last segment of a path with dots or colons. -/
def bareName (name : String) : String :=
  String.ofList (name.toList.reverse.takeWhile fun c => c != '.' && c != ':').reverse

/-- A file with what was found in it. -/
structure FileGraph where
  path : String
  text : String
  extraction : FileExtraction
  deriving DecidableEq, Repr

namespace FileGraph

def symbols (f : FileGraph) : List EnrichedSymbol :=
  f.extraction.symbols

def idOf (f : FileGraph) (s : EnrichedSymbol) : String :=
  symbolId f.path s.symbol.qualifiedName

/-- The node of the symbol with a qualified name. -/
def qualified? (f : FileGraph) (name : String) : Option String :=
  if f.symbols.any (·.symbol.qualifiedName = name) then some (symbolId f.path name) else none

/-- The node of the only symbol with a bare name. -/
def onlyNamed? (f : FileGraph) (name : String) : Option String :=
  match (f.symbols.filter (·.symbol.name = name)).map f.idOf with
  | [id] => some id
  | _ => none

def fileNode (f : FileGraph) : Node :=
  { id := fileId f.path, kind := "file", file := f.path
    name := String.ofList (f.path.toList.reverse.takeWhile (· != '/')).reverse
    language := some f.extraction.language
    metadata := .ofList (("tier", f.extraction.support.tier.text) ::
      f.extraction.syntaxError.toList.map fun line => ("syntax_error_line", toString line)) }

/-- The node that contains a symbol: that of its class, or else that of the file. -/
def containerOf (f : FileGraph) (s : EnrichedSymbol) : String :=
  (s.symbol.parent.bind f.qualified?).getD (fileId f.path)

/-- What is known of a symbol besides its place. -/
def detailsOf (s : EnrichedSymbol) : Dict String :=
  let joined (key : String) (items : List String) :=
    if items.isEmpty then [] else [(key, ", ".intercalate items)]
  .ofList (s.returnType.toList.map (("return_type", ·)) ++ s.visibility.toList.map (("visibility", ·)) ++
    (if s.isAsync then [("is_async", "true")] else []) ++ joined "parameters" s.parameters ++
    joined "decorators" s.decorators)

/-- A known signature, or the line of the declaration for languages of the third tier. -/
def signatureOf (lines : Array (List Char)) (s : EnrichedSymbol) : Option String :=
  s.signature.or <|
    if s.tier = .third then
      lines[s.symbol.startLine - 1]?.map fun l => String.ofList ((Text.trimChars l).take maxSignature)
    else none

def symbolNode (f : FileGraph) (lines : Array (List Char)) (s : EnrichedSymbol) : Node :=
  { id := f.idOf s, kind := s.symbol.kind, name := s.symbol.name, file := f.path
    line := some s.symbol.startLine, endLine := some s.symbol.endLine
    language := some f.extraction.language, docstring := s.docstring
    signature := signatureOf lines s, parent := some (f.containerOf s), metadata := detailsOf s }

def modules (f : FileGraph) : List Import :=
  firstsBy (·.name) f.extraction.imports

def moduleNode (i : Import) : Node :=
  { id := moduleKind ++ ":" ++ i.name, kind := moduleKind, name := i.name, file := "" }

def nodes (f : FileGraph) : List Node :=
  let lines := (Text.lineChars f.text.toList).toArray
  f.fileNode :: f.symbols.map (f.symbolNode lines) ++ f.modules.map moduleNode

/-- What contains what, and which modules are imported. -/
def edges (f : FileGraph) : List Edge :=
  f.symbols.map (fun s => { source := f.containerOf s, target := f.idOf s, kind := .contains }) ++
    f.modules.map fun i =>
      { source := fileId f.path, target := (moduleNode i).id, kind := .imports
        metadata := [("line", toString i.line)] }

/-- The node from which a link starts: a symbol of the file, or the file. -/
def sourceOf (f : FileGraph) (l : Link) : String :=
  ((f.qualified? l.source).or (f.onlyNamed? (bareName l.source))).getD (fileId f.path)

end FileGraph

def EdgeKind.ofLink : LinkKind → EdgeKind
  | .calls => .calls
  | .inherits => .inherits
  | .implements => .implements
  | .composition => .composition

end CodeIndex.Graph
