import CodeIndex.Enrichment.Hover
import CodeIndex.Enrichment.PythonTree
import CodeIndex.Extraction

/-!
# Enriched symbols

Symbols with what further stages find out: the tree of a Python file, and a language server. A later
stage fills only what an earlier one left empty.
-/

namespace CodeIndex

structure EnrichedSymbol where
  symbol : Symbol
  tier : Tier
  signature : Option String := none
  returnType : Option String := none
  docstring : Option String := none
  parameters : List String := []
  decorators : List String := []
  visibility : Option String := none
  isAsync : Bool := false
  deriving DecidableEq, Repr

namespace EnrichedSymbol

def withDefinition (s : EnrichedSymbol) (d : PythonTree.Definition) : EnrichedSymbol :=
  { s with
    returnType := s.returnType.or d.returnType
    docstring := s.docstring.or d.docstring
    visibility := s.visibility.or (some d.visibility)
    parameters := if s.parameters.isEmpty then d.parameters else s.parameters
    decorators := if s.decorators.isEmpty then d.decorators else s.decorators
    isAsync := s.isAsync || d.isAsync }

def withHover (s : EnrichedSymbol) (h : HoverInfo) : EnrichedSymbol :=
  { s with
    signature := s.signature.or h.signature
    returnType := s.returnType.or h.returnType
    docstring := s.docstring.or h.docstring }

end EnrichedSymbol

/-- Everything one file yields, its symbols enriched. -/
structure FileExtraction where
  language : String
  support : Support
  symbols : List EnrichedSymbol
  links : List Link
  imports : List Import
  syntaxError : Option Nat
  deriving DecidableEq, Repr

/-- What trees tell about a text: the queries of its language and, for Python, its definitions. -/
def extractSource (r : Registry) (g : Grammars) (file language text : String) : FileExtraction :=
  let support := r.support language
  let canonical := ((r.lookup? language).map (·.name)).getD (Text.lower language)
  let e := extract r g file canonical text
  let plain := e.symbols.map fun s => ({ symbol := s, tier := support.tier } : EnrichedSymbol)
  let symbols :=
    match if support.hasNativeTree && canonical = "python" then g.parse canonical text else none with
    | none => plain
    | some root =>
      let source := Source.ofString text
      plain.map fun s =>
        match PythonTree.find? source root s.symbol.name s.symbol.startLine with
        | some d => s.withDefinition d
        | none => s
  { language := canonical, support, symbols, links := e.links, imports := e.imports, syntaxError := e.syntaxError }

namespace Hover

/-- The column in the middle of a name on its line, in octets. -/
def columnOf (line : List Char) (name : String) : Nat :=
  let start := match Text.cutChars? name.toList line with
    | some (before, _) => (before.map Char.utf8Size).foldr (· + ·) 0
    | none => 0
  start + name.utf8ByteSize / 2

/-- Asks about each symbol in turn; one about which nothing is said stays as it is. -/
def enrichFrom (h : HoverSource) (file : String) (lines : Array (List Char)) :
    List HoverCall → List EnrichedSymbol → List EnrichedSymbol × List HoverCall
  | asked, [] => ([], asked)
  | asked, s :: rest =>
    let line := s.symbol.startLine - 1
    let call := HoverCall.hover file line (columnOf (lines.getD line []) s.symbol.name)
    let own := match h.reply asked call with
      | .text t => s.withHover (parse t)
      | .nothing | .failed => s
    let (others, asked) := enrichFrom h file lines (asked ++ [call]) rest
    (own :: others, asked)

/-- Opens a file with a language server, asks about its symbols and closes it. A file that cannot be
opened is left as it is. -/
def enrich (h : HoverSource) (file text : String) (asked : List HoverCall) (symbols : List EnrichedSymbol) :
    List EnrichedSymbol × List HoverCall :=
  let opening := HoverCall.openDocument file text.utf8ByteSize
  if h.reply asked opening = .failed then (symbols, asked ++ [opening])
  else
    let (symbols, asked) := enrichFrom h file (Text.lineChars text.toList).toArray (asked ++ [opening]) symbols
    (symbols, asked ++ [.closeDocument file])

end Hover

/-- `extractSource`, and a language server's word where one is at hand and the tier has use for it. -/
def extractWithHover (r : Registry) (g : Grammars) (hover : Option HoverSource) (asked : List HoverCall)
    (file language text : String) : FileExtraction × List HoverCall :=
  let e := extractSource r g file language text
  match hover with
  | some h =>
    if e.support.recommendsServer && !e.symbols.isEmpty then
      let (symbols, asked) := Hover.enrich h file text asked e.symbols
      ({ e with symbols }, asked)
    else (e, asked)
  | none => (e, asked)

/-- The enriched symbols of a file. Without a given language the path decides, and a file of no language
has none; without a given text the file is read. -/
def enrichedSymbols (r : Registry) (g : Grammars) (hover : Option HoverSource)
    (read : String → Except IndexError String) (path : String) (language text : Option String) :
    Except IndexError (List EnrichedSymbol × List HoverCall) :=
  match language.or ((r.detect? path none).map (·.name)) with
  | none => .ok ([], [])
  | some language => do
    let text ← match text with
      | some t => pure t
      | none => read path
    let (e, asked) := extractWithHover r g hover [] path language text
    return (e.symbols, asked)

end CodeIndex
