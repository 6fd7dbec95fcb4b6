import CodeIndex.Disk
import CodeIndex.Distinct
import CodeIndex.Language.Registry
import CodeIndex.Text.Utf8
import CodeIndex.Tree.Cursor

/-!
# Extraction

What the queries of a language find in a syntax tree: symbols, links between names, references and
imports. No rule looks at a language's name; a query that is absent, or that its grammar refuses, finds
nothing.
-/

namespace CodeIndex

structure Symbol where
  name : String
  kind : String
  file : String
  /-- From 1. -/
  startLine : Nat
  /-- Inclusive, not before the first line. -/
  endLine : Nat
  /-- The class around it. -/
  parent : Option String
  deriving DecidableEq, Repr, Inhabited

/-- `Parent.name` for a member, otherwise the name. -/
def Symbol.qualifiedName (s : Symbol) : String :=
  match s.parent with
  | some parent => parent ++ "." ++ s.name
  | none => s.name

/-- By line, then by name. -/
def Symbol.le (a b : Symbol) : Bool :=
  a.startLine < b.startLine || (a.startLine = b.startLine && a.name ≤ b.name)

inductive LinkKind where
  | calls
  | inherits
  | implements
  | composition
  deriving DecidableEq, Repr

def LinkKind.text : LinkKind → String
  | .calls => "CALLS"
  | .inherits => "INHERITS"
  | .implements => "IMPLEMENTS"
  | .composition => "COMPOSITION"

/-- A relationship between two names that are not resolved yet. -/
structure Link where
  source : String
  target : String
  kind : LinkKind
  file : String
  line : Nat
  deriving DecidableEq, Repr

structure Reference where
  name : String
  file : String
  line : Nat
  /-- From 0. -/
  column : Nat
  scope : Option String
  deriving DecidableEq, Repr

structure Import where
  name : String
  line : Nat
  deriving DecidableEq, Repr

structure Extraction where
  symbols : List Symbol := []
  links : List Link := []
  references : List Reference := []
  imports : List Import := []
  /-- The line of the first syntax error. -/
  syntaxError : Option Nat := none
  deriving DecidableEq, Repr, Inhabited

/-- What turns a text into a syntax tree, by the canonical name of its language, and finds the matches of a query
there. -/
structure Grammars where
  parse : (language text : String) → Option Tree.Node
  run : Tree.Query → Source → Tree.Node → List Tree.Match := Tree.Query.run

/-- A file with its tree. -/
structure Parsed where
  file : String
  language : Language
  source : Source
  root : Tree.Node
  run : Tree.Query → Source → Tree.Node → List Tree.Match := Tree.Query.run

namespace Parsed

open CodeIndex.Tree

/-- The matches of a query in the tree, none where there is no query. -/
def found (p : Parsed) (q : Option Query) : List Match :=
  match q with
  | some q => p.run q p.source p.root
  | none => []

/-! ## Scopes -/

/-- The name of a scope: its field's text up to the first angle bracket. -/
def scopeName (p : Parsed) (n : Node) (field : String) : Option String :=
  (n.child? field).bind fun c =>
    let bare := Text.trimChars ((c.text p.source).toList.takeWhile (· != '<'))
    if bare.isEmpty then none else some (String.ofList bare)

def isClassScope (p : Parsed) (n : Node) : Bool :=
  p.language.rules.classScopes.contains n.kind

/-- The name a node gives to the scope that it opens. -/
def openedScope (p : Parsed) (n : Node) : Option String :=
  (p.language.rules.scopes.lookup n.kind).bind (p.scopeName n)

/-- The nearest function and the nearest class around a node, as `Class.function`, `function` or
`Class`. -/
def enclosingScope (p : Parsed) (l : Located) : Option String :=
  let function := l.ancestors.findSome? fun n => if p.isClassScope n then none else p.openedScope n
  let owner := l.ancestors.findSome? fun n => if p.isClassScope n then p.openedScope n else none
  match function, owner with
  | some f, some c => some (c ++ "." ++ f)
  | some f, none => some f
  | none, c => c

/-- The name of the nearest class around a definition. -/
def enclosingClass (p : Parsed) (l : Located) : Option String :=
  l.ancestors.findSome? fun n =>
    if p.isClassScope n then p.scopeName n ((p.language.rules.scopes.lookup n.kind).getD "name") else none

/-! ## Symbols -/

/-- The symbol of a match, if it captures a name that is not empty. -/
def symbolOf (p : Parsed) (kind : String) (m : Match) : Option Symbol :=
  (m.get? .name).bind fun named =>
    let definition := (m.get? .definition).getD named
    let name := named.node.text p.source
    if name = "" then none
    else
      let parent := p.enclosingClass definition
      let startLine := definition.node.startLine p.source
      some {
        name, parent, startLine
        file := p.file
        kind := if kind = "function" && parent.isSome then "method" else kind
        endLine := max (definition.node.stopLine p.source) startLine }

def symbols (p : Parsed) : List Symbol :=
  let hits := p.language.rules.symbols.flatMap fun rule =>
    (p.found (some rule.query)).filterMap (p.symbolOf rule.kind)
  (firstsBy (fun s : Symbol => (s.name, s.startLine)) hits).mergeSort Symbol.le

/-! ## Links, references and imports -/

def callLinks (p : Parsed) : List Link :=
  (p.found (p.language.rules.relation .calls)).flatMap fun m =>
    (m.all .callee).filterMap fun l =>
      let target := l.node.text p.source
      if target = "" then none
      else (p.enclosingScope l).map fun source =>
        { source, target, kind := .calls, file := p.file, line := l.node.startLine p.source }

/-- The links of a query that captures both ends in one match. -/
def pairLinks (p : Parsed) (relation : Relation) (source target : Capture) (kind : LinkKind) : List Link :=
  let hits := (p.found (p.language.rules.relation relation)).flatMap fun m =>
    match m.get? source with
    | none => []
    | some l =>
      let source := l.node.text p.source
      let line := l.node.startLine p.source
      (m.all target).filterMap fun t =>
        let target := t.node.text p.source
        if source = "" || target = "" then none else some { source, target, kind, file := p.file, line }
  firstsBy (fun l : Link => (l.source, l.target, l.line)) hits

def links (p : Parsed) : List Link :=
  p.callLinks ++ p.pairLinks .inheritance .child .base .inherits ++
    p.pairLinks .implements .child .contract .implements ++
    p.pairLinks .composition .owner .part .composition

def references (p : Parsed) : List Reference :=
  let hits := (p.found (p.language.rules.relation .references)).flatMap fun m =>
    (m.all .name).map fun l =>
      { name := l.node.text p.source, file := p.file, line := l.node.startLine p.source
        column := p.source.column l.node.start, scope := p.enclosingScope l : Reference }
  let kept := (firstsBy (fun r : Reference => (r.line, r.column)) hits).filter (·.name != "")
  kept.mergeSort fun a b => a.line < b.line || (a.line = b.line && a.column ≤ b.column)

def isQuote (c : Char) : Bool :=
  c == '"' || c == '\'' || c.toNat == 0x60

def imports (p : Parsed) : List Import :=
  (p.found (p.language.rules.relation .imports)).flatMap fun m =>
    (m.all .module).filterMap fun l =>
      let name := Text.stripBoth isQuote (l.node.text p.source)
      if name = "" then none else some { name, line := l.node.startLine p.source }

end Parsed

/-- Everything the queries find in one text. Without a language, a grammar or a tree there is nothing. -/
def extract (r : Registry) (g : Grammars) (file language text : String) : Extraction :=
  match r.lookup? language with
  | none => {}
  | some lang =>
    if !lang.hasGrammar then {}
    else match g.parse lang.name text with
      | none => {}
      | some root =>
        let p : Parsed := { file, language := lang, source := .ofString text, root, run := g.run }
        { symbols := p.symbols
          links := p.links
          references := p.references
          imports := p.imports
          syntaxError := Tree.errorLine p.source root }

/-- Everything the queries find in a file on disk, which `root` precedes in its path. Without a given
language the path decides, and a file of no language is not read. Faulty octets are replaced. -/
def extractFile (r : Registry) (g : Grammars) (d : Disk) (root path : String)
    (language : Option String) : Except IndexError Extraction :=
  let full := Path.join root path
  let firstLine := ((d.read path).toOption).bind firstLine?
  match language.or ((r.detect? full firstLine).map (·.name)) with
  | none => .ok {}
  | some language =>
    match d.read path with
    | .ok octets => .ok (extract r g full language (Text.Utf8.decodeLossy octets))
    | .error refusal => .error (.io refusal.message)

/-- The symbols and links of a file on disk. -/
def extractAll (r : Registry) (g : Grammars) (d : Disk) (root path : String) (language : Option String) :
    Except IndexError (List Symbol × List Link) :=
  (extractFile r g d root path language).map fun e => (e.symbols, e.links)

end CodeIndex
