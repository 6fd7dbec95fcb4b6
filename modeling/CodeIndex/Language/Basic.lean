import CodeIndex.Numeric.Single
import CodeIndex.Path
import CodeIndex.Text.Blank
import CodeIndex.Text.Casing
import CodeIndex.Tree.Pattern

/-!
# Languages

Everything that varies between languages is data: names, file names, interpreter names, tree queries
and line patterns. A path belongs to a language by its extension, by its whole name, or by the
interpreter line it starts with.
-/

namespace CodeIndex

/-- A query for definitions and the kind of symbol that it finds. -/
structure SymbolRule where
  kind : String
  query : Tree.Query
  deriving Inhabited

/-- The relations between nodes that a language can describe. -/
inductive Relation where
  | calls
  | references
  | inheritance
  | implements
  | composition
  | imports
  deriving DecidableEq, Repr

namespace Relation

def name : Relation → String
  | .calls => "calls"
  | .references => "references"
  | .inheritance => "inheritance"
  | .implements => "implements"
  | .composition => "composition"
  | .imports => "imports"

def all : List Relation :=
  [.calls, .references, .inheritance, .implements, .composition, .imports]

end Relation

/-- What a language tells about its syntax trees. An absent query means an absent capability. -/
structure Rules where
  symbols : List SymbolRule := []
  relation : Relation → Option Tree.Query := fun _ => none
  /-- Node kinds that open a named scope, with the field that names it. -/
  scopes : List (String × String) := []
  /-- Node kinds whose scope is that of a class. -/
  classScopes : List String := []
  deriving Inhabited

def Rules.isEmpty (r : Rules) : Bool :=
  r.symbols.isEmpty && Relation.all.all fun k => (r.relation k).isNone

/-- The relations that have a query. -/
def Rules.present (r : Rules) : List Relation :=
  Relation.all.filter fun k => (r.relation k).isSome

/-- Changes to what a language tells about its trees. -/
structure RulesEdit where
  classScopes : Option (List String) := none
  scopes : Option (List (String × String)) := none
  /-- The symbol rules to keep, by place, in that order. -/
  keptSymbols : Option (List Nat) := none
  /-- Of those, the ones whose query the grammar shall refuse. -/
  brokenSymbols : List Nat := []
  /-- Relations without a query. -/
  dropped : List String := []
  /-- Relations whose query the grammar shall refuse. -/
  broken : List String := []
  /-- Relations whose query captures nothing of use. -/
  uncaptured : List String := []

/-- A query that no grammar accepts. -/
def Tree.Query.refused : Tree.Query := { patterns := [], compiles := false }

/-- A query that captures only what nobody looks for. -/
def Tree.Query.idle : Tree.Query := { patterns := [(Tree.Pattern.node "identifier").as .other] }

def Rules.edited (r : Rules) (e : RulesEdit) : Rules :=
  let kept := match e.keptSymbols with
    | some places => places.filterMap (r.symbols[·]?)
    | none => r.symbols
  { symbols := kept.zipIdx.map fun (s, i) =>
      if e.brokenSymbols.contains i then { s with query := .refused } else s
    relation := fun k =>
      if e.uncaptured.contains k.name then some .idle
      else if e.broken.contains k.name then some .refused
      else if e.dropped.contains k.name then none
      else r.relation k
    scopes := e.scopes.getD r.scopes
    classScopes := e.classScopes.getD r.classScopes }

structure Language where
  name : String
  displayName : String
  aliases : List String := []
  /-- Lower case, with a leading dot. -/
  extensions : List String := []
  filenames : List String := []
  /-- Interpreters looked for on the first line. -/
  shebangs : List String := []
  lineComment : Option String := none
  blockComment : Option (String × String) := none
  server : Option String := none
  hasGrammar : Bool := false
  rules : Rules := {}
  /-- Line patterns with one group, used where no tree is to be had. -/
  importPatterns : List String := []
  isConfig : Bool := false
  deriving Inhabited

namespace Language

/-- Lower case, with a dot in front. -/
def dotted (ext : String) : String :=
  let ext := Text.lower ext
  if Text.startsWith ext "." then ext else "." ++ ext

/-- The extension of a path in the form in which languages list theirs. -/
def extensionOf? (path : String) : Option String :=
  (Path.extension? path).map dotted

/-- The same language with its keys in the form in which they are looked up. -/
def normalized (l : Language) : Language :=
  { l with
    name := Text.lower l.name
    aliases := l.aliases.map Text.lower
    extensions := l.extensions.map dotted }

/-- Adds the extensions and aliases that are not there yet. -/
def extended (l : Language) (extensions aliases : List String) : Language :=
  let add (xs : List String) (x : String) := if xs.contains x then xs else xs ++ [x]
  { l with
    extensions := (extensions.map dotted).foldl add l.extensions
    aliases := (aliases.map Text.lower).foldl add l.aliases }

def hasExtension (l : Language) (path : String) : Bool :=
  match extensionOf? path with
  | some ext => l.extensions.contains ext
  | none => false

def hasFilename (l : Language) (path : String) : Bool :=
  match Path.fileName? path with
  | some name => l.filenames.contains name
  | none => false

/-- The words of an interpreter line, cut at blanks and slashes. -/
def interpreterWords (line : List Char) : List (List Char) :=
  Text.fields (fun c => Text.isBlank c || c == '/') line

/-- The word is the interpreter's name, perhaps followed by a version. -/
def namesInterpreter (word interpreter : List Char) : Bool :=
  match Text.dropFront? interpreter word with
  | some version => version.all fun c => c.isDigit || c == '.'
  | none => false

/-- The line is an interpreter line that names an interpreter of the language. -/
def matchesShebang (l : Language) (line : String) : Bool :=
  match line.toList with
  | '#' :: '!' :: rest =>
    l.shebangs.any fun s => (interpreterWords rest).any (namesInterpreter · s.toList)
  | _ => false

/-- Whether a path belongs to the language. `firstLine` is the first line of the file, where there is a
file that can be read. -/
def matchesPath (l : Language) (path : String) (firstLine : Option String) : Bool :=
  l.hasExtension path || l.hasFilename path ||
    match firstLine with
    | some line => l.matchesShebang line
    | none => false

/-- The weight of an extension or a file name among the signs of a language. -/
def nameWeight : Single := ⟨0x3f000000⟩

/-- The weight of an interpreter line. -/
def shebangWeight : Single := ⟨0x3e99999a⟩

/-- How sure it is, between 0 and 1, that a text is written in the language. -/
def contentScore (l : Language) (content : String) (filename : Option String) : Single :=
  let fromExtension := (filename.map l.hasExtension).getD false
  let fromName := (filename.map l.hasFilename).getD false
  let fromShebang := Text.startsWith content "#!" && l.matchesShebang ((Text.lines content).headD "")
  let add (score weight : Single) (sign : Bool) := if sign then score.add weight else score
  let score := add (add (add .zero nameWeight fromExtension) nameWeight fromName) shebangWeight fromShebang
  if Single.lt .one score then .one else score

end Language

/-- The first line of a file, without blanks at its end. None where it is no text. -/
def firstLine? (octets : List UInt8) : Option String :=
  let line := octets.takeWhile (· != 10)
  (String.fromUTF8? ⟨line.toArray⟩).map Text.trimEnd

end CodeIndex
