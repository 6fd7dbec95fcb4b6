import CodeIndex.Extraction
import CodeIndex.LinePattern.Parser

/-!
# Reading line by line

Where no tree serves, declarations and imports are recognised on single lines. A function indented
under a class is a method of it; the class stays open until a line is indented no deeper than it.
-/

namespace CodeIndex.LineReading

/-- The written patterns for declarations with the kinds they declare, the first that fits wins. -/
def declarationTexts : List (String × String) := [
  ("^\\s*class\\s+(\\w+)\\s*[:(]", "class"),
  ("^\\s*(?:async\\s+)?def\\s+(\\w+)\\s*\\(", "function"),
  ("(?:export\\s+)?(?:public\\s+|private\\s+|protected\\s+)?(?:abstract\\s+)?class\\s+([A-Z][a-zA-Z0-9_]*)",
    "class"),
  ("(?:export\\s+)?interface\\s+([A-Z][a-zA-Z0-9_]*)", "interface"),
  ("(?:pub\\s+)?struct\\s+([A-Z][a-zA-Z0-9_]*)", "struct"),
  ("(?:export\\s+)?type\\s+([A-Z][a-zA-Z0-9_]*)\\s*[=<]", "type"),
  ("(?:export\\s+)?(?:pub\\s+)?enum\\s+([A-Z][a-zA-Z0-9_]*)", "enum"),
  ("(?:pub\\s+)?trait\\s+([A-Z][a-zA-Z0-9_]*)", "trait"),
  ("(?:defmodule|module)\\s+([A-Z][a-zA-Z0-9_:]*)", "module"),
  ("^\\s*(?:pub(?:\\([^)]*\\))?\\s+)?(?:async\\s+)?fn\\s+([a-z_][a-zA-Z0-9_]*)", "function"),
  ("^func\\s+(?:\\([^)]+\\)\\s+)?([a-zA-Z_][a-zA-Z0-9_]*)", "function"),
  ("^\\s*(?:export\\s+)?(?:async\\s+)?function\\s*\\*?\\s*([a-zA-Z_$][\\w$]*)\\s*\\(", "function"),
  ("(?:export\\s+)?(?:default\\s+)?const\\s+([A-Z][a-zA-Z0-9_]*)\\s*=", "component")]

/-- The written patterns for imports of languages that have none of their own. -/
def importTexts : List String := [
  "^\\s*from\\s+([\\w.]+)\\s+import\\b",
  "^\\s*import\\s+([\\w.]+(?:\\s*,\\s*[\\w.]+)*)\\s*$",
  "import\\s+.*?from\\s+['\"]([^'\"]+)['\"]",
  "require\\s*\\(['\"]([^'\"]+)['\"]\\)",
  "^\\s*use\\s+([a-zA-Z_][a-zA-Z0-9_:]*)"]

def declarationPatterns : List (LinePattern × String) :=
  declarationTexts.filterMap fun (text, kind) => (LinePattern.parse? text).map (·, kind)

def importPatterns : List LinePattern :=
  importTexts.filterMap LinePattern.parse?

/-- What a line declares. -/
structure Declaration where
  name : String
  kind : String
  deriving DecidableEq, Repr

def declarationOf (line : List Char) : Option Declaration :=
  declarationPatterns.findSome? fun (p, kind) =>
    (p.capture? line).map fun name => ⟨String.ofList name, kind⟩

/-- The octets of the blanks in front of a line. -/
def indentOf (line : List Char) : Nat :=
  ((line.takeWhile Text.isBlank).map Char.utf8Size).foldr (· + ·) 0

/-- A class whose members may follow, with its indentation. -/
structure OpenClass where
  name : String
  indent : Nat
  deriving DecidableEq, Repr

/-- The open class in front of a line, which a line that is no deeper closes. -/
def stillOpen (openClass : Option OpenClass) (line : List Char) : Option OpenClass :=
  if line.all Text.isBlank then openClass
  else openClass.filter fun c => c.indent < indentOf line

/-- The symbol that a declaration on a line is under an open class. -/
def symbolOf (file : String) (lineNumber : Nat) (openClass : Option OpenClass) (d : Declaration) : Symbol :=
  let parent := openClass.map (·.name)
  { name := d.name
    kind := if d.kind = "function" && parent.isSome then "method" else d.kind
    file, startLine := lineNumber, endLine := lineNumber
    parent := if d.kind = "class" then none else parent }

/-- The declared symbols of lines, with `declares` telling what each line declares. -/
def symbolsFrom (declares : List Char → Option Declaration) (file : String) :
    (lineNumber : Nat) → Option OpenClass → List (List Char) → List Symbol
  | _, _, [] => []
  | n, openClass, line :: rest =>
    let current := stillOpen openClass line
    match declares line with
    | none => symbolsFrom declares file (n + 1) current rest
    | some d =>
      let next := if d.kind = "class" then some ⟨d.name, indentOf line⟩ else current
      symbolOf file n current d :: symbolsFrom declares file (n + 1) next rest

/-- The names in an import: parted by commas, each without what it is renamed to. -/
def importNames (captured : List Char) : List String :=
  (Text.splitAt ',' captured).filterMap fun part =>
    let bare := match Text.cutChars? " as ".toList part with
      | some (front, _) => front
      | none => part
    let name := Text.trimChars bare
    if name.isEmpty || name.head? = some '(' then none else some (String.ofList name)

/-- The imports of lines that declare nothing. -/
def importsFrom (declares : List Char → Option Declaration) (patterns : List LinePattern) :
    (lineNumber : Nat) → List (List Char) → List Import
  | _, [] => []
  | n, line :: rest =>
    let own := if (declares line).isSome then []
      else patterns.flatMap fun p => (p.captureAll line).flatMap fun c => (importNames c).map (⟨·, n⟩)
    own ++ importsFrom declares patterns (n + 1) rest

/-- The import patterns of a language, or the general ones when it has none. -/
def patternsOf (language : Option Language) : List LinePattern :=
  let own := (language.map (·.importPatterns)).getD [] |>.filterMap LinePattern.parse?
  if own.isEmpty then importPatterns else own

/-- Symbols and imports recognised line by line. -/
def read (file content : String) (language : Option Language) : List Symbol × List Import :=
  let lines := Text.lineChars content.toList
  (symbolsFrom declarationOf file 1 none lines, importsFrom declarationOf (patternsOf language) 1 lines)

end CodeIndex.LineReading
