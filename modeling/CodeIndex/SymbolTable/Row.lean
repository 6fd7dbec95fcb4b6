import CodeIndex.Digest.Blake3
import CodeIndex.Extraction
import CodeIndex.SymbolTable.Category
import CodeIndex.Text.Letters

/-!
# Rows of the symbol table

What is kept of a symbol: besides its place, what its first line and the line above it tell.
-/

namespace CodeIndex

structure SymbolRow where
  name : String
  kind : String
  file : String
  line : Nat
  language : String
  category : Option String
  docstring : Option String
  signature : Option String
  parent : Option String
  modifiers : List String
  isExported : Bool
  contentHash : String
  deriving DecidableEq, Repr, Inhabited

/-- How a symbol was recognised. -/
inductive Recognition where
  | tree
  | line
  deriving DecidableEq, Repr

def Recognition.text : Recognition → String
  | .tree => "treesitter_extracted"
  | .line => "regex_extracted"

namespace SymbolRow

/-- Words of a declaration with the modifiers they stand for. -/
def modifierWords : List (String × String) := [
  ("export", "export"), ("pub", "public"), ("public", "public"), ("private", "private"),
  ("protected", "protected"), ("async", "async"), ("static", "static"), ("abstract", "abstract")]

/-- Marks that open a comment, the longer ones before those they start with. -/
def commentMarks : List String :=
  ["///", "//!", "/**", "/*", "//", "#", "\"\"\"", "'''", "--"]

/-- The longest text that is kept of a line. -/
def maxText : Nat := 200

def isWordPart (c : Char) : Bool :=
  Text.isAlphanumeric c || c == '_'

def hasWord (line : List Char) (word : String) : Bool :=
  (Text.fields (!isWordPart ·) line).contains word.toList

/-- Removes a closing mark from the end as often as it stands there. -/
def stripClosing (fuel : Nat) (cs : List Char) : List Char :=
  match fuel with
  | 0 => cs
  | fuel + 1 =>
    match Text.dropBack? ['*', '/'] cs with
    | some rest => stripClosing fuel rest
    | none => cs

def clipped (cs : List Char) : String :=
  String.ofList (cs.take maxText)

/-- The text of a comment line. -/
def commentText (line : List Char) : Option String :=
  let line := Text.trimChars line
  (commentMarks.findSome? fun m => Text.dropFront? m.toList line).bind fun rest =>
    let doc := Text.trimChars (stripClosing rest.length rest)
    if doc.isEmpty then none else some (clipped doc)

/-- How a language tells which symbols others may use. -/
inductive Visibility where
  /-- Unless the name starts with an underscore. -/
  | underscore
  /-- If the name starts with a capital. -/
  | capital
  /-- If the declaration says so. -/
  | keyword
  /-- Always. -/
  | always
  deriving DecidableEq, Repr

def visibilityOf (language : String) : Visibility :=
  if language = "python" then .underscore
  else if language = "go" then .capital
  else if ["rust", "javascript", "typescript", "tsx", "java", "csharp", "php", "scala"].contains language then .keyword
  else .always

def isExportedBy (v : Visibility) (name : String) (line : List Char) : Bool :=
  match v with
  | .underscore => !Text.startsWith name "_"
  | .capital => (name.toList.head?.map Text.isUpper).getD false
  | .keyword => ["pub", "export", "public"].any (hasWord line)
  | .always => true

/-- The modifiers of a declaration, each once, with how it was recognised at the end. -/
def modifiersOf (name : String) (line : List Char) (how : Recognition) : List String :=
  let worded := (modifierWords.filterMap fun (word, modifier) =>
    if hasWord line word then some modifier else none).eraseDups
  let isPrivate := Text.startsWith name "_" && !Text.startsWith name "__" && !worded.contains "private"
  worded ++ (if isPrivate then ["private"] else []) ++ [how.text]

/-- The row of a symbol in a file of these lines. -/
def ofSymbol (s : Symbol) (how : Recognition) (language : String) (lines : Array (List Char)) : SymbolRow :=
  let index := s.startLine - 1
  let line := lines.getD index []
  let above := if index = 0 then none else lines[index - 1]?
  let stop := max (min s.endLine lines.size) (index + 1)
  let body := if stop ≤ lines.size then (lines.toList.drop index).take (stop - index) else []
  let trimmed := Text.trimChars line
  { name := s.name, kind := s.kind, file := s.file, line := s.startLine, language
    category := Category.ofName? s.name
    docstring := above.bind commentText
    signature := if trimmed.isEmpty then none else some (clipped trimmed)
    parent := s.parent
    modifiers := modifiersOf s.name line how
    isExported := isExportedBy (visibilityOf language) s.name line
    contentHash := Blake3.shortHash ("\n".intercalate (body.map String.ofList)).toUTF8.toList }

end SymbolRow

structure FileRow where
  path : String
  language : String
  size : Nat
  lines : Nat
  /-- Seconds since the epoch. -/
  mtime : Double
  contentHash : String
  symbolCount : Nat
  importCount : Nat
  type : FileType
  deriving DecidableEq, Repr, Inhabited

structure PatternRow where
  name : String
  type : String
  file : Option String
  symbol : Option String
  line : Option Nat
  description : String
  deriving DecidableEq, Repr, Inhabited

end CodeIndex
