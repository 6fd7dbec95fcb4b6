import CodeIndex.Path
import CodeIndex.Text.Casing

/-!
# What names tell

The architectural category of a symbol by words in its name, the names of base classes, and the type of
a file by its extension.
-/

namespace CodeIndex

namespace Category

/-- Categories with their words; the first that fits wins. -/
def words : List (String × List String) := [
  ("provider", ["Provider", "Backend", "Client", "Connector", "Adapter", "Gateway"]),
  ("service", ["Service", "UseCase", "Interactor", "Manager", "Facade"]),
  ("repository", ["Repository", "Store", "Cache", "DAO", "Registry"]),
  ("controller", ["Controller", "Handler", "Endpoint", "Router", "Route"]),
  ("model", ["Model", "Entity", "Schema", "DTO", "Record", "Domain"]),
  ("factory", ["Factory", "Builder", "Creator", "Producer"]),
  ("middleware", ["Middleware", "Interceptor", "Filter", "Guard", "Pipe"]),
  ("observer", ["Observer", "Listener", "Subscriber", "Watcher", "Hook"]),
  ("strategy", ["Strategy", "Policy", "Algorithm"]),
  ("component", ["Component", "Widget", "View", "Screen", "Page"]),
  ("config", ["Config", "Settings", "Options", "Preferences", "Environment"]),
  ("util", ["Util", "Utils", "Helper", "Helpers", "Common"]),
  ("test", ["Test", "Spec", "Mock", "Stub", "Fake"])]

/-- The categories of key components, the most central first. -/
def priority : List String :=
  ["service", "controller", "repository", "provider", "factory", "model"]

/-- The place of a category among key components; all others come last. -/
def rank (category : String) : Nat :=
  priority.idxOf category

def ofName? (name : String) : Option String :=
  (words.find? fun (_, keys) => keys.any (Text.contains name)).map (·.1)

/-- Names that base classes and interfaces have. -/
def isAnchor (name : String) : Bool :=
  Text.startsWith name "Base" || Text.startsWith name "Abstract" ||
    match name.toList with
    | 'I' :: c :: _ => Text.isUpper c
    | _ => false

/-- The same text with its first character in upper case. -/
def title (category : String) : String :=
  match category.toList with
  | [] => ""
  | c :: rest => String.ofList (Text.upperChar c ++ rest)

end Category

inductive FileType where
  | source
  | config
  deriving DecidableEq, Repr, Inhabited

namespace FileType

def text : FileType → String
  | .source => "source"
  | .config => "config"

def configExtensions : List String :=
  ["json", "yaml", "yml", "toml", "ini", "xml", "env", "cfg", "conf"]

def ofPath (path : String) : FileType :=
  match Path.extension? path with
  | some ext => if configExtensions.contains (ext.map Char.toLower) then .config else .source
  | none => .source

end FileType

end CodeIndex
