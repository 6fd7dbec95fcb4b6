import CodeIndex.Error
import CodeIndex.Language.Catalog
import CodeIndex.Language.Tier

/-!
# The registry of languages

Languages in the order of their first registration, with an index from names and aliases and one from
extensions. A canonical name goes before every alias, and of equal aliases or extensions the one of the
earliest language counts.
-/

namespace CodeIndex

/-- From keys to places in the list of languages. -/
abbrev KeyIndex := List (String × Nat)

namespace KeyIndex

/-- Sets the place of a key. -/
def set (key : String) (place : Nat) : KeyIndex → KeyIndex
  | [] => [(key, place)]
  | (k, p) :: rest => if k = key then (k, place) :: rest else (k, p) :: set key place rest

/-- Sets the place of a key that has none. -/
def setNew (key : String) (place : Nat) (index : KeyIndex) : KeyIndex :=
  if (index.lookup key).isSome then index else index ++ [(key, place)]

/-- Sets the place of every key that has none. -/
def setAllNew (keys : List String) (place : Nat) (index : KeyIndex) : KeyIndex :=
  keys.foldl (fun index key => setNew key place index) index

end KeyIndex

structure Registry where
  /-- In the order of their first registration. -/
  languages : List Language := []
  names : KeyIndex := []
  extensions : KeyIndex := []
  deriving Inhabited

namespace Registry

def empty : Registry := {}

/-- Both indexes built anew: all names first, then aliases and extensions. -/
def reindex (languages : List Language) : Registry :=
  let placed := languages.zipIdx
  let names := placed.foldl (fun index (l, i) => KeyIndex.set l.name i index) []
  { languages
    names := placed.foldl (fun index (l, i) => KeyIndex.setAllNew l.aliases i index) names
    extensions := placed.foldl (fun index (l, i) => KeyIndex.setAllNew l.extensions i index) [] }

/-- Adds a language at the end, or puts it in the place of the one with its name. -/
def register (r : Registry) (language : Language) (extensions aliases : List String) : Registry :=
  let language := { language with name := Text.lower language.name }.extended extensions aliases
  match r.languages.findIdx? (·.name = language.name) with
  | some i => reindex (r.languages.set i language)
  | none =>
    let i := r.languages.length
    { languages := r.languages ++ [language]
      names := KeyIndex.setAllNew language.aliases i (KeyIndex.set language.name i r.names)
      extensions := KeyIndex.setAllNew language.extensions i r.extensions }

/-- Removes a language by name or alias; none where there is no such language. -/
def unregister? (r : Registry) (name : String) : Option Registry :=
  (r.names.lookup (Text.lower name)).map fun i => reindex (r.languages.eraseIdx i)

/-- Every built-in language. -/
def builtin : Registry :=
  Catalog.languages.foldl (fun r l => r.register l [] []) empty

def lookup? (r : Registry) (name : String) : Option Language :=
  (r.names.lookup (Text.lower name)).bind (r.languages[·]?)

def has (r : Registry) (name : String) : Bool :=
  (r.names.lookup (Text.lower name)).isSome

/-- The canonical names, sorted. -/
def listNames (r : Registry) : List String :=
  (r.languages.map (·.name)).mergeSort (· ≤ ·)

/-- The known extensions, sorted. -/
def listExtensions (r : Registry) : List String :=
  (r.extensions.map (·.1)).mergeSort (· ≤ ·)

def get (r : Registry) (name : String) : Except IndexError Language :=
  match r.lookup? name with
  | some l => .ok l
  | none => .error (.unknownLanguage name r.listNames)

/-- The earliest language that lists the extension of a path. -/
def byExtension? (r : Registry) (path : String) : Option Language :=
  ((Language.extensionOf? path).bind fun ext => r.extensions.lookup ext).bind (r.languages[·]?)

/-- The language of a file: by extension, by file name, and last by its first line, which is there only
for a file that can be read. -/
def detect? (r : Registry) (path : String) (firstLine : Option String) : Option Language :=
  (r.byExtension? path).or <|
    (r.languages.find? (·.hasFilename path)).or <|
      r.languages.find? (·.matchesPath path firstLine)

/-- The outcome of a detection by content. -/
structure Detection where
  language : String
  confidence : Single
  deriving DecidableEq, Repr

/-- The better of two languages: the one so far, unless the other has a greater score. Without one so far, the
score has to be above zero. -/
def better (best : Option (Language × Single)) (l : Language) (score : Single) : Option (Language × Single) :=
  match best with
  | some (_, s) => if Single.lt s score then some (l, score) else best
  | none => if Single.lt .zero score then some (l, score) else none

/-- The first language with the greatest score above the one given. -/
def bestScore (content : String) (filename : Option String) (best : Option (Language × Single))
    (languages : List Language) : Option (Language × Single) :=
  languages.foldl (fun best l => better best l (l.contentScore content filename)) best

/-- The language of a text. A known extension of `filename` decides; otherwise the languages are
scored, and a score below that of an interpreter line is no detection. -/
def detectContent? (r : Registry) (content : String) (filename : Option String) : Option Detection :=
  match filename.bind r.byExtension? with
  | some l => some ⟨l.name, .one⟩
  | none =>
    match bestScore content filename none r.languages with
    | some (l, score) => if Single.lt score Language.shebangWeight then none else some ⟨l.name, score⟩
    | none => none

/-- What exists for a language, whose aliases are resolved here first. -/
def support (r : Registry) (name : String) : Support :=
  Tier.support (((r.lookup? name).map (·.name)).getD name)

def isConfig (r : Registry) (name : String) : Bool :=
  ((r.lookup? name).map (·.isConfig)).getD false

/-- Whether a language has a grammar and defines symbols. -/
def supports (r : Registry) (name : String) : Bool :=
  match r.lookup? name with
  | some l => l.hasGrammar && !l.rules.symbols.isEmpty
  | none => false

end Registry

end CodeIndex
