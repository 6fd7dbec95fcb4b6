import CodeIndex.Text.Casing

/-!
# Tiers

Which stages of enrichment exist for a language. A language that the table does not list has a parser
and nothing else.
-/

namespace CodeIndex

inductive Tier where
  /-- A parser, and a native reading of the tree or a language server or both. -/
  | first
  /-- A parser and a language server. -/
  | second
  /-- A parser only. -/
  | third
  deriving DecidableEq, Repr

def Tier.text : Tier → String
  | .first => "tier1"
  | .second => "tier2"
  | .third => "tier3"

def Tier.all : List Tier := [.first, .second, .third]

/-- The stages that exist for one language. -/
structure Support where
  tier : Tier := .third
  hasParser : Bool := true
  hasNativeTree : Bool := false
  hasServer : Bool := false
  /-- Good results depend on the language server. -/
  needsEnrichment : Bool := false
  deriving DecidableEq, Repr

/-- Whether a language server is worth asking. -/
def Support.recommendsServer (s : Support) : Bool :=
  s.hasServer && (s.tier = .first || s.tier = .second)

namespace Tier

def thirdTier : List String := [
  "ruby", "php", "csharp", "swift", "kotlin", "scala", "lua", "perl", "r", "julia", "elixir",
  "haskell", "ocaml", "bash", "sql", "yaml", "json", "toml", "html", "css", "markdown", "vue",
  "svelte", "zig", "nim", "dart", "clojure", "erlang", "terraform", "dockerfile", "make"]

/-- The languages of the table with what exists for each. -/
def table : List (String × Support) :=
  [("python", { tier := .first, hasNativeTree := true, hasServer := true })] ++
  ["typescript", "javascript", "tsx", "jsx"].map
    (·, { tier := .first, hasServer := true, needsEnrichment := true }) ++
  ["go", "rust", "java", "c", "cpp"].map (·, { tier := .second, hasServer := true }) ++
  thirdTier.map fun n => (n, ({} : Support))

def aliases : List (String × String) := [
  ("py", "python"), ("python3", "python"), ("ts", "typescript"), ("js", "javascript"),
  ("golang", "go"), ("rs", "rust"), ("c++", "cpp"), ("cs", "csharp"), ("c#", "csharp"),
  ("sh", "bash"), ("shell", "bash"), ("zsh", "bash"), ("yml", "yaml"), ("md", "markdown"),
  ("rb", "ruby"), ("kt", "kotlin")]

/-- The lower-case name under which the table lists a language. -/
def canonical (name : String) : String :=
  let name := Text.lower name
  (aliases.lookup name).getD name

def find? (name : String) : Option Support :=
  table.lookup (canonical name)

def support (name : String) : Support :=
  (find? name).getD {}

/-- Whether the table lists the language. -/
def lists (name : String) : Bool :=
  (find? name).isSome

/-- The languages of a tier, sorted. -/
def languages (t : Tier) : List String :=
  ((table.filter (·.2.tier = t)).map (·.1)).mergeSort (· ≤ ·)

def count (t : Tier) : Nat :=
  table.countP (·.2.tier = t)

end Tier

end CodeIndex
