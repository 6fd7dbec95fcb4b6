import CodeIndex.Chunk.Symbols

/-!
# Sections of configuration

The top-level keys of YAML and the tables of TOML part a file into sections. The first section starts
with the file.
-/

namespace CodeIndex

/-- A named range of lines. -/
structure Section where
  name : String
  first : Nat
  last : Nat
  deriving DecidableEq, Repr

namespace Section

/-- The key on a line of YAML that starts a section. -/
def yamlHead? (line : String) : Option String :=
  let cs := Text.dropBlanksEnd line.toList
  match cs with
  | [] => none
  | c :: _ =>
    if Text.isBlank c || c == '#' || c == '-' then none
    else (Text.cutChars? [':'] cs).bind fun (key, _) =>
      let key := Text.stripBoth (fun c => c == '"' || c == '\'') (String.ofList (Text.trimChars key))
      if key = "" then none else some key

/-- The name on a line of TOML that starts a table. -/
def tomlHead? (line : String) : Option String :=
  match Text.trimChars line.toList with
  | '[' :: rest =>
    (Text.cutChars? [']'] rest).bind fun (inner, _) =>
      let name := Text.trim (Text.stripBoth (fun c => c == '[' || c == ']') (String.ofList inner))
      if name = "" then none else some name
  | _ => none

/-- Every line with its number. -/
def numberedLines (s : Source) : Except Source.Fault (List (Nat × String)) :=
  ((List.range s.lineCount).map (· + 1)).mapM fun n => do return (n, ← s.lineText n n)

/-- Each head reaches to the line before the next one. -/
def close (lineCount : Nat) : List (String × Nat) → List Section
  | [] => []
  | [(name, first)] => [⟨name, first, max lineCount first⟩]
  | (name, first) :: (next, line) :: rest =>
    ⟨name, first, max (line - 1) first⟩ :: close lineCount ((next, line) :: rest)

/-- The first head moves to the first line. -/
def startAtTop : List (String × Nat) → List (String × Nat)
  | [] => []
  | (name, _) :: rest => (name, 1) :: rest

def heads (head? : String → Option String) (lines : List (Nat × String)) : List (String × Nat) :=
  lines.filterMap fun (n, line) => (head? line).map (·, n)

/-- Keys before the first table of TOML are a section of their own. -/
def withRoot (s : Source) : List (String × Nat) → Except Source.Fault (List (String × Nat))
  | [] => .ok []
  | (name, line) :: rest => do
    if 1 < line && 0 < Layout.visibleChars (← s.lineText 1 (line - 1)) then
      return ("root", 1) :: (name, line) :: rest
    else return (name, line) :: rest

/-- The sections of a file; none for a language without sections. -/
def all (language : String) (s : Source) : Except Source.Fault (List Section) := do
  let n := s.lineCount
  if language = "yaml" then
    return close n (startAtTop (heads yamlHead? (← numberedLines s)))
  else if language = "toml" then
    let found := heads tomlHead? (← numberedLines s)
    return close n (startAtTop (← withRoot s found))
  else return []

end Section

namespace Job

def sectionDrafts (j : Job) (sec : Section) : Except Source.Fault (List Draft) := do
  let id := s!"{j.path}:section:{sec.name}"
  let dressSection (c : Chunk) : Chunk :=
    { c with symbolName := some sec.name, symbolType := some "config_section" }
  if (← j.lineSize sec.first sec.last) ≤ j.settings.maxChars then
    return [(← j.wholeLines id .configSection sec.first sec.last).map dressSection]
  else
    return (← j.pieces sec.first sec.last true).zipIdx.map fun (p, i) =>
      (j.draft s!"{id}:part:{i}" (.part .configSection) p).map fun c => markOversized p (dressSection c)

/-- One chunk a section; nothing where there is no section. -/
def chunkSections? (j : Job) : Except Source.Fault (Option (List Chunk)) := do
  let sections ← Section.all j.language j.source
  if sections.isEmpty then return none
  let drafts ← sections.mapM j.sectionDrafts
  return some (j.optionalSummary (sections.map (·.name)) "config_aware" ++
    (← drafts.flatten.mapM (Draft.cut j.source)))

end Job

end CodeIndex
