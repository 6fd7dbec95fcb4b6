import CodeIndex.Chunk.Sections
import CodeIndex.Ignore.Policy

/-!
# Chunks of files

Symbols first, then the sections of configuration, and windows for everything else.
-/

namespace CodeIndex

/-- The chunks of a text. Without a given language the path decides, for which `firstLine` is the first
line of the file of that name, where there is one. -/
def chunkFile (r : Registry) (g : Grammars) (settings : ChunkSettings) (path : String)
    (language firstLine : Option String) (content : String) : Except Source.Fault (List Chunk) := do
  if Text.isBlankText content then return []
  let language := language.or ((r.detect? path firstLine).map (·.name))
  let job (language : String) : Job := { settings, source := .ofString content, path, language }
  match language with
  | none => (job "text").chunkWindows
  | some lang =>
    let found := if r.supports lang then extract r g path lang content else {}
    if !found.symbols.isEmpty then (job lang).chunkSymbols found.symbols found.imports
    else
      match ← (if r.isConfig lang then (job lang).chunkSections? else return none) with
      | some chunks => return chunks
      | none => (job lang).chunkWindows

/-- The text of a file that can be read and is neither binary nor malformed. -/
def readText? (f : DiskFile) : Option String := do
  let octets ← f.read.toOption
  if octets.contains 0 then none else (Text.Utf8.decode octets).toOption

/-- The chunks of every text file that a walk reaches. `firstLine` tells the first line of the file to
which a relative path leads. -/
def chunkCodebase (r : Registry) (g : Grammars) (settings : ChunkSettings) (policy : IgnorePolicy)
    (d : Disk) (root : String) (firstLine : String → Option String) : Except Source.Fault (List Chunk) := do
  let files := (policy.walk d root).filterMap fun (path, f) => (readText? f).map (path, ·)
  let chunks ← files.mapM fun (path, text) =>
    let path := Path.relative root path
    chunkFile r g settings path none (firstLine path) text
  return chunks.flatten

end CodeIndex
