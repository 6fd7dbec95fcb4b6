import CodeIndex.Chunk.Settings
import CodeIndex.Embedding.Settings
import CodeIndex.Ignore.Policy
import CodeIndex.Text.Utf8
import CodeIndex.Toml.Parser

/-!
# Settings

What a settings file says, and after it the environment. Sections and members that are missing keep
their defaults.
-/

namespace CodeIndex

structure IndexSettings where
  /-- Where the tables are kept, from the root of the repository. -/
  dataDirectory : String := ".sextant"
  extraSkipped : List String := []
  /-- Whether every pass reads every file. -/
  force : Bool := false
  deriving DecidableEq, Repr

def IndexSettings.ofJson? (j : Json) : Option IndexSettings := do
  guard (j.isRecord 3)
  let d : IndexSettings := {}
  return {
    dataDirectory := ← j.member 0 "data_dir" Json.str? d.dataDirectory
    extraSkipped := ← j.member 1 "extra_skip_dirs" Json.strings? d.extraSkipped
    force := ← j.member 2 "force" Json.bool? d.force }

def IndexSettings.toJson (s : IndexSettings) : Json := .ofMembers [
  ("data_dir", .str s.dataDirectory), ("extra_skip_dirs", .strings s.extraSkipped), ("force", .bool s.force)]

structure Settings where
  index : IndexSettings := {}
  chunking : ChunkSettings := {}
  embedding : EmbeddingSettings := {}
  deriving Repr

/-- The variables that are set. -/
abbrev Environment := Dict String

namespace Settings

/-- Why there are no settings. -/
inductive LoadError where
  | unreadable (cause : String)
  | malformed
  deriving DecidableEq, Repr

def LoadError.message : LoadError → String
  | .unreadable _ => "failed to read config file"
  | .malformed => "failed to parse config file"

def ofJson? (j : Json) : Option Settings := do
  guard (j.isRecord 3)
  let d : Settings := {}
  return {
    index := ← j.member 0 "index" IndexSettings.ofJson? d.index
    chunking := ← j.member 1 "chunking" ChunkSettings.ofJson? d.chunking
    embedding := ← j.member 2 "embedding" EmbeddingSettings.ofJson? d.embedding }

/-- The settings in the octets of a file. -/
def ofOctets (octets : List UInt8) : Except LoadError Settings :=
  match Text.Utf8.decode octets with
  | .error _ => .error (.unreadable "stream did not contain valid UTF-8")
  | .ok text =>
    match (Toml.parse? text).bind ofJson? with
    | some s => .ok s
    | none => .error .malformed

/-- A positive number that fits 64 bits, after an optional plus sign. -/
def positive? (text : String) : Option Nat :=
  let ds := match text.toList with
    | '+' :: ds => ds
    | ds => ds
  let n := ds.foldl (fun n d => n * 10 + (d.toNat - 48)) 0
  if !ds.isEmpty && ds.all Char.isDigit && 0 < n && n < Nat.pow 2 64 then some n else none

/-- The settings with those that the environment replaces. -/
def within (env : Environment) (s : Settings) : Settings :=
  let e := s.embedding
  { s with
    index.dataDirectory := (env.lookup "SEXTANT_DB_DIR").getD s.index.dataDirectory
    embedding.vectorStore := (env.lookup "SEXTANT_VECTOR_STORE").getD e.vectorStore
    embedding.modelType := (env.lookup "SEXTANT_EMBEDDING_MODEL_TYPE").getD e.modelType
    embedding.modelName := (env.lookup "SEXTANT_EMBEDDING_MODEL").getD e.modelName
    embedding.apiKey := (env.lookup "SEXTANT_EMBEDDING_API_KEY").or e.apiKey
    embedding.extra := match env.lookup "SEXTANT_QDRANT_URL" with
      | some url => Dict.put "url" (.str url) e.extra
      | none => e.extra
    embedding.concurrency := ((env.lookup "SEXTANT_EMBED_CONCURRENCY").bind positive?).getD e.concurrency }

/-- The settings of a file, if there is one, and of the environment. -/
def load (env : Environment) (file : Option (List UInt8)) : Except LoadError Settings :=
  match file with
  | none => .ok (within env {})
  | some octets => (ofOctets octets).map (within env)

/-- The file to load: the one that is asked for, else the one that the environment names. -/
def filePath (env : Environment) (asked : Option String) : String :=
  (asked.or (env.lookup "SEXTANT_CONFIG")).getD "sextant.toml"

/-- Where the tables of a repository are kept. -/
def dataDirectory (s : Settings) (root : String) : String :=
  Path.join root s.index.dataDirectory

def ignorePolicy (s : Settings) : IgnorePolicy :=
  .withSkipped s.index.extraSkipped

/-- The settings of embedding, with the vectors beside the other tables unless they say otherwise. -/
def embeddingFor (s : Settings) (root : String) : EmbeddingSettings :=
  { s.embedding with persistDirectory := s.embedding.persistDirectory.or (some (s.dataDirectory root)) }

/-- The settings with what follows from them for a repository. -/
def report (s : Settings) (root path : String) : Json := .ofMembers [
  ("index", s.index.toJson), ("chunking", s.chunking.toJson), ("embedding", s.embedding.toJson),
  ("data_dir", .str (s.dataDirectory root)),
  ("persist_directory", .ofOption .str (s.embeddingFor root).persistDirectory),
  ("skip_dirs", .strings s.ignorePolicy.skipped), ("max_chunk_chars", .ofNat s.chunking.maxChars),
  ("config_path", .str path)]

end Settings

end CodeIndex
