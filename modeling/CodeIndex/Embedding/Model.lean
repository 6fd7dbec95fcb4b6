import CodeIndex.Embedding.Error
import CodeIndex.Embedding.Hash
import CodeIndex.Embedding.Settings
import CodeIndex.Json.Reader
import CodeIndex.Text.Find

/-!
# Models

A model turns a text into a vector: by hashing, or by a request to a service. A service's model has the
dimension that a table gives for its name, or else the one of the settings.
-/

namespace CodeIndex

/-- What embeds texts. -/
structure Model where
  type : String
  name : String
  /-- The expected number of components. -/
  dimension : Nat
  embed : String → Except EmbedError (List Single)

structure HttpRequest where
  method : String := "POST"
  url : String
  authorization : Option String
  body : Json
  deriving Repr

/-- A header's value holds no control characters but tabs; a request with any other cannot be sent. -/
def HttpRequest.isSendable (r : HttpRequest) : Bool :=
  (r.authorization.getD "").toList.all fun c => c == '\t' || (32 ≤ c.toNat && c.toNat ≠ 127)

structure HttpReply where
  status : Nat
  body : String
  deriving DecidableEq, Repr

inductive ModelType where
  | cohere
  | hash
  | ollama
  | openai
  deriving DecidableEq, Repr

namespace ModelType

def text : ModelType → String
  | .cohere => "cohere"
  | .hash => "hash"
  | .ollama => "ollama"
  | .openai => "openai"

def all : List ModelType := [.cohere, .hash, .ollama, .openai]

def names : List String := all.map text

end ModelType

/-- A model as the settings describe it. -/
structure ModelSpec where
  type : ModelType
  name : String
  dimension : Nat
  /-- The address of the service, without a slash at the end. -/
  baseUrl : String := ""
  apiKey : String := ""
  inputType : String := ""
  deriving DecidableEq, Repr

namespace ModelSpec

def openaiDimensions : List (String × Nat) := [
  ("text-embedding-3-small", 1536), ("text-embedding-3-large", 3072), ("text-embedding-ada-002", 1536)]

def cohereDimensions : List (String × Nat) := [
  ("embed-english-v3.0", 1024), ("embed-multilingual-v3.0", 1024), ("embed-english-light-v3.0", 384),
  ("embed-multilingual-light-v3.0", 384)]

def ollamaDimensions : List (String × Nat) := [
  ("qwen3-embedding:8b", 4096), ("qwen3-embedding:4b", 2560), ("qwen3-embedding:0.6b", 1024),
  ("gte-qwen2-7b-instruct", 3584), ("snowflake-arctic-embed2", 1024), ("bge-m3", 1024),
  ("mxbai-embed-large", 1024), ("nomic-embed-text", 768), ("nomic-embed-text:v1.5", 768),
  ("all-minilm", 384), ("all-minilm:l6-v2", 384)]

/-- The dimension of the first name that holds the given one or lies within it. -/
def similarDimension? (table : List (String × Nat)) (name : String) : Option Nat :=
  if name = "" then none
  else (table.find? fun (key, _) => Text.contains key name || Text.contains name key).map (·.2)

def withoutSlashes (url : String) : String :=
  Text.stripEnd (· == '/') url

def requiredKey (s : EmbeddingSettings) (type : ModelType) : Except EmbedError String :=
  match s.apiKey with
  | some key =>
    if key = "" then .error (.other (type.text ++ " embedding model requires an API key")) else .ok key
  | none => .error (.other (type.text ++ " embedding model requires an API key"))

/-! ## Addresses of local servers -/

def defaultPort : Nat := 11434

/-- A port in decimal digits, with an optional plus sign. -/
def port? (text : List Char) : Option Nat :=
  let digits := match text with
    | '+' :: rest => rest
    | _ => text
  if digits.isEmpty || !digits.all Char.isDigit then none
  else
    let n := digits.foldl (fun n c => n * 10 + (c.toNat - '0'.toNat)) 0
    if n < 65536 then some n else none

/-- The part of an address before its last colon and the port behind it, or all of it and the default. -/
def hostAndPort (url : String) : String × Nat :=
  let url := withoutSlashes url
  match Text.cutLast? url ":" with
  | some (host, port) =>
    match port? port.toList with
    | some n => (host, n)
    | none => (url, defaultPort)
  | none => (url, defaultPort)

/-- An address with its port replaced. -/
def withPort (host : String) (port : Nat) : String :=
  match Text.cut? host "://" with
  | none => s!"{host}:{port}"
  | some (scheme, rest) =>
    let authority := rest.toList.takeWhile (· != '/')
    let path := rest.toList.drop authority.length
    let name := match Text.cutLastChars? [':'] authority with
      | some (name, _) => name
      | none => authority
    s!"{scheme}://{String.ofList name}:{port}{String.ofList path}"

/-- The address of a local server: the setting, else a key that is an address, else the default. -/
def serverUrl (s : EmbeddingSettings) : String :=
  let isUrl (k : String) := Text.startsWith k "http://" || Text.startsWith k "https://"
  ((s.extraText? "base_url").or (s.apiKey.filter isUrl)).getD "http://localhost:11434"

/-! ## Building -/

/-- The model that settings ask for. -/
def create (s : EmbeddingSettings) : Except EmbedError ModelSpec :=
  let name := s.modelName
  let url (fallback : String) := withoutSlashes ((s.extraText? "base_url").getD fallback)
  match s.modelType.map Char.toLower with
  | "hash" => .ok { type := .hash, name, dimension := max s.dimension 1 }
  | "openai" => (requiredKey s .openai).map fun apiKey =>
    { type := .openai, name, apiKey, baseUrl := url "https://api.openai.com/v1"
      dimension := (openaiDimensions.lookup name).getD s.dimension }
  | "cohere" => (requiredKey s .cohere).map fun apiKey =>
    { type := .cohere, name, apiKey, baseUrl := url "https://api.cohere.ai"
      inputType := (s.extraText? "input_type").getD "search_document"
      dimension := (cohereDimensions.lookup name).getD s.dimension }
  | "ollama" =>
    let key := name.map Char.toLower
    let (host, port) := hostAndPort (serverUrl s)
    .ok
      { type := .ollama, name, baseUrl := withoutSlashes (withPort host port)
        dimension := ((ollamaDimensions.lookup key).or (similarDimension? ollamaDimensions key)).getD s.dimension }
  | "sentence-transformers" =>
    .error (.other ("sentence-transformers needs an in-process model runtime, which sextant does not ship. " ++
      "Use one of: " ++ ", ".intercalate ModelType.names))
  | other => .error (.unknownModelType other ModelType.names)

/-! ## Requests and replies -/

/-- The request for the vector of a text, if the model is a service. -/
def request? (m : ModelSpec) (text : String) : Option HttpRequest :=
  -- Blanks at the end of a header's value are not part of it.
  let bearer := some (Text.stripEnd (fun c => c == ' ' || c == '\t') ("Bearer " ++ m.apiKey))
  match m.type with
  | .hash => none
  | .openai => some
    { url := m.baseUrl ++ "/embeddings", authorization := bearer
      body := .ofMembers [("input", .str text), ("model", .str m.name)] }
  | .cohere => some
    { url := m.baseUrl ++ "/v1/embed", authorization := bearer
      body := .ofMembers
        [("texts", .strings [text]), ("model", .str m.name), ("input_type", .str m.inputType)] }
  | .ollama => some
    { url := m.baseUrl ++ "/api/embed", authorization := none
      body := .ofMembers [("input", .str text), ("model", .str m.name)] }

def component : Json.Number → Single
  | .int n => .ofInt n
  | .float x => .ofDouble x

def vectorReader : Json.Reader (List Single) := fun cs =>
  (Json.Reader.list .number cs).map fun (ns, rest) => (ns.map component, rest)

/-- The vectors in the body of a reply. -/
def vectors? (type : ModelType) (body : String) : Option (List (List Single)) :=
  match type with
  | .hash => none
  | .openai => Json.Reader.read? (.record "data" (.list (.record "embedding" vectorReader))) body
  | .cohere | .ollama => Json.Reader.read? (.record "embeddings" (.list vectorReader)) body

/-- The vector in a reply. A local server's client words its own errors. -/
def readReply (m : ModelSpec) (r : HttpReply) : Except EmbedError (List Single) :=
  let isLocal := m.type = .ollama
  if r.status < 200 || 300 ≤ r.status then
    .error (if isLocal then .client else .api m.type.text r.status)
  else match vectors? m.type r.body with
    | none => .error (if isLocal then .client else .json)
    | some [] => .error (.emptyResponse m.type.text)
    | some (v :: _) => .ok v

/-- The model, with `send` to reach a service. -/
def model (m : ModelSpec) (send : HttpRequest → Except EmbedError HttpReply) : Model :=
  { type := m.type.text, name := m.name, dimension := m.dimension
    embed := fun text =>
      match m.request? text with
      | none => .ok (HashEmbedding.embed m.dimension text)
      | some request =>
        match if request.isSendable then send request else .error .http with
        | .ok reply => m.readReply reply
        | .error e => .error (if m.type = .ollama then .client else e) }

end ModelSpec

end CodeIndex
