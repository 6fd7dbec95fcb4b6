import CodeIndex.Embedding.Provider

/-!
# Vectors and documents as JSON
-/

namespace CodeIndex

/-- The bit patterns of a vector. -/
def Vectors.toJson (v : List Single) : Json :=
  .strings (v.map Single.hex)

/-- The length of a vector and its components other than zero, each with its place. -/
def Vectors.sparse (v : List Single) : Json := .ofMembers [
  ("len", .ofNat v.length),
  ("entries", .arr (v.zipIdx.filterMap fun (x, i) =>
    if x.isZero then none else some (.arr [.ofNat i, .str x.hex])))]

def Vectors.Hit.toJson (h : Vectors.Hit) : Json := .ofMembers [
  ("id", .str h.id), ("distance", .str h.distance.hex), ("payload", .obj h.payload)]

def SearchResult.toJson (r : SearchResult) (score : Single → Json) : Json := .ofMembers [
  ("id", .str r.id), ("file_path", .str r.file), ("symbol_name", .ofOption .str r.symbol),
  ("content", .ofOption .str r.content), ("score", score r.score), ("metadata", .obj r.metadata)]

def ProviderStats.toJson (s : ProviderStats) : Json := .ofMembers [
  ("backend", .str s.backend), ("model_type", .str s.modelType), ("model_name", .str s.modelName),
  ("dimension", .ofNat s.dimension), ("distance_metric", .str s.metric), ("document_count", .ofNat s.documents)]

def Backends.toJson (b : Backends) : Json :=
  .ofList (fun (name, entry) => .ofMembers [
    ("name", .str name), ("available", .bool (b.isAvailable name)),
    ("reason", match entry with
      | .available _ => .null
      | .unavailable reason => .str reason)]) b.entries

def HttpRequest.toJson (r : HttpRequest) (path : String) : Json := .ofMembers [
  ("method", .str r.method), ("path", .str path), ("authorization", .ofOption .str r.authorization),
  ("body", r.body)]

end CodeIndex
