import CodeIndex.Json.Decode

/-!
# Settings of embedding

Which model embeds, which index keeps the vectors, and how many texts go at once.
-/

namespace CodeIndex

structure EmbeddingSettings where
  vectorStore : String := "memory"
  /-- Where a table of vectors is kept; in memory if there is none. -/
  persistDirectory : Option String := none
  distanceMetric : String := "cosine"
  modelType : String := "hash"
  modelName : String := "all-MiniLM-L12-v2"
  /-- The key of a remote model; for a local server it may be the server's address. -/
  apiKey : Option String := none
  /-- The dimension of models that no table lists. -/
  dimension : Nat := 384
  batchSize : Nat := 32
  concurrency : Nat := 8
  collection : String := "sextant_chunks"
  /-- Settings that only one model or index reads. -/
  extra : Dict Json := []
  deriving Repr

namespace EmbeddingSettings

/-- The text of an extra setting. -/
def extraText? (s : EmbeddingSettings) (key : String) : Option String :=
  (s.extra.lookup key).bind Json.str?

/-- Settings from a record in which every member may be missing; unknown members do not matter. -/
def ofJson? (j : Json) : Option EmbeddingSettings := do
  guard (j.isRecord 11)
  let d : EmbeddingSettings := {}
  return {
    vectorStore := ← j.member 0 "vector_store" Json.str? d.vectorStore
    persistDirectory := ← j.member 1 "persist_directory" (Json.optional Json.str?) d.persistDirectory
    distanceMetric := ← j.member 2 "distance_metric" Json.str? d.distanceMetric
    modelType := ← j.member 3 "embedding_model_type" Json.str? d.modelType
    modelName := ← j.member 4 "embedding_model_name" Json.str? d.modelName
    apiKey := ← j.member 5 "embedding_api_key" (Json.optional Json.str?) d.apiKey
    dimension := ← j.member 6 "dimension" Json.size? d.dimension
    batchSize := ← j.member 7 "batch_size" Json.size? d.batchSize
    concurrency := ← j.member 8 "concurrency" Json.size? d.concurrency
    collection := ← j.member 9 "collection" Json.str? d.collection
    extra := ← j.member 10 "extra_config" Json.dict? d.extra }

def toJson (s : EmbeddingSettings) : Json := .ofMembers [
  ("vector_store", .str s.vectorStore),
  ("persist_directory", .ofOption .str s.persistDirectory),
  ("distance_metric", .str s.distanceMetric),
  ("embedding_model_type", .str s.modelType),
  ("embedding_model_name", .str s.modelName),
  ("embedding_api_key", .ofOption .str s.apiKey),
  ("dimension", .ofNat s.dimension),
  ("batch_size", .ofNat s.batchSize),
  ("concurrency", .ofNat s.concurrency),
  ("collection", .str s.collection),
  ("extra_config", .obj s.extra)]

end EmbeddingSettings

end CodeIndex
