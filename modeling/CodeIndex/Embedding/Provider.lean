import CodeIndex.Embedding.Backends
import CodeIndex.Embedding.Calls
import CodeIndex.Embedding.Model
import CodeIndex.Json.Printer

/-!
# Providers

One model and one index of points. The dimension is measured on first use, when the collection is
created. Documents are embedded and stored in batches; a batch that fails leaves the earlier ones stored.
-/

namespace CodeIndex

structure Document where
  id : String
  content : String
  metadata : Dict Json := []
  deriving Repr

structure SearchResult where
  id : String
  file : String
  symbol : Option String
  /-- None where the index keeps no text. -/
  content : Option String
  score : Single
  metadata : Dict Json
  deriving Repr

structure ProviderStats where
  backend : String
  modelType : String
  modelName : String
  dimension : Nat
  documents : Nat
  metric : String
  deriving DecidableEq, Repr

structure Provider (σ : Type) where
  backend : String
  collection : String
  metric : Vectors.Metric
  batchSize : Nat
  /-- How many calls of the model are under way at a time. -/
  concurrency : Nat
  model : Model
  index : σ
  /-- The measured dimension. -/
  measured : Option Nat := none
  /-- Which of the texts left are embedded while the first of them is awaited, by their places. -/
  early : List String → Nat → Bool := fun _ _ => false

namespace Provider

open Vectors (Index Filter Condition FieldValue Point Hit)

variable {σ : Type} [Index σ]

/-- A provider over a model and an index. -/
def ofParts (s : EmbeddingSettings) (metric : Vectors.Metric) (model : Model) (index : σ) : Provider σ :=
  { backend := s.vectorStore.map Char.toLower, collection := s.collection, metric
    batchSize := max s.batchSize 1, concurrency := max s.concurrency 1, model, index }

/-- An answer of the index as one of the provider. -/
def lift (r : Except Vectors.Error α) : Except EmbedError α :=
  match r with
  | .ok a => .ok a
  | .error e => .error (.index e)

/-- The text that is embedded to measure the dimension. -/
def sampleText : String := "dimension sample"

def measure (p : Provider σ) : Except EmbedError (Provider σ × Nat) := do
  let n := (← p.model.embed sampleText).length
  if n = 0 then .error (.emptyResponse p.model.type)
  else
    let index ← lift (Index.ensure p.index p.collection n)
    return ({ p with index, measured := some n }, n)

/-- Measures the dimension and creates the collection, once. -/
def prepare (p : Provider σ) : Provider σ × Except EmbedError Nat :=
  match p.measured with
  | some n => (p, .ok n)
  | none =>
    match p.measure with
    | .ok (p, n) => (p, .ok n)
    | .error e => (p, .error e)

def dimension (p : Provider σ) : Except EmbedError Nat :=
  match p.measured with
  | some n => .ok n
  | none => .error .notInitialized

/-- A vector of the expected length. -/
def sized (expected : Nat) (v : List Single) : Except EmbedError (List Single) :=
  if v.length = expected then .ok v else .error (.dimensionMismatch expected v.length)

def embedSized (p : Provider σ) (n : Nat) (text : String) : Except EmbedError (List Single) :=
  p.model.embed text >>= sized n

def embedText (p : Provider σ) (text : String) : Provider σ × Except EmbedError (List Single) :=
  match p.prepare with
  | (p, .ok n) => (p, p.embedSized n text)
  | (p, .error e) => (p, .error e)

/-- The vectors of texts, or the first error in their order. -/
def embedBatch (p : Provider σ) (texts : List String) : Provider σ × Except EmbedError (List (List Single)) :=
  if texts.isEmpty then (p, .ok [])
  else match p.prepare with
    | (p, .ok n) => (p, Calls.collect (p.embedSized n) p.concurrency p.early [] texts)
    | (p, .error e) => (p, .error e)

/-- The point of a document; its id and text join the payload. -/
def pointOf (d : Document) (v : List Single) : Point :=
  { id := d.id, vector := v
    payload := Dict.put "content" (.str d.content) (Dict.put "doc_id" (.str d.id) d.metadata) }

/-- Embeds and stores one batch. -/
def indexBatch (p : Provider σ) (batch : List Document) : Provider σ × Except EmbedError Unit :=
  match p.embedBatch (batch.map (·.content)) with
  | (p, .error e) => (p, .error e)
  | (p, .ok vectors) =>
    match Index.upsert p.index p.collection (List.zipWith pointOf batch vectors) with
    | .ok index => ({ p with index }, .ok ())
    | .error e => (p, .error (.index e))

/-- Batches of `n + 1` elements, the last one shorter. -/
def batches (n : Nat) : List α → List (List α)
  | [] => []
  | a :: rest => (a :: rest.take n) :: batches n (rest.drop n)
termination_by xs => xs.length
decreasing_by simp only [List.length_drop, List.length_cons]; omega

/-- Stores batches until one fails; counts the documents stored. -/
def indexBatches (p : Provider σ) (done : Nat) : List (List Document) → Provider σ × Except EmbedError Nat
  | [] => (p, .ok done)
  | batch :: rest =>
    match p.indexBatch batch with
    | (p, .ok ()) => indexBatches p (done + batch.length) rest
    | (p, .error e) => (p, .error e)

def indexDocuments (p : Provider σ) (documents : List Document) : Provider σ × Except EmbedError Nat :=
  p.indexBatches 0 (batches (p.batchSize - 1) documents)

/-- What a value asks of a field: a value that is no plain one is compared by its text. -/
def fieldValue : Json → FieldValue
  | .bool b => .bool b
  | .str s => .text s
  | .num (.int n) => if n < Int.pow 2 63 then .int n else .text (Json.num (.int n)).render
  | other => .text other.render

def filterOf (wanted : Dict Json) : Filter :=
  { must := wanted.map fun (field, value) => ⟨field, fieldValue value⟩ }

def resultOf (p : Provider σ) (h : Hit) : SearchResult :=
  { id := h.id
    file := ((h.payload.lookup "file_path").bind Json.str?).getD ""
    symbol := (h.payload.lookup "symbol_name").bind Json.str?
    content := (h.payload.lookup "content").bind Json.str?
    score := p.metric.score h.distance
    metadata := h.payload.filter fun (k, _) => k != "content" && k != "doc_id" }

/-- The documents nearest to a query, the best first. -/
def search (p : Provider σ) (query : String) (limit : Nat) (wanted : Dict Json) :
    Provider σ × Except EmbedError (List SearchResult) :=
  if limit = 0 then (p, .ok [])
  else match p.embedText query with
    | (p, .error e) => (p, .error e)
    | (p, .ok v) =>
      (p, lift ((Index.search p.index p.collection v limit (filterOf wanted)).map (·.map p.resultOf)))

def deleteDocument (p : Provider σ) (id : String) : Except EmbedError (Provider σ) := lift do
  if ← Index.has p.index p.collection then
    return { p with index := ← Index.deleteIds p.index p.collection [id] }
  else return p

/-- Removes the documents of a file and counts them. -/
def deleteFile (p : Provider σ) (file : String) : Except EmbedError (Provider σ × Nat) := lift do
  if ← Index.has p.index p.collection then
    let (index, n) ← Index.deleteWhere p.index p.collection { must := [⟨"file_path", .text file⟩] }
    return ({ p with index }, n)
  else return (p, 0)

/-- Drops the collection, if there is one. -/
def dropCollection (p : Provider σ) : Except Vectors.Error (Provider σ) := do
  if ← Index.has p.index p.collection then
    return { p with index := ← Index.drop p.index p.collection }
  else return p

/-- Removes every document; the collection is created again if the dimension is known. -/
def clear (p : Provider σ) : Provider σ × Except EmbedError Unit :=
  match p.dropCollection with
  | .error e => (p, .error (.index e))
  | .ok p =>
    match p.measured with
    | none => (p, .ok ())
    | some n =>
      match Index.ensure p.index p.collection n with
      | .ok index => ({ p with index }, .ok ())
      | .error e => (p, .error (.index e))

def stats (p : Provider σ) : Except EmbedError ProviderStats := lift do
  return {
    backend := p.backend, modelType := p.model.type, modelName := p.model.name
    dimension := p.measured.getD p.model.dimension
    documents := ← Index.count p.index p.collection, metric := p.metric.text }

def close (p : Provider σ) : Provider σ :=
  { p with index := Index.close p.index }

end Provider

/-- What is asked of a provider. -/
inductive ProviderCall where
  | index (documents : List Document)
  | deleteDocument (id : String)
  | deleteFile (file : String)
  | clear
  | stats
  | search (query : String) (limit : Nat) (wanted : Dict Json)
  deriving Repr

inductive ProviderAnswer where
  | done
  | count (n : Nat)
  | stats (s : ProviderStats)
  | found (results : List SearchResult)
  deriving Repr

namespace Provider

variable {σ : Type} [Vectors.Index σ]

/-- Answers a call; one that fails can leave a part of its work done. -/
def call (p : Provider σ) : ProviderCall → Provider σ × Except EmbedError ProviderAnswer
  | .index documents =>
    let (p, r) := p.indexDocuments documents
    (p, r.map .count)
  | .deleteDocument id =>
    match p.deleteDocument id with
    | .ok p => (p, .ok .done)
    | .error e => (p, .error e)
  | .deleteFile file =>
    match p.deleteFile file with
    | .ok (p, n) => (p, .ok (.count n))
    | .error e => (p, .error e)
  | .clear =>
    let (p, r) := p.clear
    (p, r.map fun _ => .done)
  | .stats => (p, p.stats.map .stats)
  | .search query limit wanted =>
    let (p, r) := p.search query limit wanted
    (p, r.map .found)

/-- Calls one after another, with their answers. -/
def callAll (p : Provider σ) : List ProviderCall → Provider σ × List (Except EmbedError ProviderAnswer)
  | [] => (p, [])
  | c :: rest =>
    let (p, answer) := p.call c
    let (p, answers) := callAll p rest
    (p, answer :: answers)

end Provider

end CodeIndex
