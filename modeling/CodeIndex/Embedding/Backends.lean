import CodeIndex.Embedding.Error
import CodeIndex.Embedding.Settings

/-!
# Which indexes there are

Every known kind of index by name, with whether it can be built, so that an unknown name and a kind that
is left out give different errors.
-/

namespace CodeIndex

/-- Where vectors are kept. -/
inductive VectorBackend where
  | memory
  | table
  /-- A service of its own. -/
  | remote
  deriving DecidableEq, Repr

inductive BackendEntry where
  | available (backend : VectorBackend)
  | unavailable (reason : String)
  deriving DecidableEq, Repr

structure Backends where
  entries : Dict BackendEntry := []
  deriving Repr

/-- The metric of a name in the settings. -/
def Vectors.Metric.ofName (name : String) : Except EmbedError Vectors.Metric :=
  match Vectors.Metric.ofName? name with
  | some m => .ok m
  | none => .error (.other s!"unknown distance metric '{name}'. Available: cosine, euclidean")

namespace Backends

def defaults : Backends :=
  ⟨.ofList [("memory", .available .memory), ("sqlite", .available .table), ("qdrant", .available .remote)]⟩

/-- Records a kind that cannot be built. -/
def withUnavailable (b : Backends) (name reason : String) : Backends :=
  ⟨Dict.put name (.unavailable reason) b.entries⟩

def isRegistered (b : Backends) (name : String) : Bool :=
  (b.entries.lookup name).isSome

def isAvailable (b : Backends) (name : String) : Bool :=
  match b.entries.lookup name with
  | some (.available _) => true
  | _ => false

def available (b : Backends) : List String :=
  (b.entries.map (·.1)).filter b.isAvailable

/-- The kind of index and the metric that settings ask for. A name that is not known comes before one
that cannot be built, and that before a wrong metric. -/
def create (b : Backends) (s : EmbeddingSettings) : Except EmbedError (VectorBackend × Vectors.Metric) :=
  let name := s.vectorStore.map Char.toLower
  match b.entries.lookup name with
  | none => .error (.unknownBackend name (b.entries.map (·.1)))
  | some (.unavailable reason) => .error (.unavailable name reason)
  | some (.available backend) => (Vectors.Metric.ofName s.distanceMetric).map (backend, ·)

end Backends

end CodeIndex
