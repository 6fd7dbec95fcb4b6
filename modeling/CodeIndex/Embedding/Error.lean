import CodeIndex.Vectors.Basic

/-!
# Errors of embedding

The causes for which a model or an index can fail, and their wording.
-/

namespace CodeIndex

inductive EmbedError where
  /-- A request gets no reply. -/
  | http
  /-- A reply or a setting cannot be read. -/
  | json
  | index (e : Vectors.Error)
  | unknownBackend (name : String) (available : List String)
  | unknownModelType (name : String) (available : List String)
  | unavailable (name reason : String)
  | emptyResponse (provider : String)
  | api (provider : String) (status : Nat)
  | dimensionMismatch (expected actual : Nat)
  | notInitialized
  | other (text : String)
  /-- A local server's client fails in words of its own. -/
  | client
  deriving DecidableEq, Repr

namespace EmbedError

/-- The wording, where it is this library's. -/
def message : EmbedError → Option String
  | .http | .json | .client => none
  | .index e => some ("vector store error: " ++ e.message)
  | .unknownBackend name available =>
    some (s!"unknown vector store '{name}'. Available: " ++ ", ".intercalate available)
  | .unknownModelType name available =>
    some (s!"unknown embedding model type '{name}'. Available: " ++ ", ".intercalate available)
  | .unavailable name reason => some s!"vector store '{name}' is unavailable: {reason}"
  | .emptyResponse provider => some s!"empty response from {provider}"
  | .api provider status => some s!"{provider} embedding request failed (status {status})"
  | .dimensionMismatch expected actual =>
    some s!"embedding dimension mismatch: expected {expected}, got {actual}"
  | .notInitialized => some "embedding provider is not initialized"
  | .other text => some text

end EmbedError

end CodeIndex
