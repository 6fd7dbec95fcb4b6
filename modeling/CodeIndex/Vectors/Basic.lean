import CodeIndex.Json.Basic
import CodeIndex.Vectors.Metric

/-!
# Points and filters

A point is a vector with a payload under an id. A filter asks for fields with given values and refuses
others.
-/

namespace CodeIndex.Vectors

/-- What is stored with a vector. -/
abbrev Payload := Dict Json

structure Point where
  id : String
  vector : List Single
  payload : Payload
  deriving Repr

inductive FieldValue where
  | int (n : Int)
  | text (s : String)
  | bool (b : Bool)
  deriving DecidableEq, Repr

namespace FieldValue

def holds : FieldValue → Json → Bool
  | .int n, .num (.int m) => m == n
  | .text s, .str t => t == s
  | .bool b, .bool c => c == b
  | _, _ => false

end FieldValue

structure Condition where
  field : String
  value : FieldValue
  deriving DecidableEq, Repr

/-- Whether a payload has the field with the value. -/
def Condition.holds (c : Condition) (p : Payload) : Bool :=
  (p.lookup c.field).any c.value.holds

structure Filter where
  must : List Condition := []
  mustNot : List Condition := []
  deriving DecidableEq, Repr

def Filter.holds (f : Filter) (p : Payload) : Bool :=
  f.must.all (·.holds p) && !f.mustNot.any (·.holds p)

structure Hit where
  id : String
  distance : Single
  payload : Payload
  deriving Repr

/-- By distance in the total order, then by id. -/
def Hit.le (a b : Hit) : Bool :=
  a.distance.totalKey < b.distance.totalKey ||
    (a.distance.totalKey = b.distance.totalKey && a.id ≤ b.id)

/-- The closest hits. -/
def rank (hits : List Hit) (limit : Nat) : List Hit :=
  (hits.mergeSort Hit.le).take limit

/-- What an index was asked when it failed. -/
inductive ErrorKind where
  | connection
  | collection
  | upsert
  | search
  | delete
  | count
  | serialization
  deriving DecidableEq, Repr

def ErrorKind.text : ErrorKind → String
  | .connection => "connection"
  | .collection => "collection"
  | .upsert => "upsert"
  | .search => "search"
  | .delete => "delete"
  | .count => "count"
  | .serialization => "serialization"

structure Error where
  kind : ErrorKind
  cause : String
  deriving DecidableEq, Repr

def Error.message (e : Error) : String :=
  e.kind.text ++ " error: " ++ e.cause

/-- A collection that does not exist. -/
def Error.missing (kind : ErrorKind) (collection : String) : Error :=
  ⟨kind, "collection " ++ collection ++ " not found"⟩

/-- What every index of points offers. -/
class Index (σ : Type) where
  /-- Creates a collection unless there is one. -/
  ensure : σ → String → (size : Nat) → Except Error σ
  has : σ → String → Except Error Bool
  drop : σ → String → Except Error σ
  /-- Adds points or replaces those of the same id. -/
  upsert : σ → String → List Point → Except Error σ
  /-- The closest points that a filter lets pass. -/
  search : σ → String → List Single → (limit : Nat) → Filter → Except Error (List Hit)
  deleteIds : σ → String → List String → Except Error σ
  /-- Removes the points that a filter lets pass and counts them. -/
  deleteWhere : σ → String → Filter → Except Error (σ × Nat)
  count : σ → String → Except Error Nat
  close : σ → σ

end CodeIndex.Vectors
