import CodeIndex.Json.Parser
import CodeIndex.Json.Printer
import CodeIndex.Vectors.Basic
import CodeIndex.Vectors.Octets

/-!
# Points in tables

A row keeps the octets of the vector and what leads back to the source: the file, the symbol and the plain
values of the payload as JSON text. The text of a document is not kept.
-/

namespace CodeIndex.Vectors

structure Row where
  collection : String
  id : String
  file : String
  symbol : Option String
  /-- An object as JSON text. -/
  metadata : String
  /-- A vector as octets. -/
  vector : List UInt8
  deriving DecidableEq, Repr

structure TableIndex where
  metric : Metric
  collections : List String := []
  rows : List Row := []
  isClosed : Bool := false

namespace TableIndex

/-- Fields with columns of their own, or that are never kept. -/
def reserved : List String := ["doc_id", "file_path", "symbol_name", "content"]

def isPlain : Json → Bool
  | .str _ | .num _ | .bool _ => true
  | _ => false

/-- The plain values outside the columns, as JSON text. -/
def metadataText (p : Payload) : String :=
  (Json.obj (p.filter fun (k, v) => !reserved.contains k && isPlain v)).render

def rowOf (collection : String) (p : Point) : Row :=
  { collection, id := p.id, vector := encode p.vector, metadata := metadataText p.payload
    file := ((p.payload.lookup "file_path").bind Json.str?).getD ""
    symbol := (p.payload.lookup "symbol_name").bind Json.str? }

/-- The payload that a row stands for. -/
def Row.payload (r : Row) : Payload :=
  let kept := ((Json.parse? r.metadata).bind Json.obj?).getD []
  let p := Dict.put "file_path" (.str r.file) (Dict.put "doc_id" (.str r.id) (Dict.ofList kept))
  match r.symbol with
  | some s => Dict.put "symbol_name" (.str s) p
  | none => p

/-- Replaces the row of the same collection and id, or adds a row at the end. -/
def upsertRow (rows : List Row) (r : Row) : List Row :=
  let same (s : Row) := s.collection = r.collection && s.id = r.id
  if rows.any same then rows.map fun s => if same s then r else s else rows ++ [r]

def rowsOf (x : TableIndex) (collection : String) : List Row :=
  x.rows.filter (·.collection = collection)

def hits (x : TableIndex) (v : List Single) (f : Filter) (rows : List Row) : List Hit :=
  (rows.filter fun r => f.holds (Row.payload r) && (decode r.vector).length = v.length).map fun r =>
    ⟨r.id, x.metric.distance v (decode r.vector), Row.payload r⟩

/-- Refuses every question once the index is closed. -/
def guarded (x : TableIndex) (kind : ErrorKind) (answer : Except Error α) : Except Error α :=
  if x.isClosed then .error ⟨kind, "attempted to acquire a connection on a closed pool"⟩ else answer

def without (x : TableIndex) (collection : String) (ids : List String) : TableIndex :=
  { x with rows := x.rows.filter fun r => !(r.collection = collection && ids.contains r.id) }

instance : Index TableIndex where
  ensure x collection size :=
    if Nat.pow 2 63 ≤ size then .error ⟨.collection, "number too large to fit in target type"⟩
    else x.guarded .collection <| .ok <|
      if x.collections.contains collection then x else { x with collections := x.collections ++ [collection] }
  has x collection := x.guarded .collection (.ok (x.collections.contains collection))
  drop x collection := x.guarded .collection <| .ok
    { x with
      collections := x.collections.filter (· != collection)
      rows := x.rows.filter (·.collection != collection) }
  upsert x collection points := x.guarded .upsert <|
    if x.collections.contains collection then
      .ok { x with rows := (points.map (rowOf collection)).foldl upsertRow x.rows }
    else .error (.missing .upsert collection)
  search x collection v limit f := x.guarded .search <|
    if x.collections.contains collection then .ok (rank (x.hits v f (x.rowsOf collection)) limit)
    else .error (.missing .search collection)
  deleteIds x collection ids :=
    if ids.isEmpty then .ok x else x.guarded .delete (.ok (x.without collection ids))
  deleteWhere x collection f := x.guarded .delete <|
    let doomed := (x.rowsOf collection).filter fun r => f.holds (Row.payload r)
    .ok (x.without collection (doomed.map (·.id)), doomed.length)
  count x collection := x.guarded .count (.ok (x.rowsOf collection).length)
  close x := { x with isClosed := true }

end TableIndex

end CodeIndex.Vectors
