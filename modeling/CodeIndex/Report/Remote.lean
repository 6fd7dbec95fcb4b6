import CodeIndex.Report.Embedding
import CodeIndex.Vectors.Remote

/-!
# Requests and replies of a vector service as JSON
-/

namespace CodeIndex.Vectors.Service

namespace Value

mutual

def toJson : Value → Json
  | .null | .untyped => .null
  | .int n => .obj [("int", .ofInt n)]
  | .double x => .obj [("double", .str x.hex)]
  | .text s => .obj [("str", .str s)]
  | .bool b => .obj [("bool", .bool b)]
  | .list items => .obj [("list", .arr (itemsToJson items))]
  | .record fields => .obj [("struct", .ofMembers (fieldsToJson fields))]

def itemsToJson : List Value → List Json
  | [] => []
  | v :: vs => toJson v :: itemsToJson vs

def fieldsToJson : List (String × Value) → List (String × Json)
  | [] => []
  | (k, v) :: vs => (k, toJson v) :: fieldsToJson vs

end

/-- A typed value from a reply. Lists and records are told apart, but their contents are not read. -/
def ofTyped (number : Json → Option Double) : Json → Value
  | .null => .null
  | .obj [("int", v)] => .int (v.int?.getD 0)
  | .obj [("double", v)] => .double ((number v).getD .zero)
  | .obj [("str", v)] => .text (v.str?.getD "")
  | .obj [("bool", v)] => .bool (v.bool?.getD false)
  | .obj [("list", _)] => .list []
  | .obj [("struct", _)] => .record []
  | _ => .untyped

end Value

def PointId.toJson : PointId → Json
  | .name t => .obj [("uuid", .str t)]
  | .number n => .obj [("num", .ofNat n)]

def PointId.ofJson? (j : Json) : Option PointId :=
  (((j.get? "uuid").bind Json.str?).map .name).or (((j.get? "num").bind Json.nat?).map .number)

def Entry.toJson (e : Entry) : Json := .ofMembers [
  ("id", e.id.toJson), ("vector", Vectors.toJson e.vector),
  ("payload", .ofMembers (Value.fieldsToJson e.payload))]

def conditionToJson (c : Condition) : Json := .ofMembers [
  ("field", .str c.field),
  ("match", match c.value with
    | .int n => .obj [("int", .ofInt n)]
    | .text s => .obj [("str", .str s)]
    | .bool b => .obj [("bool", .bool b)])]

def filterToJson (f : Filter) : Json := .ofMembers [
  ("must", .ofList conditionToJson f.must), ("must_not", .ofList conditionToJson f.mustNot),
  ("should", .arr [])]

def Selection.toJson : Selection → Json
  | .ids points => .obj [("ids", .ofList PointId.toJson points)]
  | .filter f => .obj [("filter", filterToJson f)]

def metricName : Metric → String
  | .cosine => "Cosine"
  | .euclidean => "Euclid"

def Request.toJson : Request → Json
  | .has c => call "CollectionExists" c []
  | .create c size m => call "Create" c [
      ("vectors", .ofMembers [("size", .ofNat size), ("distance", .str (metricName m))])]
  | .drop c => call "DeleteCollection" c []
  | .upsert c points => call "Upsert" c [("wait", .bool true), ("points", .ofList Entry.toJson points)]
  | .search c vector limit filter => call "Search" c [
      ("vector", Vectors.toJson vector), ("limit", .ofNat limit), ("with_payload", .bool true),
      ("filter", .ofOption filterToJson filter)]
  | .delete c which => call "Delete" c [("wait", .bool true), ("points", which.toJson)]
  | .count c filter => call "Count" c [("exact", .bool true), ("filter", .ofOption filterToJson filter)]
where
  call (name collection : String) (fields : List (String × Json)) : Json :=
    .ofMembers ([("rpc", .str name), ("collection", .str collection)] ++ fields)

def Scored.ofJson (number : Json → Option Double) (j : Json) : Scored :=
  { id := (j.get? "id").bind PointId.ofJson?
    score := .ofDouble (((j.get? "score").bind number).getD .zero)
    payload := (((j.get? "payload").bind Json.obj?).getD []).map fun (k, v) => (k, Value.ofTyped number v) }

/-- A reply, or the status of a refusal. A part that is a text counts as left out by the service. -/
def replyOfJson (number : Json → Option Double) (j : Json) : Except Status Reply :=
  match (j.get? "status").bind Json.int? with
  | some code => .error ⟨code, ((j.get? "message").bind Json.str?).getD ""⟩
  | none => .ok {
      found := match j.get? "exists" with
        | some (.bool b) => b
        | some (.str _) => false
        | _ => true
      count := ((j.get? "count").bind Json.nat?).getD 0
      points := (((j.get? "points").bind Json.arr?).getD []).map (Scored.ofJson number) }

end CodeIndex.Vectors.Service
