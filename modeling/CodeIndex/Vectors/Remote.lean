import CodeIndex.Digest.Sha1
import CodeIndex.Vectors.Service

/-!
# A remote index

The operations of an index as requests to a vector service.
-/

namespace CodeIndex.Vectors

/-- An index that a service keeps. -/
structure RemoteIndex where
  service : Service
  metric : Metric

namespace RemoteIndex

open Service

/-- The id of the point of a document. -/
def pointId (document : String) : PointId :=
  .name (nameId document)

/-- A point as it is sent, with the id of its document in the payload. -/
def entry (p : Point) : Service.Entry :=
  ⟨pointId p.id, p.vector, Value.ofMembers (Dict.put "doc_id" (.str p.id) p.payload)⟩

/-- The service scores by similarity under the cosine and by distance otherwise. -/
def distance : Metric → Single → Single
  | .cosine, score => Single.one.sub score
  | .euclidean, score => score

/-- A point of a reply. It goes by the id of its document, else by its own. -/
def hit (m : Metric) (p : Scored) : Hit :=
  let payload : Payload := .ofList (p.payload.filterMap fun (k, v) => v.scalar?.map (k, ·))
  let id := match (payload.lookup "doc_id").bind Json.str? with
    | some id => id
    | none => (p.id.map PointId.text).getD ""
  ⟨id, distance m p.score, payload⟩

def has (x : RemoteIndex) (kind : ErrorKind) (collection : String) : Session Bool :=
  return (← x.service.ask kind (.has collection)).found

/-- Creates a collection unless there is one. -/
def ensure (x : RemoteIndex) (collection : String) (size : Nat) : Session Unit := do
  if !(← x.has .collection collection) then
    let _ ← x.service.ask .collection (.create collection size x.metric)

def drop (x : RemoteIndex) (collection : String) : Session Unit := do
  let _ ← x.service.ask .collection (.drop collection)

def upsert (x : RemoteIndex) (collection : String) (points : List Point) : Session Unit := do
  let _ ← x.service.ask .upsert (.upsert collection (points.map entry))

def search (x : RemoteIndex) (collection : String) (vector : List Single) (limit : Nat)
    (filter : Option Filter) : Session (List Hit) := do
  return (← x.service.ask .search (.search collection vector limit filter)).points.map (hit x.metric)

def deleteIds (x : RemoteIndex) (collection : String) (ids : List String) : Session Unit := do
  if !ids.isEmpty then
    let _ ← x.service.ask .delete (.delete collection (.ids (ids.map pointId)))

/-- Removes the points that a filter lets pass. They are counted first, and none are asked for if there
are none. -/
def deleteWhere (x : RemoteIndex) (collection : String) (filter : Filter) : Session Nat := do
  let matching := (← x.service.ask .delete (.count collection (some filter))).count
  if matching ≠ 0 then
    let _ ← x.service.ask .delete (.delete collection (.filter filter))
  return matching

/-- The size of a collection; one that does not exist has none. -/
def count (x : RemoteIndex) (collection : String) : Session Nat := do
  if ← x.has .count collection then
    return (← x.service.ask .count (.count collection none)).count
  return 0

end RemoteIndex

end CodeIndex.Vectors
