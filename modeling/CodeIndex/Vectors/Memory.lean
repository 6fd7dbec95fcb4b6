import CodeIndex.Vectors.Basic

/-!
# Points in memory

Collections and their points by name and id. Payloads are kept as they are.
-/

namespace CodeIndex.Vectors

structure Entry where
  vector : List Single
  payload : Payload
  deriving Repr

structure MemoryIndex where
  metric : Metric
  collections : Dict (Dict Entry) := []

namespace MemoryIndex

/-- Replaces the entries of a collection. -/
def set (x : MemoryIndex) (collection : String) (entries : Dict Entry) : MemoryIndex :=
  { x with collections := Dict.put collection entries x.collections }

def find (x : MemoryIndex) (kind : ErrorKind) (collection : String) : Except Error (Dict Entry) :=
  match x.collections.lookup collection with
  | some entries => .ok entries
  | none => .error (.missing kind collection)

def hits (x : MemoryIndex) (v : List Single) (f : Filter) (entries : Dict Entry) : List Hit :=
  (entries.filter fun (_, e) => f.holds e.payload).map fun (id, e) =>
    ⟨id, x.metric.distance v e.vector, e.payload⟩

instance : Index MemoryIndex where
  ensure x collection _ := .ok { x with collections := Dict.putNew collection [] x.collections }
  has x collection := .ok (x.collections.lookup collection).isSome
  drop x collection := .ok { x with collections := x.collections.filter (·.1 != collection) }
  upsert x collection points := do
    let entries ← x.find .upsert collection
    return x.set collection (points.foldl (fun es p => Dict.put p.id ⟨p.vector, p.payload⟩ es) entries)
  search x collection v limit f := do
    let entries ← x.find .search collection
    return rank (x.hits v f entries) limit
  deleteIds x collection ids :=
    if ids.isEmpty then .ok x
    else do
      let entries ← x.find .delete collection
      return x.set collection (entries.filter fun (id, _) => !ids.contains id)
  deleteWhere x collection f :=
    match x.collections.lookup collection with
    | none => .ok (x, 0)
    | some entries =>
      let kept := entries.filter fun (_, e) => !f.holds e.payload
      .ok (x.set collection kept, entries.length - kept.length)
  count x collection := .ok (((x.collections.lookup collection).map (·.length)).getD 0)
  close x := x

end MemoryIndex

end CodeIndex.Vectors
