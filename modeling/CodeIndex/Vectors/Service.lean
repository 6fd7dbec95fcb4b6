import CodeIndex.Vectors.Basic

/-!
# What is said to a vector service

Requests name a collection and carry points, filters and vectors. Points go under ids of a fixed form, so
the id of a document travels in its payload, and the values of a payload are typed.
-/

namespace CodeIndex.Vectors.Service

/-- A typed value of a payload. -/
inductive Value where
  | null
  | int (n : Int)
  | double (x : Double)
  | text (s : String)
  | bool (b : Bool)
  | list (items : List Value)
  | record (fields : List (String × Value))
  /-- A value whose type the service does not say. -/
  | untyped
  deriving Repr

namespace Value

mutual

/-- An integer beyond 63 bits goes as a double. -/
def ofJson : Json → Value
  | .null => .null
  | .bool b => .bool b
  | .num (.int n) => if n < Int.pow 2 63 then .int n else .double (.ofInt n)
  | .num (.float x) => .double x
  | .str s => .text s
  | .arr items => .list (ofItems items)
  | .obj members => .record (ofMembers members)

def ofItems : List Json → List Value
  | [] => []
  | j :: js => ofJson j :: ofItems js

def ofMembers : List (String × Json) → List (String × Value)
  | [] => []
  | (k, j) :: js => (k, ofJson j) :: ofMembers js

end

/-- Texts, finite numbers and truth values; nothing else is kept of a reply. -/
def scalar? : Value → Option Json
  | .int n => some (.ofInt n)
  | .double x => if x.isFinite then some (.num (.float x)) else none
  | .text s => some (.str s)
  | .bool b => some (.bool b)
  | _ => none

end Value

inductive PointId where
  | name (text : String)
  | number (n : Nat)
  deriving DecidableEq, Repr

def PointId.text : PointId → String
  | .name t => t
  | .number n => toString n

/-- A point as it is sent. -/
structure Entry where
  id : PointId
  vector : List Single
  payload : List (String × Value)
  deriving Repr

/-- A point of a reply. -/
structure Scored where
  id : Option PointId
  score : Single
  payload : List (String × Value)
  deriving Repr

/-- Which points to delete. -/
inductive Selection where
  | ids (ids : List PointId)
  | filter (f : Filter)
  deriving DecidableEq, Repr

inductive Request where
  | has (collection : String)
  | create (collection : String) (size : Nat) (metric : Metric)
  | drop (collection : String)
  | upsert (collection : String) (points : List Entry)
  | search (collection : String) (vector : List Single) (limit : Nat) (filter : Option Filter)
  | delete (collection : String) (which : Selection)
  | count (collection : String) (filter : Option Filter)
  deriving Repr

/-- Requests on points are sent once more after a passing failure, those on collections are not. -/
def Request.isRepeated : Request → Bool
  | .upsert .. | .search .. | .delete .. | .count .. => true
  | .has _ | .create .. | .drop _ => false

/-- A reply, with the part that each kind of request reads. -/
structure Reply where
  found : Bool := true
  count : Nat := 0
  points : List Scored := []
  deriving Repr

/-- A request that the service refused. -/
structure Status where
  code : Int
  message : String
  deriving DecidableEq, Repr

/-- Cancelled, unknown, internal and unavailable may pass; a number that is no error code is unknown. -/
def Status.isPassing (s : Status) : Bool :=
  s.code ≤ 2 || s.code = 13 || s.code = 14 || 16 < s.code

end Service

/-- A vector service: its reply to a request, given the requests before it. -/
structure Service where
  reply : (asked : List Service.Request) → Service.Request → Except Service.Status Service.Reply

/-- Requests sent so far, and a failure or a result. -/
abbrev Service.Session := ExceptT Error (StateM (List Service.Request))

/-- Sends a request, and once more where that may help. -/
def Service.ask (s : Service) (kind : ErrorKind) (r : Request) : Session Reply := fun asked =>
  let outcome : Except Status Reply → Except Error Reply
    | .ok reply => .ok reply
    | .error status => .error ⟨kind, status.message⟩
  match s.reply asked r with
  | .error status =>
    if r.isRepeated && status.isPassing then (outcome (s.reply (asked ++ [r]) r), asked ++ [r, r])
    else (outcome (.error status), asked ++ [r])
  | reply => (outcome reply, asked ++ [r])

end CodeIndex.Vectors
