import CodeIndex.Json.Basic

/-!
# Reading settings from JSON

Records whose members may be missing, each with the reader of its type. A record is an object, or a list
of its members in their order.
-/

namespace CodeIndex.Json

/-- Whether a value can be a record of so many members. -/
def isRecord (size : Nat) : Json → Bool
  | .obj _ => true
  | .arr items => items.length ≤ size
  | _ => false

/-- Reads a member by its place and name: its default where it is missing, none where it does not
fit. -/
def member (j : Json) (place : Nat) (name : String) (read : Json → Option α) (fallback : α) : Option α :=
  let found := match j with
    | .arr items => items[place]?
    | j => j.get? name
  match found with
  | none => some fallback
  | some v => read v

/-- A member that may be missing or null. -/
def optional (read : Json → Option α) : Json → Option (Option α)
  | .null => some none
  | v => (read v).map some

/-- A number that fits 64 bits without a sign. -/
def size? (j : Json) : Option Nat :=
  j.nat?.filter (· < Nat.pow 2 64)

def isShort (n : Int) : Bool :=
  -Int.pow 2 63 ≤ n && n < Int.pow 2 64

/-- A number that is a double or fits 64 bits. -/
def real? (j : Json) : Option Double :=
  match j with
  | .num (.int n) => if isShort n then some (.ofInt n) else none
  | j => j.double?

def strings? (j : Json) : Option (List String) :=
  j.arr?.bind (·.mapM Json.str?)

mutual

/-- A value as text can hold it: integers of more than 64 bits are refused, and a number that is not
finite becomes null. -/
def storable? : Json → Option Json
  | .num (.int n) => if isShort n then some (.num (.int n)) else none
  | .num (.float x) => some (if x.isFinite then .num (.float x) else .null)
  | .arr items => (storableItems? items).map .arr
  | .obj members => (storableMembers? members).map .obj
  | .null => some .null
  | .bool b => some (.bool b)
  | .str s => some (.str s)

def storableItems? : List Json → Option (List Json)
  | [] => some []
  | j :: js => do return (← storable? j) :: (← storableItems? js)

def storableMembers? : List (String × Json) → Option (List (String × Json))
  | [] => some []
  | (k, j) :: js => do return (k, ← storable? j) :: (← storableMembers? js)

end

/-- An object of any members. -/
def dict? (j : Json) : Option (Dict Json) :=
  j.obj?.bind storableMembers?

end CodeIndex.Json
