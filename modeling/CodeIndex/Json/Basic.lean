import CodeIndex.Dict
import CodeIndex.Numeric.Double

/-!
# JSON values

Integers are exact, every other number is a double; read from JSON text, an integer fits 64 bits and a
double is finite. The members of an object are sorted by name, and no name occurs twice.
-/

namespace CodeIndex

inductive Json.Number where
  | int (value : Int)
  | float (value : Double)
  deriving DecidableEq, Repr

inductive Json where
  | null
  | bool (value : Bool)
  | num (value : Json.Number)
  | str (value : String)
  | arr (items : List Json)
  | obj (members : List (String × Json))
  deriving Repr

namespace Json

/-- An object from members in any order; the last of equal names wins. -/
def ofMembers (members : List (String × Json)) : Json :=
  .obj (Dict.ofList members)

def ofNat (n : Nat) : Json :=
  .num (.int n)

def ofInt (n : Int) : Json :=
  .num (.int n)

def ofOption (encode : α → Json) : Option α → Json
  | some a => encode a
  | none => .null

def ofList (encode : α → Json) (items : List α) : Json :=
  .arr (items.map encode)

/-- A list of texts. -/
def strings (items : List String) : Json :=
  .arr (items.map .str)

/-- The member of that name, if the value is an object that has one. -/
def get? (name : String) : Json → Option Json
  | .obj members => members.lookup name
  | _ => none

def str? : Json → Option String
  | .str s => some s
  | _ => none

def bool? : Json → Option Bool
  | .bool b => some b
  | _ => none

def arr? : Json → Option (List Json)
  | .arr items => some items
  | _ => none

def obj? : Json → Option (List (String × Json))
  | .obj members => some members
  | _ => none

def int? : Json → Option Int
  | .num (.int n) => some n
  | _ => none

/-- An integer that is not negative. -/
def nat? : Json → Option Nat
  | .num (.int n) => if 0 ≤ n then some n.toNat else none
  | _ => none

def isNull : Json → Bool
  | .null => true
  | _ => false

/-- Any number, as a double. -/
def double? : Json → Option Double
  | .num (.int n) => some (.ofInt n)
  | .num (.float x) => some x
  | _ => none

mutual

/-- Equality of values: integers and doubles differ, and both zeros agree. -/
def same : Json → Json → Bool
  | .null, .null => true
  | .bool a, .bool b => a == b
  | .num (.int a), .num (.int b) => a == b
  | .num (.float a), .num (.float b) => a.same b
  | .str a, .str b => a == b
  | .arr as, .arr bs => sameItems as bs
  | .obj as, .obj bs => sameMembers as bs
  | _, _ => false

def sameItems : List Json → List Json → Bool
  | [], [] => true
  | a :: as, b :: bs => same a b && sameItems as bs
  | _, _ => false

def sameMembers : List (String × Json) → List (String × Json) → Bool
  | [], [] => true
  | (m, a) :: as, (n, b) :: bs => m == n && same a b && sameMembers as bs
  | _, _ => false

end

end Json

end CodeIndex
