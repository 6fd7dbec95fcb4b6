import CodeIndex.Json.Basic
import CodeIndex.Numeric.Shortest

/-!
# JSON text

The compact text of a value: no blanks, and only what must be escaped is. A number that is not finite is
written as null.
-/

namespace CodeIndex.Json

def escapeChar (c : Char) : List Char :=
  match c with
  | '"' => ['\\', '"']
  | '\\' => ['\\', '\\']
  | '\n' => ['\\', 'n']
  | '\r' => ['\\', 'r']
  | '\t' => ['\\', 't']
  | c =>
    if c.toNat = 8 then ['\\', 'b']
    else if c.toNat = 12 then ['\\', 'f']
    else if c.toNat < 32 then '\\' :: 'u' :: Hex.digits 4 c.toNat
    else [c]

def quoted (s : String) : String :=
  "\"" ++ String.ofList (s.toList.flatMap escapeChar) ++ "\""

def Number.text : Number → String
  | .int n => toString n
  | .float x => if x.isFinite then Shortest.text x else "null"

mutual

def render : Json → String
  | .null => "null"
  | .bool true => "true"
  | .bool false => "false"
  | .num n => n.text
  | .str s => quoted s
  | .arr items => "[" ++ ",".intercalate (renderItems items) ++ "]"
  | .obj members => "\x7b" ++ ",".intercalate (renderMembers members) ++ "\x7d"

def renderItems : List Json → List String
  | [] => []
  | a :: rest => render a :: renderItems rest

def renderMembers : List (String × Json) → List String
  | [] => []
  | (n, a) :: rest => (quoted n ++ ":" ++ render a) :: renderMembers rest

end

end CodeIndex.Json
