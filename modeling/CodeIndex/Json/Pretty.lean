import CodeIndex.Json.Printer

/-!
# JSON over several lines

Every item and member on a line of its own, set in by two blanks a level; what is empty stays on one
line.
-/

namespace CodeIndex.Json

/-- The lines between two brackets, all but the last with a comma. -/
def block (opening closing : String) (margin : String) (items : List String) : String :=
  if items.isEmpty then opening ++ closing
  else
    let inner := "\n" ++ margin ++ "  "
    opening ++ inner ++ ("," ++ inner).intercalate items ++ "\n" ++ margin ++ closing

mutual

/-- The text of a value that starts behind a margin. -/
def prettyFrom (margin : String) : Json → String
  | .arr items => block "[" "]" margin (prettyItems margin items)
  | .obj members => block "\x7b" "\x7d" margin (prettyMembers margin members)
  | .null => "null"
  | .bool b => (Json.bool b).render
  | .num n => n.text
  | .str s => quoted s

def prettyItems (margin : String) : List Json → List String
  | [] => []
  | a :: rest => prettyFrom (margin ++ "  ") a :: prettyItems margin rest

def prettyMembers (margin : String) : List (String × Json) → List String
  | [] => []
  | (n, a) :: rest => (quoted n ++ ": " ++ prettyFrom (margin ++ "  ") a) :: prettyMembers margin rest

end

def pretty (j : Json) : String :=
  prettyFrom "" j

end CodeIndex.Json
