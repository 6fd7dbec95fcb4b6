/-!
# Lines

A text is cut at its line feeds. A final line feed ends the last line and starts none, and a carriage
return just before a line feed belongs to the line's end.
-/

namespace CodeIndex.Text

/-- The parts of a text between the characters equal to `sep`: one more than there are separators. -/
def splitAt (sep : Char) : List Char → List (List Char)
  | [] => [[]]
  | c :: rest =>
    match splitAt sep rest with
    | part :: parts => if c = sep then [] :: part :: parts else (c :: part) :: parts
    | [] => [[c]]

def splitOn (s : String) (sep : Char) : List String :=
  (splitAt sep s.toList).map String.ofList

/-- Drops one carriage return at the end. -/
def dropReturn (cs : List Char) : List Char :=
  match cs.getLast? with
  | some '\r' => cs.dropLast
  | _ => cs

/-- The lines of a text as character lists. Only a line that a line feed ends loses its carriage
return. -/
def lineChars (cs : List Char) : List (List Char) :=
  let parts := splitAt '\n' cs
  let ended := parts.dropLast.map dropReturn
  match parts.getLast? with
  | some [] | none => ended
  | some last => ended ++ [last]

def lines (s : String) : List String :=
  (lineChars s.toList).map String.ofList

end CodeIndex.Text
