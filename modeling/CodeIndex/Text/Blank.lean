/-!
# White space

The code points that count as blank, and the trimming and splitting that rest on them.
-/

namespace CodeIndex.Text

def isBlank (c : Char) : Bool :=
  let n := c.toNat
  (9 ≤ n && n ≤ 13) || n == 0x20 || n == 0x85 || n == 0xa0 || n == 0x1680 ||
    (0x2000 ≤ n && n ≤ 0x200a) || n == 0x2028 || n == 0x2029 || n == 0x202f || n == 0x205f || n == 0x3000

def dropBlanks (cs : List Char) : List Char :=
  cs.dropWhile isBlank

def dropBlanksEnd (cs : List Char) : List Char :=
  (cs.reverse.dropWhile isBlank).reverse

def trimChars (cs : List Char) : List Char :=
  dropBlanksEnd (dropBlanks cs)

def trim (s : String) : String :=
  String.ofList (trimChars s.toList)

def trimStart (s : String) : String :=
  String.ofList (dropBlanks s.toList)

def trimEnd (s : String) : String :=
  String.ofList (dropBlanksEnd s.toList)

/-- Nothing but blanks. -/
def isBlankText (s : String) : Bool :=
  s.toList.all isBlank

/-- The maximal runs of characters outside `sep`; a run is built in reverse in `word`. -/
def fieldsFrom (sep : Char → Bool) (word : List Char) : List Char → List (List Char)
  | [] => if word.isEmpty then [] else [word.reverse]
  | c :: rest =>
    if sep c then
      if word.isEmpty then fieldsFrom sep [] rest else word.reverse :: fieldsFrom sep [] rest
    else fieldsFrom sep (c :: word) rest

/-- The non-empty runs of characters between separators. -/
def fields (sep : Char → Bool) (cs : List Char) : List (List Char) :=
  fieldsFrom sep [] cs

/-- The words of a text, parted by blanks. -/
def words (s : String) : List String :=
  (fields isBlank s.toList).map String.ofList

end CodeIndex.Text
