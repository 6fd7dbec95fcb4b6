/-!
# Finding text

Prefixes, suffixes and occurrences, on character lists and on strings.
-/

namespace CodeIndex.Text

/-- What follows `front` in a list that starts with it. -/
def dropFront? [DecidableEq α] : List α → List α → Option (List α)
  | [], cs => some cs
  | _ :: _, [] => none
  | p :: front, c :: cs => if p = c then dropFront? front cs else none

/-- What precedes `back` in a list that ends with it. -/
def dropBack? [DecidableEq α] (back cs : List α) : Option (List α) :=
  (dropFront? back.reverse cs.reverse).map List.reverse

def startsWith (s front : String) : Bool :=
  (dropFront? front.toList s.toList).isSome

def endsWith (s back : String) : Bool :=
  (dropBack? back.toList s.toList).isSome

def stripFront? (s front : String) : Option String :=
  (dropFront? front.toList s.toList).map String.ofList

def stripBack? (s back : String) : Option String :=
  (dropBack? back.toList s.toList).map String.ofList

/-- The parts before and after the first occurrence of `needle`. -/
def cutChars? (needle : List Char) : List Char → Option (List Char × List Char)
  | [] => if needle.isEmpty then some ([], []) else none
  | c :: cs =>
    match dropFront? needle (c :: cs) with
    | some rest => some ([], rest)
    | none => (cutChars? needle cs).map fun (before, after) => (c :: before, after)

/-- The parts before and after the last occurrence of `needle`. -/
def cutLastChars? (needle cs : List Char) : Option (List Char × List Char) :=
  (cutChars? needle.reverse cs.reverse).map fun (after, before) => (before.reverse, after.reverse)

def cut? (s needle : String) : Option (String × String) :=
  (cutChars? needle.toList s.toList).map fun (a, b) => (String.ofList a, String.ofList b)

def cutLast? (s needle : String) : Option (String × String) :=
  (cutLastChars? needle.toList s.toList).map fun (a, b) => (String.ofList a, String.ofList b)

def containsChars (needle cs : List Char) : Bool :=
  (cutChars? needle cs).isSome

/-- `needle` stands somewhere in `s`. -/
def contains (s needle : String) : Bool :=
  containsChars needle.toList s.toList

/-- Every character satisfying `p` is dropped from both ends. -/
def stripBoth (p : Char → Bool) (s : String) : String :=
  String.ofList ((s.toList.dropWhile p).reverse.dropWhile p).reverse

/-- Every character satisfying `p` is dropped from the end. -/
def stripEnd (p : Char → Bool) (s : String) : String :=
  String.ofList (s.toList.reverse.dropWhile p).reverse

/-- Every character satisfying `p` is dropped from the start. -/
def stripStart (p : Char → Bool) (s : String) : String :=
  String.ofList (s.toList.dropWhile p)

/-- Every `old` character is replaced by `new`. -/
def replaceChar (s : String) (old new : Char) : String :=
  String.ofList (s.toList.map fun c => if c = old then new else c)

/-- Every `old` character is replaced by the characters `new`. -/
def replaceWith (old : Char) (new cs : List Char) : List Char :=
  cs.flatMap fun c => if c = old then new else [c]

end CodeIndex.Text
