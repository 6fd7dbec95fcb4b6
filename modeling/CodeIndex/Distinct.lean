/-!
# Firsts

Of the elements with one key, the first is kept.
-/

namespace CodeIndex

/-- The elements whose key is neither in `seen` nor that of an earlier element. -/
def firstsFrom [BEq κ] (key : α → κ) (seen : List κ) : List α → List α
  | [] => []
  | a :: rest =>
    if seen.contains (key a) then firstsFrom key seen rest
    else a :: firstsFrom key (key a :: seen) rest

/-- The first element of each key, in order. -/
def firstsBy [BEq κ] (key : α → κ) (xs : List α) : List α :=
  firstsFrom key [] xs

end CodeIndex
