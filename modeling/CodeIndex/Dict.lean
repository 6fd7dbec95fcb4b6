/-!
# Sorted dictionaries

Association lists in ascending order of their keys, each key once.
-/

namespace CodeIndex

/-- Entries in ascending order of their keys. -/
abbrev Dict (α : Type u) := List (String × α)

namespace Dict

/-- Sets the entry of a key. -/
def put (key : String) (value : α) : Dict α → Dict α
  | [] => [(key, value)]
  | (k, v) :: rest =>
    if key < k then (key, value) :: (k, v) :: rest
    else if key = k then (key, value) :: rest
    else (k, v) :: put key value rest

/-- Sets the entry of a key that has none. -/
def putNew (key : String) (value : α) (d : Dict α) : Dict α :=
  if (d.lookup key).isSome then d else put key value d

/-- Entries in any order; the last of equal keys wins. -/
def ofList (entries : List (String × α)) : Dict α :=
  entries.foldl (fun d (k, v) => put k v d) []

/-- Adds one to the count of a key. -/
def count (key : String) (d : Dict Nat) : Dict Nat :=
  put key ((d.lookup key).getD 0 + 1) d

/-- How often each key occurs. -/
def tally (keys : List String) : Dict Nat :=
  keys.foldl (fun d k => count k d) []

end Dict

end CodeIndex
