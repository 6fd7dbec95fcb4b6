import CodeIndex.Json.Basic

/-!
# Tables of settings files

A document is a sequence of statements: a header opens a table, and an assignment adds a value to the
open table, below further tables if its key is dotted. A table is written in one place only: how it came
about decides what may still be added.
-/

namespace CodeIndex.Toml

inductive Statement where
  /-- `[path]` -/
  | table (path : List String)
  /-- `[[path]]` -/
  | element (path : List String)
  /-- `path = value` -/
  | assign (path : List String) (value : Json)
  deriving Repr

/-- How a table came about. -/
inductive Origin where
  /-- By a header of its own. -/
  | header
  /-- By the header of a table below it. -/
  | implied
  /-- By a dotted key. -/
  | dotted
  deriving DecidableEq, Repr

inductive Item where
  /-- A finished value, to which nothing is added. -/
  | value (v : Json)
  | table (origin : Origin) (entries : List (String × Item))
  /-- A list of tables, the last one first. -/
  | elements (last : List (String × Item)) (before : List (List (String × Item)))
  deriving Repr

abbrev Entries := List (String × Item)

namespace Entries

/-- The entries with the one of that name changed, or a new one at the end. -/
def alter (name : String) (change : Option Item → Option Item) : Entries → Option Entries
  | [] => (change none).map fun item => [(name, item)]
  | (n, item) :: rest =>
    if n = name then (change (some item)).map fun item => (n, item) :: rest
    else (alter name change rest).map ((n, item) :: ·)

/-- Changes the table that a header's path leads to, and makes those on the way that are missing. -/
def below (change : Entries → Option Entries) : List String → Entries → Option Entries
  | [], entries => change entries
  | name :: path, entries => entries.alter name fun
    | none => (below change path []).map (.table .implied)
    | some (.table origin inner) => (below change path inner).map (.table origin)
    | some (.elements last before) => (below change path last).map (.elements · before)
    | some (.value _) => none

/-- Adds a value under a dotted key. It may pass tables without a header of their own, and end in one
that only dotted keys have made. -/
def assign (value : Json) : List String → Entries → Option Entries
  | [], _ => none
  | [name], entries => entries.alter name fun
    | none => some (.value value)
    | some _ => none
  | name :: path, entries => entries.alter name fun
    | none => (assign value path []).map (.table .dotted)
    | some (.table .dotted inner) => (assign value path inner).map (.table .dotted)
    | some (.table .implied inner) =>
      if path.length = 1 then none else (assign value path inner).map (.table .implied)
    | some _ => none

/-- Opens the table of a header. -/
def opened (name : String) (entries : Entries) : Option Entries :=
  entries.alter name fun
    | none => some (.table .header [])
    | some (.table .implied inner) => some (.table .header inner)
    | some _ => none

/-- Adds a table to a list of tables. -/
def extended (name : String) (entries : Entries) : Option Entries :=
  entries.alter name fun
    | none => some (.elements [] [])
    | some (.elements last before) => some (.elements [] (last :: before))
    | some _ => none

end Entries

/-- The tables so far, and the path of the open one. -/
structure Draft where
  root : Entries := []
  path : List String := []
  deriving Repr

/-- A path apart from its last name, and that name. -/
def splitLast? (path : List String) : Option (List String × String) :=
  path.getLast?.map (path.dropLast, ·)

def Draft.add (d : Draft) : Statement → Option Draft
  | .table path => do
    let (parent, name) ← splitLast? path
    return ⟨← d.root.below (Entries.opened name) parent, path⟩
  | .element path => do
    let (parent, name) ← splitLast? path
    return ⟨← d.root.below (Entries.extended name) parent, path⟩
  | .assign path value => do
    return { d with root := ← d.root.below (Entries.assign value path) d.path }

mutual

def Item.toJson : Item → Json
  | .value v => v
  | .table _ entries => .ofMembers (entriesToJson entries)
  | .elements last before => .arr (elementsToJson [.ofMembers (entriesToJson last)] before)

def entriesToJson : List (String × Item) → List (String × Json)
  | [] => []
  | (n, item) :: rest => (n, item.toJson) :: entriesToJson rest

/-- The tables of a list, in order, before those that are given. -/
def elementsToJson (acc : List Json) : List (List (String × Item)) → List Json
  | [] => acc
  | entries :: rest => elementsToJson (.ofMembers (entriesToJson entries) :: acc) rest

end

/-- The value of assignments alone, as between braces. -/
def inlineTable? (assignments : List (List String × Json)) : Option Json :=
  (assignments.foldlM (fun (entries : Entries) (path, v) => entries.assign v path) []).map fun entries =>
    .ofMembers (entriesToJson entries)

/-- The value of a whole document. -/
def document? (statements : List Statement) : Option Json :=
  (statements.foldlM Draft.add {}).map fun d => .ofMembers (entriesToJson d.root)

end CodeIndex.Toml
