import CodeIndex.Json.Basic
import CodeIndex.Tree.Basic

/-!
# Trees as flat listings

A tree can be given as an object: tables of kinds and fields, and one list of numbers with six for each
node in pre-order (depth, kind, field, flags, start, end). Field 0 is no field.
-/

namespace CodeIndex.Tree

/-- The entries of a list of numbers, six for each. -/
def listingEntries (kinds fields : Array String) : List Nat → List Entry
  | depth :: kind :: field :: flags :: start :: stop :: rest =>
    let node : Node := {
      kind := kinds.getD kind ""
      field := if field = 0 then none else fields[field]?
      isNamed := flags.testBit 0
      isError := flags.testBit 1
      isMissing := flags.testBit 2
      isExtra := flags.testBit 3
      hasError := flags.testBit 4
      start, stop
      children := [] }
    ⟨depth, node⟩ :: listingEntries kinds fields rest
  | _ => []

/-- A tree and the language to whose grammar it belongs. -/
def ofListing? (listing : Json) : Option (String × Node) := do
  let language ← (listing.get? "language").bind Json.str?
  let texts (name : String) : Array String :=
    (((listing.get? name).bind Json.arr?).getD []).filterMap Json.str? |>.toArray
  let numbers := (((listing.get? "nodes").bind Json.arr?).getD []).filterMap Json.nat?
  let root ← ofPreorder? (listingEntries (texts "kinds") (texts "fields") numbers)
  return (language, root)

end CodeIndex.Tree
