import CodeIndex.Numeric.Double

/-!
# Database files

Reading the tables of a database file. The file is cut into pages of one size. A table is a tree of pages
with its rows in the leaves, in the order of their numbers, and the tree at the first page lists the tables. A
row is a record: the types of its columns and then their octets. What does not fit on its page goes on
in a chain of further pages.
-/

namespace CodeIndex

structure Database where
  octets : Array UInt8
  pageSize : Nat
  /-- The octets of a page that hold data; those behind them are set aside. -/
  usable : Nat

namespace Database

inductive Value where
  | null
  | int (n : Int)
  | real (x : Double)
  | text (s : String)
  | blob (octets : Array UInt8)
  deriving DecidableEq, Repr

structure Row where
  number : Int
  columns : List Value
  deriving DecidableEq, Repr

/-! ## Numbers -/

/-- The number in some octets, the highest first. -/
def number (octets : Array UInt8) (start : Nat) : (width : Nat) → Option Nat
  | 0 => some 0
  | width + 1 => do
    let high ← number octets start width
    let low ← octets[start + width]?
    return high * 256 + low.toNat

/-- A number in two's complement. -/
def signed (width n : Nat) : Int :=
  let range := Nat.pow 256 width
  if range ≤ 2 * n then (n : Int) - range else n

/-- A number of seven bits an octet, each but the last one marked, and the offset behind it; an octet after
`room` marked ones counts with all its bits. -/
def packedFrom (octets : Array UInt8) : (room value start : Nat) → Option (Nat × Nat)
  | 0, value, start => do
    let octet ← octets[start]?
    return (value * 256 + octet.toNat, start + 1)
  | room + 1, value, start => do
    let octet ← octets[start]?
    if octet.toNat < 128 then return (value * 128 + octet.toNat, start + 1)
    else packedFrom octets room (value * 128 + (octet.toNat - 128)) (start + 1)

def packed (octets : Array UInt8) (start : Nat) : Option (Nat × Nat) :=
  packedFrom octets 8 0 start

/-! ## Records -/

/-- The octets between two offsets, if all are there. -/
def slice (octets : Array UInt8) (start stop : Nat) : Option (Array UInt8) :=
  if stop ≤ octets.size then some (octets.extract start stop) else none

/-- The octets that a column of some type takes. -/
def width (type : Nat) : Nat :=
  if 12 ≤ type then (type - 12) / 2 else [0, 1, 2, 3, 4, 6, 8, 8].getD type 0

def value (octets : Array UInt8) (start type : Nat) : Option Value :=
  if type = 0 then some .null
  else if type ≤ 6 then (number octets start (width type)).map fun n => .int (signed (width type) n)
  else if type = 7 then (number octets start 8).map fun bits => .real ⟨.ofNat bits⟩
  else if type = 8 || type = 9 then some (.int (type - 8 : Nat))
  else if type < 12 then none
  else do
    let held ← slice octets start (start + width type)
    if type % 2 = 0 then return .blob held
    else return .text (← String.fromUTF8? ⟨held⟩)

/-- The types in the head of a record. -/
def types (record : Array UInt8) (stop : Nat) : (room start : Nat) → Option (List Nat)
  | 0, _ => none
  | room + 1, start =>
    if stop ≤ start then some []
    else do
      let (type, next) ← packed record start
      return type :: (← types record stop room next)

def values (record : Array UInt8) : (start : Nat) → List Nat → Option (List Value)
  | _, [] => some []
  | start, type :: rest => do
    let first ← value record start type
    return first :: (← values record (start + width type) rest)

def columns (record : Array UInt8) : Option (List Value) := do
  let (head, start) ← packed record 0
  values record head (← types record head (head + 1) start)

/-! ## Pages -/

def pageCount (d : Database) : Nat :=
  d.octets.size / d.pageSize

def pageStart (d : Database) (page : Nat) : Nat :=
  (page - 1) * d.pageSize

/-- The rest of a record, from a chain of pages that each name the next one. -/
def chained (d : Database) : (room page rest : Nat) → Option (Array UInt8)
  | _, _, 0 => some #[]
  | 0, _, _ + 1 => none
  | room + 1, page, rest => do
    let start := d.pageStart page
    let next ← number d.octets start 4
    let held := min rest (d.usable - 4)
    let front ← slice d.octets (start + 4) (start + 4 + held)
    return front ++ (← d.chained room next (rest - held))

/-- How much of a record of some size lies on the page of its row. -/
def heldInPlace (d : Database) (size : Nat) : Nat :=
  let most := d.usable - 35
  let least := (d.usable - 12) * 32 / 255 - 23
  let even := least + (size - least) % (d.usable - 4)
  if size ≤ most then size else if even ≤ most then even else least

/-- The row in a cell of a leaf. -/
def row (d : Database) (cell : Nat) : Option Row := do
  let (size, start) ← packed d.octets cell
  let (key, start) ← packed d.octets start
  let held := d.heldInPlace size
  let front ← slice d.octets start (start + held)
  let back ← if held = size then some #[] else do
    d.chained d.pageCount (← number d.octets (start + held) 4) (size - held)
  return ⟨signed 8 key, ← columns (front ++ back)⟩

/-- The rows below a page. -/
def rowsBelow (d : Database) : (room page : Nat) → Option (List Row)
  | 0, _ => none
  | room + 1, page => do
    let start := d.pageStart page
    -- the first page opens with the head of the file
    let head := if page = 1 then start + 100 else start
    let kind ← d.octets[head]?
    let count ← number d.octets (head + 3) 2
    let cells (behind : Nat) : Option (List Nat) :=
      (List.range count).mapM fun i => (number d.octets (behind + 2 * i) 2).map (start + ·)
    if kind = 13 then (← cells (head + 8)).mapM d.row
    else if kind = 5 then
      let children ← (← cells (head + 12)).mapM (number d.octets · 4)
      let rows ← (children ++ [← number d.octets (head + 8) 4]).mapM (d.rowsBelow room)
      return rows.flatten
    else none

def rows (d : Database) (page : Nat) : Option (List Row) :=
  d.rowsBelow (d.pageCount + 1) page

/-! ## Files -/

def mark : String := "SQLite format 3\x00"

/-- The database in a file of octets, with its texts in UTF-8. -/
def ofOctets? (octets : Array UInt8) : Option Database := do
  let opening ← slice octets 0 16
  let size ← number octets 16 2
  let aside ← octets[20]?
  let encoding ← number octets 56 4
  let pageSize := if size = 1 then 65536 else size
  if opening.toList = mark.toUTF8.toList && encoding = 1 then
    return { octets, pageSize, usable := pageSize - aside.toNat }
  else none

/-- The page of a table by its name. -/
def root? (name : String) (entry : Row) : Option Nat :=
  match entry.columns with
  | .text "table" :: .text n :: _ :: .int page :: _ => if n = name then some page.toNat else none
  | _ => none

/-- The rows of a table; one that is not there has none. -/
def table (d : Database) (name : String) : Option (List Row) := do
  match (← d.rows 1).findSome? (root? name) with
  | some page => d.rows page
  | none => return []

namespace Value

def text? : Value → Option String
  | .text s => some s
  | _ => none

/-- A text that may be missing. -/
def optional? : Value → Option (Option String)
  | .text s => some (some s)
  | .null => some none
  | _ => none

def nat? : Value → Option Nat
  | .int n => if 0 ≤ n then some n.toNat else none
  | _ => none

/-- A number, which is kept as an integer if it is whole. -/
def number? : Value → Option Double
  | .int n => some (.ofInt n)
  | .real x => some x
  | _ => none

end Value

end Database

end CodeIndex
