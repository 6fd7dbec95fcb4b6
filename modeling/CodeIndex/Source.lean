/-!
# Source text

A text with its octets. Offsets count octets. A slice is text again exactly when both its ends lie
between characters. Lines end just after a line feed or at the end of the text; they are numbered
from 1.
-/

namespace CodeIndex

structure Source where
  text : String
  octets : Array UInt8
  /-- The offset at which each line starts. -/
  starts : Array Nat

namespace Source

def lineFeed : UInt8 := 10

/-- The offsets just after a line feed, in ascending order, save the one that ends the text. -/
def startsFrom (size offset : Nat) : List UInt8 → List Nat
  | [] => []
  | b :: rest =>
    if b = lineFeed && offset + 1 < size then (offset + 1) :: startsFrom size (offset + 1) rest
    else startsFrom size (offset + 1) rest

def ofString (text : String) : Source :=
  let octets := text.toByteArray.data
  { text, octets, starts := (0 :: startsFrom octets.size 0 octets.toList).toArray }

def size (s : Source) : Nat :=
  s.octets.size

/-- The text between two offsets, if both lie in the text and between characters. -/
def slice? (s : Source) (start stop : Nat) : Option String :=
  if start ≤ stop && stop ≤ s.size then String.fromUTF8? ⟨s.octets.extract start stop⟩ else none

/-- The line feeds before an offset. -/
def row (s : Source) (offset : Nat) : Nat :=
  (s.octets.extract 0 offset).toList.countP (· == lineFeed)

/-- The octets between the last line feed before an offset and the offset. -/
def column (s : Source) (offset : Nat) : Nat :=
  ((s.octets.extract 0 offset).toList.reverse.takeWhile (· != lineFeed)).length

/-! ## Lines -/

def lineCount (s : Source) : Nat :=
  if s.size = 0 then 0 else s.starts.size

/-- The line that contains an offset. -/
def lineAt (s : Source) (offset : Nat) : Nat :=
  max (s.starts.toList.countP (· ≤ offset)) 1

/-- A line or a range outside the text, or a sum of offsets that is none. -/
inductive Fault where
  | outOfRange
  | overflow
  deriving DecidableEq, Repr

/-- The offsets between which the lines from `first` to `last` lie, the final line feed included. Lines
past the end are not asked for by their start. -/
def span (s : Source) (first last : Nat) : Except Fault (Nat × Nat) :=
  match first with
  | 0 => .error .outOfRange
  | k + 1 =>
    match s.starts[k]? with
    | some start => .ok (start, (s.starts[last]?).getD s.size)
    | none => .error .outOfRange

/-- The text between two offsets. -/
def slice (s : Source) (start stop : Nat) : Except Fault String :=
  match s.slice? start stop with
  | some text => .ok text
  | none => .error .outOfRange

/-- The text of the lines from `first` to `last`. -/
def lineText (s : Source) (first last : Nat) : Except Fault String := do
  let (start, stop) ← s.span first last
  s.slice start stop

/-! ## Characters -/

/-- Whether an offset lies between characters: at an end, or before an octet that starts one. -/
def isBoundary (s : Source) (offset : Nat) : Bool :=
  match s.octets[offset]? with
  | some b => b.toNat < 0x80 || 0xc0 ≤ b.toNat
  | none => offset == s.size

/-- The last offset between characters that is not after `i`. -/
def floorBoundary (s : Source) : Nat → Nat
  | 0 => 0
  | i + 1 => if s.isBoundary (i + 1) then i + 1 else s.floorBoundary i

/-- The first offset between characters among the `n` from `i` on, or `i + n`. -/
def boundaryWithin (s : Source) : (n i : Nat) → Nat
  | 0, i => i
  | n + 1, i => if s.isBoundary i then i else s.boundaryWithin n (i + 1)

/-- The first offset between characters that is not before `i`. -/
def ceilBoundary (s : Source) (i : Nat) : Nat :=
  s.boundaryWithin (s.size - i) i

end Source

end CodeIndex
