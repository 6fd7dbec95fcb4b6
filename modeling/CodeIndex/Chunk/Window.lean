import CodeIndex.Source

/-!
# The sliding window

Pieces of a text that overlap. A piece prefers to end after a line feed in its second half, otherwise
it ends at the budget. The next one starts `overlap` octets before that end, but at least half a budget
and at least a hundred octets on, and never past the end.

Offsets are 64-bit words, and a window fails where its start and its budget have no sum among them. No text has 2^63
octets and no step is as long, so that other sums need no such care.
-/

namespace CodeIndex

/-- A range of octets. -/
structure Piece where
  start : Nat
  stop : Nat
  /-- A single line that is longer than the budget. -/
  oversized : Bool := false
  deriving DecidableEq, Repr

namespace Window

/-- Offsets are 64-bit words. -/
def wordSize : Nat := Nat.pow 2 64

def minStep : Nat := 100

/-- The place, counted from `start`, of the last line feed among `n` octets. -/
def lastFeed? (s : Source) (start : Nat) : Nat → Option Nat
  | 0 => none
  | n + 1 => if s.octets[start + n]? = some Source.lineFeed then some n else lastFeed? s start n

/-- Where the budget ends a piece: between characters, and at least one character on. -/
def budgetEnd (s : Source) (budget start stop : Nat) : Nat :=
  let reach := s.floorBoundary (min (start + budget) stop)
  if reach ≤ start then s.ceilBoundary (start + 1) else reach

/-- Where a piece ends. -/
def pieceEnd (s : Source) (budget start stop : Nat) : Nat :=
  let reach := budgetEnd s budget start stop
  if reach < stop then
    match lastFeed? s start (reach - start) with
    | some n => if budget / 2 < n then start + n + 1 else reach
    | none => reach
  else reach

/-- Where the piece after one between `start` and `stop` starts. -/
def nextStart (s : Source) (budget overlap start stop : Nat) : Nat :=
  s.ceilBoundary (min (max (stop - overlap) (start + max (budget / 2) minStep)) stop)

/-- At most `limit` pieces from `start` on. -/
def piecesFrom (s : Source) (budget overlap stop : Nat) : (limit start : Nat) → Except Source.Fault (List Piece)
  | 0, _ => .ok []
  | limit + 1, start =>
    let reach := pieceEnd s budget start stop
    if wordSize ≤ start + budget then .error .overflow
    else if stop ≤ reach then .ok [⟨start, reach, false⟩]
    else (piecesFrom s budget overlap stop limit (nextStart s budget overlap start reach)).map
      (⟨start, reach, false⟩ :: ·)

/-- At most `limit` pieces of the text between two offsets. -/
def pieces (s : Source) (start stop budget overlap limit : Nat) : Except Source.Fault (List Piece) :=
  if stop ≤ start then .ok [] else piecesFrom s (max budget 1) overlap stop limit start

end Window

end CodeIndex
