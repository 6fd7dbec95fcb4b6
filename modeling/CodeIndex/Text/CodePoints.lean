/-!
# Runs of code points

A character property is a table of runs. A run lists every `step`-th code point between two bounds, so
that alphabets in which two cases alternate stay short.
-/

namespace CodeIndex.Text

/-- The code points `lo`, `lo + step`, … up to `hi`. -/
structure Run where
  lo : Nat
  hi : Nat
  step : Nat
  deriving DecidableEq, Repr

def Run.holds (r : Run) (n : Nat) : Bool :=
  r.lo ≤ n && n ≤ r.hi && (n - r.lo) % r.step == 0

/-- A set of code points, as a table of runs. -/
abbrev CodePoints := Array Run

def CodePoints.holds (t : CodePoints) (c : Char) : Bool :=
  t.any (·.holds c.toNat)

end CodeIndex.Text
