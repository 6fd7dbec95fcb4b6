import CodeIndex.Numeric.Decimal
import CodeIndex.Numeric.Single

/-!
# Shortest decimal text

The fewest decimal digits that read back as a given number: the reals that round to the number form an
interval, and of the decimal grids from coarse to fine the first with a point in it is taken. Of two
points the nearer wins, and of two equally near ones the even one.
-/

namespace CodeIndex.Shortest

/-- A positive number `digits · 10 ^ exponent`. -/
structure Decimal where
  digits : Nat
  exponent : Int
  deriving DecidableEq, Repr

/-- The reals that round to one number, as multiples of `1 / den`. -/
structure Interval where
  lo : Nat
  mid : Nat
  hi : Nat
  den : Nat
  closed : Bool

/-- The interval of `m · 2 ^ q`; its lower half is narrow where `m` is the least of its exponent. -/
def Interval.around (m : Nat) (q : Int) (isLeast : Bool) : Interval :=
  let below := if isLeast then 1 else 2
  let up := Nat.pow 2 (q - 2).toNat
  ⟨(4 * m - below) * up, 4 * m * up, (4 * m + 2) * up, Nat.pow 2 (2 - q).toNat, m % 2 = 0⟩

/-- The interval of a finite positive number by its bit pattern, of which `width` bits are the fraction;
the least exponent is `-lowest`. -/
def Interval.ofPattern (width lowest magnitude : Nat) : Interval :=
  let stored := magnitude / Nat.pow 2 width
  let fraction := magnitude % Nat.pow 2 width
  let m := if stored = 0 then fraction else fraction + Nat.pow 2 width
  .around m ((max stored 1 : Nat) - (lowest + 1 : Nat)) (fraction = 0 && 1 < stored)

def Interval.of (x : Double) : Interval :=
  .ofPattern 52 1074 x.magnitude

def Interval.ofSingle (x : Single) : Interval :=
  .ofPattern 23 149 x.magnitude

/-- The integer digits of a number that is at least one; below one, minus the zeros that follow the
point. -/
def pointPlace (num den : Nat) : Int :=
  if den ≤ num then (Nat.toDigits 10 (num / den)).length
  else
    let rec zeros (fuel num : Nat) : Int :=
      match fuel with
      | 0 => 0
      | fuel + 1 => if den ≤ num * 10 then 0 else zeros fuel (num * 10) - 1
    zeros 400 num

/-- The point of the grid of multiples of `10 ^ e` that reads back, if there is one. -/
def Interval.onGrid (i : Interval) (e : Int) : Option Nat :=
  let unit := Nat.pow 10 e.toNat * i.den
  let scale := Nat.pow 10 (-e).toNat
  let inside (g : Nat) : Bool :=
    if i.closed then i.lo * scale ≤ g * unit && g * unit ≤ i.hi * scale
    else i.lo * scale < g * unit && g * unit < i.hi * scale
  let g := i.mid * scale / unit
  match inside g, inside (g + 1) with
  | true, true =>
    let low := i.mid * scale - g * unit
    let high := (g + 1) * unit - i.mid * scale
    if low < high then some g
    else if high < low then some (g + 1)
    else if g % 2 = 0 then some g else some (g + 1)
  | true, false => some g
  | false, true => some (g + 1)
  | false, false => none

/-- Moves trailing zeros into the exponent. -/
def Decimal.strip (fuel : Nat) (d : Decimal) : Decimal :=
  match fuel with
  | 0 => d
  | fuel + 1 => if d.digits % 10 = 0 && d.digits ≠ 0 then strip fuel ⟨d.digits / 10, d.exponent + 1⟩ else d

/-- The shortest decimal of an interval. -/
def Interval.decimal (i : Interval) : Decimal :=
  let place := pointPlace i.mid i.den
  let found := (List.range 17).findSome? fun (n : Nat) =>
    let e := place - n - 1
    (i.onGrid e).map fun g => (⟨g, e⟩ : Decimal)
  (found.getD ⟨i.mid / i.den, 0⟩).strip 20

/-- The shortest decimal of a finite positive double. -/
def decimal (x : Double) : Decimal :=
  (Interval.of x).decimal

/-- Positional up to sixteen integer digits and down to five zeros after the point, with an exponent
beyond; a number without a fraction keeps one zero after the point. -/
def Decimal.text (d : Decimal) : String :=
  let ds := Nat.toDigits 10 d.digits
  let n := ds.length
  let place := d.exponent + n
  if 0 ≤ d.exponent && place ≤ 16 then
    String.ofList (ds ++ List.replicate d.exponent.toNat '0' ++ ['.', '0'])
  else if 0 < place && place ≤ 16 then
    String.ofList (ds.take place.toNat ++ ['.'] ++ ds.drop place.toNat)
  else if -5 < place && place ≤ 0 then
    String.ofList (['0', '.'] ++ List.replicate (-place).toNat '0' ++ ds)
  else
    let mantissa := if n = 1 then ds else ds.take 1 ++ ['.'] ++ ds.drop 1
    String.ofList mantissa ++ "e" ++ toString (place - 1)

/-- The text of a finite double. -/
def text (x : Double) : String :=
  let sign := if x.isNegative then "-" else ""
  if x.magnitude = 0 then sign ++ "0.0" else sign ++ (decimal x).text

/-- The double whose text is the shortest of a single. -/
def widened (x : Single) : Double :=
  let d := (Interval.ofSingle x).decimal
  let y := if x.magnitude = 0 then Double.zero else Double.ofDecimal d.digits d.exponent
  if x.isNegative then y.neg else y

end CodeIndex.Shortest
