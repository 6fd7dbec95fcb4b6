import CodeIndex.Numeric.Double

/-!
# Reading decimals

The double nearest to a ratio or to a decimal, to even at a tie; beyond the greatest double it is
infinite.
-/

namespace CodeIndex.Double

def infinity : Double := ⟨0x7ff0000000000000⟩

def nan : Double := ⟨0x7ff8000000000000⟩

/-- The quotient rounded to nearest, and to even at a tie. -/
def divRounded (n d : Nat) : Nat :=
  let q := n / d
  let r := 2 * (n % d)
  if d < r || (r = d && q % 2 = 1) then q + 1 else q

/-- The double nearest to `num / den`. -/
def ofRatio (num den : Nat) : Double :=
  if num = 0 || den = 0 then zero
  else
    let e : Int := (num.log2 : Int) - den.log2
    -- The ratio lies between two neighbouring powers of two, of which `2 ^ k` is the lower.
    let k := if den * Nat.pow 2 e.toNat ≤ num * Nat.pow 2 (-e).toNat then e else e - 1
    let unit := max (k - 52) (-1074)
    let m := divRounded (num * Nat.pow 2 (-unit).toNat) (den * Nat.pow 2 unit.toNat)
    let bits := (unit + 1074).toNat * Nat.pow 2 52 + m
    if bits < infinity.bits.toNat then ⟨.ofNat bits⟩ else infinity

/-- The double nearest to `digits · 10 ^ exponent`. -/
def ofDecimal (digits : Nat) (exponent : Int) : Double :=
  let place := exponent + (Nat.toDigits 10 digits).length
  if digits = 0 || place < -330 then zero
  else if 310 < place then infinity
  else ofRatio (digits * Nat.pow 10 exponent.toNat) (Nat.pow 10 (-exponent).toNat)

end CodeIndex.Double
