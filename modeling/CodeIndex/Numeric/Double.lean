import CodeIndex.Numeric.Hex

/-!
# Double precision numbers

A double is kept as its bit pattern, so that equality of values is decidable. Comparison goes through
an integer that increases with the number, and a NaN compares with nothing.
-/

namespace CodeIndex

/-- A double precision number by its bit pattern. -/
structure Double where
  bits : UInt64
  deriving DecidableEq, Repr, Inhabited

namespace Double

def ofFloat (x : Float) : Double :=
  ⟨x.toBits⟩

def toFloat (x : Double) : Float :=
  Float.ofBits x.bits

/-- The quotient by `2 ^ s`, rounded to nearest and to even at a tie. -/
def shiftRounded (n s : Nat) : Nat :=
  let q := n / Nat.pow 2 s
  let r := 2 * (n % Nat.pow 2 s)
  if Nat.pow 2 s < r || (r = Nat.pow 2 s && q % 2 = 1) then q + 1 else q

/-- The nearest double. -/
def ofNat (n : Nat) : Double :=
  let e := n.log2
  if n = 0 then ⟨0⟩
  else if e ≤ 52 then ⟨.ofNat ((e + 1022) * Nat.pow 2 52 + n * Nat.pow 2 (52 - e))⟩
  else if e ≤ 1023 then ⟨.ofNat ((e + 1022) * Nat.pow 2 52 + shiftRounded n (e - 52))⟩
  else ⟨0x7ff0000000000000⟩

def neg (x : Double) : Double :=
  ⟨x.bits ^^^ 0x8000000000000000⟩

def ofInt (n : Int) : Double :=
  if 0 ≤ n then ofNat n.toNat else (ofNat n.natAbs).neg

def zero : Double := ⟨0⟩

instance (n : Nat) : OfNat Double n := ⟨ofNat n⟩

/-- The bit pattern without its sign. -/
def magnitude (x : Double) : Nat :=
  x.bits.toNat % Nat.pow 2 63

def isNegative (x : Double) : Bool :=
  Nat.pow 2 63 ≤ x.bits.toNat

def isNaN (x : Double) : Bool :=
  0x7ff0000000000000 < x.magnitude

def isFinite (x : Double) : Bool :=
  x.magnitude < 0x7ff0000000000000

/-- Increases with the number; both zeros have the key 0. -/
def key (x : Double) : Int :=
  if x.isNegative then -(x.magnitude : Int) else x.magnitude

/-- False as soon as one side is a NaN. -/
def lt (x y : Double) : Bool :=
  !x.isNaN && !y.isNaN && x.key < y.key

/-- False as soon as one side is a NaN. -/
def le (x y : Double) : Bool :=
  !x.isNaN && !y.isNaN && x.key ≤ y.key

/-- Equality of numbers: both zeros agree and a NaN differs from itself. -/
def same (x y : Double) : Bool :=
  !x.isNaN && !y.isNaN && x.key == y.key

/-- The bit pattern in hexadecimal digits; a NaN is only named. -/
def hex (x : Double) : String :=
  if x.isNaN then "nan" else Hex.fixed 16 x.bits.toNat

end Double

end CodeIndex
