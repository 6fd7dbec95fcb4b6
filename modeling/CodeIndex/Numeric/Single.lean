import CodeIndex.Numeric.Double

/-!
# Single precision numbers

The components of vectors, as bit patterns. A NaN keeps its sign here: an operation that has no value
yields the negative one, and an operand that is a NaN passes through, the first one winning. The total
order `totalLt` ranks negative NaNs below and positive NaNs above every number.
-/

namespace CodeIndex

/-- A single precision number by its bit pattern. -/
structure Single where
  bits : UInt32
  deriving DecidableEq, Repr, Inhabited

namespace Single

def toFloat32 (x : Single) : Float32 :=
  Float32.ofBits x.bits

def magnitude (x : Single) : Nat :=
  x.bits.toNat % Nat.pow 2 31

def isNegative (x : Single) : Bool :=
  Nat.pow 2 31 ≤ x.bits.toNat

def isNaN (x : Single) : Bool :=
  0x7f800000 < x.magnitude

/-- The NaN of an operation without a value. -/
def invalid : Single := ⟨0xffc00000⟩

def zero : Single := ⟨0⟩

def negZero : Single := ⟨0x80000000⟩

def one : Single := ⟨0x3f800000⟩

def neg (x : Single) : Single :=
  ⟨x.bits ^^^ 0x80000000⟩

/-- The bit pattern of a result none of whose operands is a NaN. -/
def ofResult (x : Float32) : Single :=
  if x.isNaN then invalid else ⟨x.toBits⟩

def lift1 (op : Float32 → Float32) (x : Single) : Single :=
  if x.isNaN then x else ofResult (op x.toFloat32)

def lift2 (op : Float32 → Float32 → Float32) (x y : Single) : Single :=
  if x.isNaN then x else if y.isNaN then y else ofResult (op x.toFloat32 y.toFloat32)

def isInfinite (x : Single) : Bool :=
  x.magnitude == 0x7f800000

/-- How many of the smallest positive number a finite number is. -/
def units (x : Single) : Int :=
  let e := x.magnitude / Nat.pow 2 23
  let m := x.magnitude % Nat.pow 2 23
  let n := if e = 0 then m else (Nat.pow 2 23 + m) * Nat.pow 2 (e - 1)
  if x.isNegative then -n else n

/-- The number that is nearest to so many of the smallest one. -/
def ofUnits (n : Nat) : Single :=
  let e := n.log2 - 23
  ⟨.ofNat (min 0x7f800000 (e * Nat.pow 2 23 + Double.shiftRounded n e))⟩

/-- The sum, worked out exactly and rounded once. -/
def add (x y : Single) : Single :=
  if x.isNaN then x
  else if y.isNaN then y
  else if x.isInfinite then if y.isInfinite && x.isNegative != y.isNegative then invalid else x
  else if y.isInfinite then y
  else
    let n := x.units + y.units
    if n = 0 then if x.isNegative && y.isNegative then negZero else zero
    else if n < 0 then (ofUnits n.natAbs).neg
    else ofUnits n.natAbs

def sub (x y : Single) : Single :=
  lift2 (· - ·) x y

def mul (x y : Single) : Single :=
  lift2 (· * ·) x y

def div (x y : Single) : Single :=
  lift2 (· / ·) x y

def sqrt (x : Single) : Single :=
  lift1 Float32.sqrt x

/-- Rounds a double; the NaN of an input is the positive one. -/
def ofDouble (x : Double) : Single :=
  if x.isNaN then ⟨if x.isNegative then 0xffc00000 else 0x7fc00000⟩ else ⟨x.toFloat.toFloat32.toBits⟩

/-- Widens exactly. -/
def toDouble (x : Single) : Double :=
  Double.ofFloat x.toFloat32.toFloat

/-- The nearest number. -/
def ofNat (n : Nat) : Single :=
  let e := n.log2
  if n = 0 then ⟨0⟩
  else if e ≤ 23 then ⟨.ofNat ((e + 126) * Nat.pow 2 23 + n * Nat.pow 2 (23 - e))⟩
  else if e ≤ 127 then ⟨.ofNat ((e + 126) * Nat.pow 2 23 + Double.shiftRounded n (e - 23))⟩
  else ⟨0x7f800000⟩

def ofInt (n : Int) : Single :=
  if 0 ≤ n then ofNat n.toNat else (ofNat n.natAbs).neg

/-- Increases with the number; both zeros have the key 0. -/
def key (x : Single) : Int :=
  if x.isNegative then -(x.magnitude : Int) else x.magnitude

/-- Increases along the total order: it parts the two zeros and places every NaN. -/
def totalKey (x : Single) : Int :=
  if x.isNegative then -(x.magnitude : Int) - 1 else x.magnitude

def lt (x y : Single) : Bool :=
  !x.isNaN && !y.isNaN && x.key < y.key

def isZero (x : Single) : Bool :=
  x.magnitude == 0

/-- Sums start at the negative zero and run from left to right. -/
def sum (xs : List Single) : Single :=
  xs.foldl add negZero

/-- The bit pattern in hexadecimal digits; a NaN is only named. -/
def hex (x : Single) : String :=
  if x.isNaN then "nan" else Hex.fixed 8 x.bits.toNat

end Single

end CodeIndex
