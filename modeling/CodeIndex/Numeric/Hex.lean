/-!
# Hexadecimal digits

Fixed-width lower-case numerals, and octets written as pairs of digits.
-/

namespace CodeIndex.Hex

def digit (n : Nat) : Char :=
  if n < 10 then Char.ofNat (48 + n) else Char.ofNat (87 + n)

/-- The lowest `width` hexadecimal digits of `n`, the highest first. -/
def digits : (width n : Nat) → List Char
  | 0, _ => []
  | width + 1, n => digits width (n / 16) ++ [digit (n % 16)]

def fixed (width n : Nat) : String :=
  String.ofList (digits width n)

def value? (c : Char) : Option Nat :=
  if c.isDigit then some (c.toNat - 48)
  else if 'a' ≤ c && c ≤ 'f' then some (c.toNat - 87)
  else if 'A' ≤ c && c ≤ 'F' then some (c.toNat - 55)
  else none

/-- The number that hexadecimal digits spell. -/
def number? (cs : List Char) : Option Nat :=
  cs.foldlM (fun n c => (value? c).map (n * 16 + ·)) 0

/-- The octets that pairs of digits spell. -/
def octets? : List Char → Option (List UInt8)
  | [] => some []
  | [_] => none
  | a :: b :: rest => do
    let hi ← value? a
    let lo ← value? b
    let more ← octets? rest
    return UInt8.ofNat (hi * 16 + lo) :: more

def ofOctets (bs : List UInt8) : String :=
  String.ofList (bs.flatMap fun b => digits 2 b.toNat)

end CodeIndex.Hex
