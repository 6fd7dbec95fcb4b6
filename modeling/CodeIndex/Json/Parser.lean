import CodeIndex.Json.Basic
import CodeIndex.Numeric.Hex

/-!
# Reading JSON

One value between blanks, at most 127 values deep. A number without fraction and exponent that fits 64
bits is exact. Any other number is its digits, as many as fit 64 bits, times or over a power of ten, in
two roundings.
-/

namespace CodeIndex.Json

def isJsonBlank (c : Char) : Bool :=
  c == ' ' || c == '\n' || c == '\t' || c == '\r'

def skipBlanks (cs : List Char) : List Char :=
  cs.dropWhile isJsonBlank

/-! ## Numbers -/

/-- Digits that still fit 64 bits, and how many further ones were passed over. -/
structure Significand where
  value : Nat
  kept : Nat
  passed : Nat

/-- Adds digits while the value fits; the first that does not, and all after it, are passed over. -/
def Significand.read (s : Significand) : List Char → Significand × List Char
  | [] => (s, [])
  | c :: rest =>
    if c.isDigit then
      let next := s.value * 10 + (c.toNat - 48)
      if s.passed = 0 && next < Nat.pow 2 64 then read ⟨next, s.kept + 1, 0⟩ rest
      else read ⟨s.value, s.kept, s.passed + 1⟩ rest
    else (s, c :: rest)

/-- `value · 10 ^ exponent` in two roundings, or none when it is not finite. -/
def scale? (value : Nat) (exponent : Int) : Option Float :=
  let rec scaledDown (fuel : Nat) (f : Float) (exponent : Int) : Float :=
    match fuel with
    | 0 => 0.0
    | fuel + 1 =>
      if exponent.natAbs ≤ 308 then f / Float.ofScientific 1 false exponent.natAbs
      else if f == 0.0 then f
      else scaledDown fuel (f / 1e308) (exponent + 308)
  let f := Float.ofNat value
  if 0 ≤ exponent then
    if exponent ≤ 308 then
      let r := f * Float.ofScientific 1 false exponent.toNat
      if r.isInf then none else some r
    else if value = 0 then some f else none
  else some (scaledDown 5 f exponent)

/-- The exponent behind its letter: its value, or none beyond 31 bits, with its sign. -/
def exponent? (cs : List Char) : Option (Bool × Option Nat × List Char) :=
  let (positive, cs) := match cs with
    | '+' :: rest => (true, rest)
    | '-' :: rest => (false, rest)
    | _ => (true, cs)
  let ds := cs.takeWhile Char.isDigit
  if ds.isEmpty then none
  else
    let n := ds.foldl (fun n c => n * 10 + (c.toNat - 48)) 0
    some (positive, if n < Nat.pow 2 31 then some n else none, cs.dropWhile Char.isDigit)

/-- Finishes a number that has a fraction, an exponent or too many digits. -/
def finishFloat (negative : Bool) (value : Nat) (places : Int) (cs : List Char) :
    Option (Number × List Char) := do
  let signed (f : Float) : Number := .float (.ofFloat (if negative then -f else f))
  match cs with
  | c :: rest =>
    if c == 'e' || c == 'E' then
      let (positive, n, rest) ← exponent? rest
      match n with
      | some n =>
        let f ← scale? value (if positive then places + n else places - n)
        return (signed f, rest)
      | none => if positive && value ≠ 0 then none else return (signed 0.0, rest)
    else
      let f ← scale? value places
      return (signed f, cs)
  | [] =>
    let f ← scale? value places
    return (signed f, [])

/-- A number after its sign. -/
def number? (negative : Bool) (cs : List Char) : Option (Number × List Char) := do
  let ds := cs.takeWhile Char.isDigit
  guard (!ds.isEmpty && (ds.length = 1 || ds.head? != some '0'))
  let (whole, rest) := Significand.read ⟨0, 0, 0⟩ cs
  match rest with
  | '.' :: rest =>
    guard ((rest.head?.map Char.isDigit).getD false)
    -- Once digits of the whole part are passed over, those of the fraction may fit again.
    let (s, rest) := Significand.read ⟨whole.value, 0, 0⟩ rest
    finishFloat negative s.value (whole.passed - s.kept) rest
  | _ =>
    let marked := match rest with
      | c :: _ => c == 'e' || c == 'E'
      | [] => false
    if marked || 0 < whole.passed then finishFloat negative whole.value whole.passed rest
    else if !negative then return (.int whole.value, rest)
    else if whole.value = 0 || Nat.pow 2 63 < whole.value then
      return (.float (Double.ofNat whole.value).neg, rest)
    else return (.int (-(whole.value : Int)), rest)

/-! ## Texts -/

/-- Four hexadecimal digits. -/
def unit? : List Char → Option (Nat × List Char)
  | a :: b :: c :: d :: rest => (Hex.number? [a, b, c, d]).map (·, rest)
  | _ => none

/-- A character written as one or two 16-bit units, after the first `\u`. -/
def unicode? (cs : List Char) : Option (Char × List Char) := do
  let (hi, rest) ← unit? cs
  if 0xd800 ≤ hi && hi < 0xdc00 then
    match rest with
    | '\\' :: 'u' :: rest =>
      let (lo, rest) ← unit? rest
      guard (0xdc00 ≤ lo && lo < 0xe000)
      return (Char.ofNat (0x10000 + (hi - 0xd800) * 0x400 + (lo - 0xdc00)), rest)
    | _ => none
  else if 0xdc00 ≤ hi && hi < 0xe000 then none
  else return (Char.ofNat hi, rest)

/-- The text up to the closing quote; `acc` holds it in reverse. -/
def text? (fuel : Nat) (acc : List Char) (cs : List Char) : Option (String × List Char) :=
  match fuel, cs with
  | 0, _ | _, [] => none
  | fuel + 1, c :: rest =>
    if c == '"' then some (String.ofList acc.reverse, rest)
    else if c == '\\' then
      match rest with
      | '"' :: rest => text? fuel ('"' :: acc) rest
      | '\\' :: rest => text? fuel ('\\' :: acc) rest
      | '/' :: rest => text? fuel ('/' :: acc) rest
      | 'b' :: rest => text? fuel (Char.ofNat 8 :: acc) rest
      | 'f' :: rest => text? fuel (Char.ofNat 12 :: acc) rest
      | 'n' :: rest => text? fuel ('\n' :: acc) rest
      | 'r' :: rest => text? fuel ('\r' :: acc) rest
      | 't' :: rest => text? fuel ('\t' :: acc) rest
      | 'u' :: rest =>
        match unicode? rest with
        | some (u, rest) => text? fuel (u :: acc) rest
        | none => none
      | _ => none
    else if c.toNat < 32 then none
    else text? fuel (c :: acc) rest

/-! ## Values -/

mutual

/-- A value at the front. `fuel` bounds the steps and `depth` the nesting. -/
def value? (fuel depth : Nat) (cs : List Char) : Option (Json × List Char) :=
  match fuel with
  | 0 => none
  | fuel + 1 =>
    match skipBlanks cs with
    | 'n' :: 'u' :: 'l' :: 'l' :: rest => some (.null, rest)
    | 't' :: 'r' :: 'u' :: 'e' :: rest => some (.bool true, rest)
    | 'f' :: 'a' :: 'l' :: 's' :: 'e' :: rest => some (.bool false, rest)
    | '"' :: rest => (text? fuel [] rest).map fun (s, rest) => (.str s, rest)
    | '[' :: rest =>
      if depth = 0 then none
      else match skipBlanks rest with
        | ']' :: rest => some (.arr [], rest)
        | rest => items? fuel (depth - 1) [] rest
    | '\x7b' :: rest =>
      if depth = 0 then none
      else match skipBlanks rest with
        | '\x7d' :: rest => some (.obj [], rest)
        | rest => members? fuel (depth - 1) [] rest
    | '-' :: rest => (number? true rest).map fun (n, rest) => (.num n, rest)
    | rest => (number? false rest).map fun (n, rest) => (.num n, rest)

/-- The items of a list up to its end; `acc` holds them in reverse. -/
def items? (fuel depth : Nat) (acc : List Json) (cs : List Char) : Option (Json × List Char) :=
  match fuel with
  | 0 => none
  | fuel + 1 =>
    match value? fuel depth cs with
    | none => none
    | some (v, rest) =>
      match skipBlanks rest with
      | ',' :: rest => items? fuel depth (v :: acc) rest
      | ']' :: rest => some (.arr (v :: acc).reverse, rest)
      | _ => none

/-- The members of an object up to its end; `acc` holds them in reverse. -/
def members? (fuel depth : Nat) (acc : List (String × Json)) (cs : List Char) :
    Option (Json × List Char) :=
  match fuel with
  | 0 => none
  | fuel + 1 =>
    match skipBlanks cs with
    | '"' :: rest =>
      match text? fuel [] rest with
      | none => none
      | some (name, rest) =>
        match skipBlanks rest with
        | ':' :: rest =>
          match value? fuel depth rest with
          | none => none
          | some (v, rest) =>
            match skipBlanks rest with
            | ',' :: rest => members? fuel depth ((name, v) :: acc) rest
            | '\x7d' :: rest => some (ofMembers ((name, v) :: acc).reverse, rest)
            | _ => none
        | _ => none
    | _ => none

end

/-- The one value that a text spells. -/
def parse? (s : String) : Option Json :=
  let cs := s.toList
  match value? (2 * cs.length + 2) 127 cs with
  | some (v, rest) => if (skipBlanks rest).isEmpty then some v else none
  | none => none

/-- The value after a trip through its text and back. -/
def reread (render : Json → String) (v : Json) : Json :=
  (parse? (render v)).getD v

end CodeIndex.Json
