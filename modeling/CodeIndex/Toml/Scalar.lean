import CodeIndex.Json.Basic
import CodeIndex.Numeric.Decimal

/-!
# Plain values of settings files

Truth values, integers in four radices, floats and points in time, each from the characters of one
word.
-/

namespace CodeIndex.Toml

/-! ## Numbers -/

/-- Digits without the underscores that stand between two of them. -/
def ungrouped? (isDigit : Char → Bool) : List Char → Option (List Char)
  | [] => none
  | [d] => if isDigit d then some [d] else none
  | d :: '_' :: rest => if isDigit d then (ungrouped? isDigit rest).map (d :: ·) else none
  | d :: rest => if isDigit d then (ungrouped? isDigit rest).map (d :: ·) else none

def number (radix : Nat) (ds : List Char) : Nat :=
  ds.foldl (fun n d => n * radix + (Hex.value? d).getD 0) 0

def isHexDigit (c : Char) : Bool :=
  (Hex.value? c).isSome

/-- Decimal digits, of which the first is no zero unless it is the only one. -/
def whole? (cs : List Char) : Option (List Char) := do
  let ds ← ungrouped? Char.isDigit cs
  if ds.length = 1 || ds.head? ≠ some '0' then return ds else none

/-- A sign and what follows it. -/
def signed : List Char → Bool × List Char
  | '+' :: cs => (false, cs)
  | '-' :: cs => (true, cs)
  | cs => (false, cs)

/-- An integer of at most 128 bits. -/
def integer? (cs : List Char) : Option Int := do
  let n : Int ← match cs with
    | '0' :: 'x' :: ds => (ungrouped? isHexDigit ds).map fun ds => (number 16 ds : Int)
    | '0' :: 'o' :: ds => (ungrouped? (fun c => '0' ≤ c && c ≤ '7') ds).map fun ds => (number 8 ds : Int)
    | '0' :: 'b' :: ds => (ungrouped? (fun c => c == '0' || c == '1') ds).map fun ds => (number 2 ds : Int)
    | cs =>
      let (negative, ds) := signed cs
      (whole? ds).map fun ds => if negative then -(number 10 ds : Int) else number 10 ds
  if -Int.pow 2 127 ≤ n && n < Int.pow 2 128 then return n else none

def isExponentMark (c : Char) : Bool :=
  c == 'e' || c == 'E'

/-- A float that is not beyond the finite ones, or one that is named. -/
def float? (cs : List Char) : Option Double := do
  let (negative, cs) := signed cs
  let x ← match cs with
    | ['i', 'n', 'f'] => some Double.infinity
    | ['n', 'a', 'n'] => some Double.nan
    | cs => finite? cs
  return if negative then x.neg else x
where
  finite? (cs : List Char) : Option Double := do
    let mantissa := cs.takeWhile (!isExponentMark ·)
    let whole ← whole? (mantissa.takeWhile (· != '.'))
    let fraction ← match mantissa.dropWhile (· != '.') with
      | [] => some []
      | _ :: ds => ungrouped? Char.isDigit ds
    let exponent : Int ← match cs.dropWhile (!isExponentMark ·) with
      | [] => if fraction.isEmpty then none else some 0
      | _ :: cs =>
        let (negative, ds) := signed cs
        (ungrouped? Char.isDigit ds).map fun ds => if negative then -(number 10 ds : Int) else number 10 ds
    let x := Double.ofDecimal (number 10 (whole ++ fraction)) (exponent - fraction.length)
    if x.isFinite then return x else none

/-! ## Points in time -/

/-- So many decimal digits at the front. -/
def fixed? (width : Nat) (cs : List Char) : Option (Nat × List Char) :=
  let ds := cs.take width
  if ds.length = width && ds.all Char.isDigit then some (number 10 ds, cs.drop width) else none

/-- A two-digit part behind its mark, at most `most`. -/
def part? (mark : Char) (most : Nat) : List Char → Option (Nat × List Char)
  | c :: cs => do
    let (n, rest) ← fixed? 2 cs
    if c == mark && n ≤ most then return (n, rest) else none
  | [] => none

def isLeap (year : Nat) : Bool :=
  year % 4 = 0 && (year % 100 ≠ 0 || year % 400 = 0)

def monthLength (year month : Nat) : Nat :=
  if month = 2 then if isLeap year then 29 else 28
  else if month = 4 || month = 6 || month = 9 || month = 11 then 30
  else 31

def padded (width n : Nat) : String :=
  let ds := Nat.toDigits 10 n
  String.ofList (List.replicate (width - ds.length) '0' ++ ds)

/-- A date at the front, with its text. -/
def date? (cs : List Char) : Option (String × List Char) := do
  let (year, cs) ← fixed? 4 cs
  let (month, cs) ← part? '-' 12 cs
  let (day, cs) ← part? '-' 31 cs
  if 1 ≤ month && 1 ≤ day && day ≤ monthLength year month then
    return (padded 4 year ++ "-" ++ padded 2 month ++ "-" ++ padded 2 day, cs)
  else none

/-- A time of day at the front; seconds may be missing, and of their fraction nine places count. -/
def time? (cs : List Char) : Option (String × List Char) := do
  let (hour, cs) ← part? ' ' 23 (' ' :: cs)
  let (minute, cs) ← part? ':' 59 cs
  let clock := padded 2 hour ++ ":" ++ padded 2 minute
  match cs with
  | ':' :: _ =>
    let (second, cs) ← part? ':' 60 cs
    let clock := clock ++ ":" ++ padded 2 second
    match cs with
    | '.' :: cs =>
      let ds := cs.takeWhile Char.isDigit
      if ds.isEmpty then none
      else
        let places := ((ds.take 9).reverse.dropWhile (· == '0')).reverse
        return (if places.isEmpty then clock else clock ++ "." ++ String.ofList places, cs.drop ds.length)
    | cs => return (clock, cs)
  | cs => return (clock, cs)

/-- The offset behind a time, which must be all that is left. -/
def offset? : List Char → Option String
  | [] => some ""
  | ['Z'] | ['z'] => some "Z"
  | c :: cs => do
    let (hours, cs) ← part? c 23 (c :: cs)
    let (minutes, cs) ← part? ':' 59 cs
    if !cs.isEmpty || (c != '+' && c != '-') then none
    else
      let sign := if c == '-' && (hours ≠ 0 || minutes ≠ 0) then "-" else "+"
      return sign ++ padded 2 hours ++ ":" ++ padded 2 minutes

/-- The text of a date, a time or both. -/
def moment? (cs : List Char) : Option String :=
  match date? cs with
  | some (date, []) => some date
  | some (date, mark :: cs) =>
    if mark == 'T' || mark == 't' || mark == ' ' then do
      let (time, cs) ← time? cs
      let offset ← offset? cs
      return date ++ "T" ++ time ++ offset
    else none
  | none =>
    match time? cs with
    | some (time, []) => some time
    | _ => none

/-! ## Words -/

/-- The value of a word. A point in time is an object with one member that marks it. -/
def word? (cs : List Char) : Option Json :=
  match cs with
  | ['t', 'r', 'u', 'e'] => some (.bool true)
  | ['f', 'a', 'l', 's', 'e'] => some (.bool false)
  | cs =>
    ((integer? cs).map .ofInt).or <| ((float? cs).map fun x => .num (.float x)).or <|
      (moment? cs).map fun t => .obj [("$__toml_private_datetime", .str t)]

end CodeIndex.Toml
