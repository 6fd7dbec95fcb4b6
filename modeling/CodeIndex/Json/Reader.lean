import CodeIndex.Json.Parser

/-!
# Reading values of one shape

A reader takes a value of a known shape from the front of a text: a number, a list, a record of one
field. What else a record holds is skipped. Skipping asks only for the form of a value: numbers have no
bounds, nesting no limit, and a 16-bit unit in a text may lack its partner.
-/

namespace CodeIndex.Json

/-! ## Skipping -/

/-- What follows one digit or more. -/
def skipDigits? : List Char → Option (List Char)
  | c :: rest => if c.isDigit then some (rest.dropWhile Char.isDigit) else none
  | [] => none

def skipFraction? : List Char → Option (List Char)
  | '.' :: rest => skipDigits? rest
  | rest => some rest

def skipExponent? : List Char → Option (List Char)
  | c :: rest =>
    if c == 'e' || c == 'E' then
      match rest with
      | '+' :: rest => skipDigits? rest
      | '-' :: rest => skipDigits? rest
      | _ => skipDigits? rest
    else some (c :: rest)
  | [] => some []

/-- What follows a number, after its sign. A zero at the front stands alone. -/
def skipNumber? (cs : List Char) : Option (List Char) := do
  let rest ← match cs with
    | '0' :: rest => some rest
    | _ => skipDigits? cs
  skipExponent? (← skipFraction? rest)

/-- What follows the closing quote. -/
def skipText? : List Char → Option (List Char)
  | [] => none
  | '"' :: rest => some rest
  | '\\' :: 'u' :: a :: b :: c :: d :: rest =>
    if (Hex.number? [a, b, c, d]).isSome then skipText? rest else none
  | '\\' :: c :: rest =>
    if ['"', '\\', '/', 'b', 'f', 'n', 'r', 't'].contains c then skipText? rest else none
  | c :: rest => if c == '\\' || c.toNat < 32 then none else skipText? rest

mutual

/-- What follows one value of any shape. -/
def skipValue? (fuel : Nat) (cs : List Char) : Option (List Char) :=
  match fuel with
  | 0 => none
  | fuel + 1 =>
    match skipBlanks cs with
    | 'n' :: 'u' :: 'l' :: 'l' :: rest => some rest
    | 't' :: 'r' :: 'u' :: 'e' :: rest => some rest
    | 'f' :: 'a' :: 'l' :: 's' :: 'e' :: rest => some rest
    | '"' :: rest => skipText? rest
    | '[' :: rest =>
      match skipBlanks rest with
      | ']' :: rest => some rest
      | rest => skipItems? fuel rest
    | '\x7b' :: rest =>
      match skipBlanks rest with
      | '\x7d' :: rest => some rest
      | rest => skipMembers? fuel rest
    | '-' :: rest => skipNumber? rest
    | rest => skipNumber? rest

/-- What follows the items of a list and its end. -/
def skipItems? (fuel : Nat) (cs : List Char) : Option (List Char) :=
  match fuel with
  | 0 => none
  | fuel + 1 =>
    match (skipValue? fuel cs).map skipBlanks with
    | some (',' :: rest) => skipItems? fuel rest
    | some (']' :: rest) => some rest
    | _ => none

/-- What follows the members of an object and its end. -/
def skipMembers? (fuel : Nat) (cs : List Char) : Option (List Char) :=
  match fuel with
  | 0 => none
  | fuel + 1 =>
    match skipBlanks cs with
    | '"' :: rest =>
      match (skipText? rest).map skipBlanks with
      | some (':' :: rest) =>
        match (skipValue? fuel rest).map skipBlanks with
        | some (',' :: rest) => skipMembers? fuel rest
        | some ('\x7d' :: rest) => some rest
        | _ => none
      | _ => none
    | _ => none

end

/-! ## Readers -/

/-- Takes a value from the front of a text. -/
abbrev Reader (α : Type) := List Char → Option (α × List Char)

namespace Reader

def number : Reader Number := fun cs =>
  match skipBlanks cs with
  | '-' :: rest => number? true rest
  | rest => number? false rest

/-- The items of a list up to its end; `acc` holds them in reverse. -/
def items (item : Reader α) (fuel : Nat) (acc : List α) (cs : List Char) :
    Option (List α × List Char) :=
  match fuel with
  | 0 => none
  | fuel + 1 =>
    match item cs with
    | none => none
    | some (v, rest) =>
      match skipBlanks rest with
      | ',' :: rest => items item fuel (v :: acc) rest
      | ']' :: rest => some ((v :: acc).reverse, rest)
      | _ => none

/-- A list of values of one shape. -/
def list (item : Reader α) : Reader (List α) := fun cs =>
  match skipBlanks cs with
  | '[' :: rest =>
    match skipBlanks rest with
    | ']' :: rest => some ([], rest)
    | rest => items item (rest.length + 1) [] rest
  | _ => none

/-- The value of the member `name` among members up to their end; `found` is the one met so far. A
second member of that name is refused, and so is an end without one. -/
def member (name : String) (field : Reader α) (fuel : Nat) (found : Option α) (cs : List Char) :
    Option (α × List Char) :=
  match fuel, skipBlanks cs with
  | fuel + 1, '"' :: rest => do
    let (key, rest) ← text? (fuel + 1) [] rest
    match skipBlanks rest with
    | ':' :: rest =>
      let (found, rest) ←
        if key = name then
          if found.isSome then none else (field rest).map fun (v, rest) => (some v, rest)
        else (skipValue? (2 * fuel + 2) rest).map (found, ·)
      match skipBlanks rest with
      | ',' :: rest => member name field fuel found rest
      | '\x7d' :: rest => found.map (·, rest)
      | _ => none
    | _ => none
  | _, _ => none

/-- A record of one field: an object that has it once, or a list of the field's value alone. -/
def record (name : String) (field : Reader α) : Reader α := fun cs =>
  match skipBlanks cs with
  | '[' :: rest => do
    let (v, rest) ← field rest
    match skipBlanks rest with
    | ']' :: rest => some (v, rest)
    | _ => none
  | '\x7b' :: rest => member name field (rest.length + 1) none rest
  | _ => none

/-- The value that a whole text spells. -/
def read? (r : Reader α) (s : String) : Option α :=
  match r s.toList with
  | some (v, rest) => if (skipBlanks rest).isEmpty then some v else none
  | none => none

end Reader

end CodeIndex.Json
