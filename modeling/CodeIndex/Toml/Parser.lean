import CodeIndex.Toml.Document
import CodeIndex.Toml.Quoted
import CodeIndex.Toml.Scalar

/-!
# Reading settings files

The statements of a document, one a line; values between brackets and braces may run over several.
-/

namespace CodeIndex.Toml

def skipBlanks (cs : List Char) : List Char :=
  cs.dropWhile isBlank

/-- What follows a comment, if there is one at the front. -/
def skipComment? : List Char → Option (List Char)
  | '#' :: cs =>
    match cs.dropWhile isPlain with
    | [] => some []
    | rest => if (lineBreak? rest).isSome then some rest else none
  | cs => some cs

/-- What follows blanks, comments and line breaks. -/
def skipSpace? (fuel : Nat) (cs : List Char) : Option (List Char) :=
  match fuel with
  | 0 => some cs
  | fuel + 1 => do
    let cs ← skipComment? (skipBlanks cs)
    match lineBreak? cs with
    | some cs => skipSpace? fuel cs
    | none => return cs

/-! ## Keys -/

def isBare (c : Char) : Bool :=
  c.isAlphanum || c == '_' || c == '-'

/-- One name of a key. -/
def name? (cs : List Char) : Option (String × List Char) :=
  match oneLine? cs with
  | some (name, cs) => some (String.ofList name, cs)
  | none =>
    let name := cs.takeWhile isBare
    if name.isEmpty then none else some (String.ofList name, cs.drop name.length)

/-- A key of names with dots between them. -/
def key? (fuel : Nat) (cs : List Char) : Option (List String × List Char) :=
  match fuel with
  | 0 => none
  | fuel + 1 => do
    let (name, cs) ← name? (skipBlanks cs)
    match skipBlanks cs with
    | '.' :: cs =>
      let (names, cs) ← key? fuel cs
      return (name :: names, cs)
    | cs => return ([name], cs)

/-! ## Values -/

/-- Ends a plain word. -/
def isDelimiter (c : Char) : Bool :=
  isBlank c || c == '\n' || c == '\r' || c == ',' || c == ']' || c == '\x7d' || c == '#' || c == '='

/-- A plain word at the front. A blank may stand between a date and a time. -/
def plain? (cs : List Char) : Option (Json × List Char) := do
  let word := cs.takeWhile (!isDelimiter ·)
  let rest := cs.drop word.length
  let time := match rest with
    | ' ' :: c :: _ => if c.isDigit then (rest.drop 1).takeWhile (!isDelimiter ·) else []
    | _ => []
  match date? word, time with
  | some (_, []), _ :: _ =>
    let v ← word? (word ++ ' ' :: time)
    return (v, rest.drop (time.length + 1))
  | _, _ => return (← word? word, rest)

mutual

/-- A value at the front. `fuel` bounds the steps and `depth` the nesting. -/
def value? (fuel depth : Nat) (cs : List Char) : Option (Json × List Char) :=
  match fuel with
  | 0 => none
  | fuel + 1 =>
    match cs with
    | '[' :: cs => if depth = 0 then none else items? fuel (depth - 1) [] cs
    | '\x7b' :: cs => if depth = 0 then none else members? fuel (depth - 1) [] cs
    | '"' :: _ | '\'' :: _ => (quoted? cs).map fun (s, cs) => (.str (String.ofList s), cs)
    | cs => plain? cs

/-- The items of a list up to its end; `acc` holds them in reverse. -/
def items? (fuel depth : Nat) (acc : List Json) (cs : List Char) : Option (Json × List Char) :=
  match fuel with
  | 0 => none
  | fuel + 1 =>
    match skipSpace? cs.length cs with
    | none => none
    | some (']' :: cs) => some (.arr acc.reverse, cs)
    | some cs =>
      match value? fuel depth cs with
      | none => none
      | some (v, cs) =>
        match skipSpace? cs.length cs with
        | some (',' :: cs) => items? fuel depth (v :: acc) cs
        | some (']' :: cs) => some (.arr (v :: acc).reverse, cs)
        | _ => none

/-- The assignments between braces up to their end; `acc` holds them in reverse. -/
def members? (fuel depth : Nat) (acc : List (List String × Json)) (cs : List Char) :
    Option (Json × List Char) :=
  match fuel with
  | 0 => none
  | fuel + 1 =>
    match skipSpace? cs.length cs with
    | none => none
    | some ('\x7d' :: cs) => (inlineTable? acc.reverse).map (·, cs)
    | some cs =>
      match key? cs.length cs with
      | some (path, '=' :: cs) =>
        match value? fuel depth (skipBlanks cs) with
        | none => none
        | some (v, cs) =>
          match skipSpace? cs.length cs with
          | some (',' :: cs) => members? fuel depth ((path, v) :: acc) cs
          | some ('\x7d' :: cs) => (inlineTable? ((path, v) :: acc).reverse).map (·, cs)
          | _ => none
      | _ => none

end

/-! ## Documents -/

/-- How deep values may nest. -/
def maxDepth : Nat := 80

/-- The statement at the front. -/
def statement? (cs : List Char) : Option (Statement × List Char) :=
  match cs with
  | '[' :: '[' :: cs =>
    match key? cs.length cs with
    | some (path, ']' :: ']' :: cs) => some (.element path, cs)
    | _ => none
  | '[' :: cs =>
    match key? cs.length cs with
    | some (path, ']' :: cs) => some (.table path, cs)
    | _ => none
  | cs =>
    match key? cs.length cs with
    | some (path, '=' :: cs) =>
      (value? (2 * cs.length + 2) maxDepth (skipBlanks cs)).map fun (v, cs) => (.assign path v, cs)
    | _ => none

/-- All statements. Behind one there may be a comment, and then the line ends. -/
def statements? (fuel : Nat) (acc : List Statement) (cs : List Char) : Option (List Statement) :=
  match fuel with
  | 0 => none
  | fuel + 1 =>
    match skipSpace? cs.length cs with
    | none => none
    | some [] => some acc.reverse
    | some cs =>
      match statement? cs with
      | none => none
      | some (s, cs) =>
        match skipComment? (skipBlanks cs) with
        | none => none
        | some [] => some (s :: acc).reverse
        | some cs =>
          match lineBreak? cs with
          | some cs => statements? fuel (s :: acc) cs
          | none => none

/-- The value of a document; a byte order mark in front does not count. -/
def parse? (text : String) : Option Json :=
  let cs := match text.toList with
    | c :: cs => if c.toNat = 0xfeff then cs else c :: cs
    | [] => []
  (statements? (cs.length + 1) [] cs).bind document?

end CodeIndex.Toml
