import CodeIndex.Numeric.Hex

/-!
# Quoted texts of settings files

Double quotes allow escapes and single quotes do not. Three quotes open a text over several lines, whose
first line break does not count.
-/

namespace CodeIndex.Toml

/-- Control characters must be escaped, the tab apart. -/
def isPlain (c : Char) : Bool :=
  (32 ≤ c.toNat && c.toNat ≠ 127) || c == '\t'

/-- What follows a line break at the front. -/
def lineBreak? : List Char → Option (List Char)
  | '\n' :: cs => some cs
  | '\r' :: '\n' :: cs => some cs
  | _ => none

/-- A character by so many hexadecimal digits. -/
def scalar? (width : Nat) (cs : List Char) : Option (Char × List Char) := do
  let ds := cs.take width
  let n ← Hex.number? ds
  if ds.length = width && n.isValidChar then return (Char.ofNat n, cs.drop width) else none

/-- The character that an escape stands for, after its backslash. -/
def escape? : List Char → Option (Char × List Char)
  | 'b' :: cs => some (Char.ofNat 8, cs)
  | 't' :: cs => some ('\t', cs)
  | 'n' :: cs => some ('\n', cs)
  | 'f' :: cs => some (Char.ofNat 12, cs)
  | 'r' :: cs => some ('\r', cs)
  | 'e' :: cs => some (Char.ofNat 27, cs)
  | '"' :: cs => some ('"', cs)
  | '\\' :: cs => some ('\\', cs)
  | 'x' :: cs => scalar? 2 cs
  | 'u' :: cs => scalar? 4 cs
  | 'U' :: cs => scalar? 8 cs
  | _ => none

def isBlank (c : Char) : Bool :=
  c == ' ' || c == '\t'

/-- What follows a backslash at the end of a line, all blanks and line breaks left out. -/
def joined? (cs : List Char) : Option (List Char) :=
  (lineBreak? (cs.dropWhile isBlank)).map (·.dropWhile fun c => isBlank c || c == '\n' || c == '\r')

/-- The rest of a text on one line; `acc` holds what is read in reverse. -/
def line? (quote : Char) (escapes : Bool) (fuel : Nat) (acc : List Char) (cs : List Char) :
    Option (List Char × List Char) :=
  match fuel, cs with
  | 0, _ | _, [] => none
  | fuel + 1, c :: cs =>
    if c == quote then some (acc.reverse, cs)
    else if c == '\\' && escapes then
      match escape? cs with
      | some (e, cs) => line? quote escapes fuel (e :: acc) cs
      | none => none
    else if isPlain c then line? quote escapes fuel (c :: acc) cs
    else none

/-- The rest of a text over several lines. Of the quotes that close it, up to two before the last three
belong to it. -/
def lines? (quote : Char) (escapes : Bool) (fuel : Nat) (acc : List Char) (cs : List Char) :
    Option (List Char × List Char) :=
  match fuel, cs with
  | 0, _ | _, [] => none
  | fuel + 1, c :: cs =>
    if c == quote then
      let more := (cs.takeWhile (· == quote)).length
      if 2 ≤ more then
        let inner := min more 4 - 2
        some (acc.reverse ++ List.replicate inner quote, cs.drop (inner + 2))
      else lines? quote escapes fuel (c :: acc) cs
    else if c == '\\' && escapes then
      match escape? cs, joined? cs with
      | some (e, cs), _ => lines? quote escapes fuel (e :: acc) cs
      | none, some cs => lines? quote escapes fuel acc cs
      | none, none => none
    else if c == '\n' || (c == '\r' && cs.head? = some '\n') || isPlain c then
      lines? quote escapes fuel (c :: acc) cs
    else none

/-- A text on one line at the front. -/
def oneLine? : List Char → Option (List Char × List Char)
  | '"' :: cs => line? '"' true (cs.length + 1) [] cs
  | '\'' :: cs => line? '\'' false (cs.length + 1) [] cs
  | _ => none

/-- Any quoted text at the front. -/
def quoted? (cs : List Char) : Option (List Char × List Char) :=
  let opened (quote : Char) (escapes : Bool) (cs : List Char) :=
    let cs := (lineBreak? cs).getD cs
    lines? quote escapes (cs.length + 1) [] cs
  match cs with
  | '"' :: '"' :: '"' :: cs => opened '"' true cs
  | '\'' :: '\'' :: '\'' :: cs => opened '\'' false cs
  | cs => oneLine? cs

end CodeIndex.Toml
