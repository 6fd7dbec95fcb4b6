import CodeIndex.Text.Lines

/-!
# Patterns with wildcards

In a pattern a percent sign stands for any run of characters and an underscore for any one. An escape
character makes the next one plain. Letters of ASCII match in either case.
-/

namespace CodeIndex.Like

inductive Token where
  /-- Any run of characters. -/
  | run
  /-- Any one character. -/
  | one
  | plain (c : Char)
  deriving DecidableEq, Repr

def token : Char → Token
  | '%' => .run
  | '_' => .one
  | c => .plain c

/-- The tokens of a pattern; there are none when it ends in an escape character. -/
def tokens? (escape : Option Char) : List Char → Option (List Token)
  | [] => some []
  | [c] => if escape = some c then none else some [token c]
  | c :: d :: rest =>
    if escape = some c then (tokens? escape rest).map (.plain d :: ·)
    else (tokens? escape (d :: rest)).map (token c :: ·)

/-- Equal up to the case of ASCII letters. -/
def sameChar (a b : Char) : Bool :=
  a.toLower == b.toLower

def holds : List Token → List Char → Bool
  | [], s => s.isEmpty
  | .run :: ts, [] => holds ts []
  | .run :: ts, c :: cs => holds ts (c :: cs) || holds (.run :: ts) cs
  | .one :: _, [] => false
  | .one :: ts, _ :: cs => holds ts cs
  | .plain _ :: _, [] => false
  | .plain p :: ts, c :: cs => sameChar p c && holds ts cs
termination_by ts s => ts.length + s.length

/-- Whether a text matches a pattern. -/
def matchesChars (escape : Option Char) (pattern text : List Char) : Bool :=
  match tokens? escape pattern with
  | some ts => holds ts text
  | none => false

/-- The octets that a pattern may have. -/
def maxPattern : Nat := 50000

/-- What the database reads of a text: everything up to a zero character. -/
def visible (text : String) : List Char :=
  text.toList.takeWhile (· != '\x00')

def matchesText (escape : Option Char) (pattern text : String) : Bool :=
  matchesChars escape (visible pattern) (visible text)

/-- The error of a pattern that is too long. -/
def tooComplex : String :=
  "error returned from database: (code: 1) LIKE or GLOB pattern too complex"

end CodeIndex.Like

namespace CodeIndex

/-- The first rows of an answer: none for a limit of zero, all for a negative one. -/
def limited (limit : Int) (rows : List α) : List α :=
  if limit < 0 then rows else rows.take limit.toNat

end CodeIndex
