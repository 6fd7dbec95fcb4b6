import CodeIndex.Text.Find

/-!
# Globs

Patterns for paths, matched octet by octet. A star and a question mark stop at a slash, a double star
between slashes does not, a class stands for one octet, and braces list alternatives.
-/

namespace CodeIndex.Ignore

/-- A piece of a glob without alternatives. -/
inductive Atom where
  | octet (b : UInt8)
  /-- One octet other than a slash. -/
  | one
  /-- Any octets other than slashes. -/
  | star
  /-- Nothing, or anything up to a slash. -/
  | anyFront
  /-- A slash and anything behind it. -/
  | anyBack
  /-- A slash, or anything between two slashes. -/
  | anyBetween
  /-- One octet within, or outside, the ranges. -/
  | among (negated : Bool) (ranges : List (UInt8 × UInt8))
  deriving DecidableEq, Repr

inductive Token where
  | atom (a : Atom)
  | either (branches : List (List Token))

/-- Whether `f` accepts what follows some number of octets that all satisfy `p`. -/
def afterSome (p : UInt8 → Bool) (f : List UInt8 → Bool) : List UInt8 → Bool
  | [] => f []
  | b :: rest => f (b :: rest) || (p b && afterSome p f rest)

/-- Whether `f` accepts what follows some slash. -/
def afterSlash (f : List UInt8 → Bool) : List UInt8 → Bool
  | [] => false
  | b :: rest => (b == 47 && f rest) || afterSlash f rest

def matchAtoms : List Atom → List UInt8 → Bool
  | [], bs => bs.isEmpty
  | .octet o :: as, b :: bs => b == o && matchAtoms as bs
  | .one :: as, b :: bs => b != 47 && matchAtoms as bs
  | .among negated ranges :: as, b :: bs =>
    (ranges.any fun (lo, hi) => lo ≤ b && b ≤ hi) != negated && matchAtoms as bs
  | .star :: as, bs => afterSome (· != 47) (matchAtoms as) bs
  | .anyFront :: as, bs => matchAtoms as bs || afterSlash (matchAtoms as) bs
  | .anyBack :: as, 47 :: bs => afterSome (fun _ => true) (matchAtoms as) bs
  | .anyBetween :: as, 47 :: bs => matchAtoms as bs || afterSlash (matchAtoms as) bs
  | _ :: _, _ => false

mutual

/-- The sequences of atoms that a list of tokens stands for. -/
def expand : List Token → List (List Atom)
  | [] => [[]]
  | .atom a :: rest => (expand rest).map (a :: ·)
  | .either branches :: rest =>
    (expandAny branches).flatMap fun front => (expand rest).map (front ++ ·)

def expandAny : List (List Token) → List (List Atom)
  | [] => []
  | branch :: rest => expand branch ++ expandAny rest

end

/-! ## Reading globs -/

/-- A group of alternatives that is still open: the branches before, and the tokens of the branch that
is being read, both in reverse. The outermost frame has one branch. -/
structure Frame where
  branches : List (List Token)
  tokens : List Token

structure Reader where
  frames : List Frame
  /-- The characters read last. -/
  before : Option Char
  /-- Once a class has no end, brackets are plain characters. -/
  plainBrackets : Bool

namespace Reader

def start : Reader := ⟨[⟨[], []⟩], none, false⟩

def push (r : Reader) (t : Token) : Reader :=
  match r.frames with
  | f :: rest => { r with frames := { f with tokens := t :: f.tokens } :: rest }
  | [] => r

def atom (r : Reader) (a : Atom) : Reader :=
  r.push (.atom a)

def char (r : Reader) (c : Char) : Reader :=
  (String.singleton c).toUTF8.toList.foldl (fun r b => r.atom (.octet b)) r

def isEmpty (r : Reader) : Bool :=
  match r.frames with
  | f :: _ => f.tokens.isEmpty
  | [] => true

def depth (r : Reader) : Nat :=
  r.frames.length

/-- Replaces the last token. -/
def replaceLast (r : Reader) (f : Token → Token) : Reader :=
  match r.frames with
  | ⟨bs, t :: ts⟩ :: rest => { r with frames := ⟨bs, f t :: ts⟩ :: rest }
  | _ => r

/-- Two stars that part no path: each is a star of its own. -/
def twoStars (r : Reader) : Reader :=
  (r.atom .star).atom .star

/-- What two stars become, and the input behind them. `before` is the character in front. -/
def doubleStar (r : Reader) (before : Option Char) (rest : List Char) : Reader × List Char :=
  if r.isEmpty then
    match rest with
    | [] => (r.atom .anyFront, [])
    | '/' :: rest => ({ r.atom .anyFront with before := some '/' }, rest)
    | _ => (r.twoStars, rest)
  else if before != some '/' && (r.depth ≤ 1 || (before != some ',' && before != some '\x7b')) then
    (r.twoStars, rest)
  else
    let join (back : Atom) (r : Reader) := r.replaceLast fun
      | .atom .anyFront => .atom .anyFront
      | .atom .anyBack => .atom .anyBack
      | _ => .atom back
    match rest with
    | [] => (join .anyBack r, [])
    | '/' :: rest => ({ join .anyBetween r with before := some '/' }, rest)
    | c :: _ =>
      if (c == ',' || c == '\x7d') && 2 ≤ r.depth then (join .anyBack r, rest) else (r.twoStars, rest)

end Reader

/-- The ranges of a class up to its end. `first` holds before the first member, and `open?` after a
dash that may join two members. Ranges are in reverse. -/
def classRanges (first inRange : Bool) (ranges : List (Char × Char)) :
    List Char → Option (Option (List (Char × Char)) × List Char)
  | [] => none
  | c :: rest =>
    let single := classRanges false false ((c, c) :: ranges) rest
    let joined := match ranges with
      | (lo, _) :: before => if c < lo then some (none, rest) else classRanges false false ((lo, c) :: before) rest
      | [] => single
    if c == ']' then
      if first then single
      else some (some (if inRange then ('-', '-') :: ranges else ranges), rest)
    else if c == '-' then
      if first then single else if inRange then joined else classRanges false true ranges rest
    else if inRange then joined
    else single

/-- A range of characters as ranges of octets: between the last octet of one end and the first of the
other. None where these are out of order. -/
def octetRanges (range : Char × Char) : Option (List (UInt8 × UInt8)) :=
  let lo := (String.singleton range.1).toUTF8.toList
  let hi := (String.singleton range.2).toUTF8.toList
  if range.1 = range.2 then some (lo.map fun b => (b, b))
  else match lo.getLast?, hi.head? with
    | some a, some b =>
      if a ≤ b then some (lo.dropLast.map (fun b => (b, b)) ++ [(a, b)] ++ (hi.drop 1).map fun b => (b, b))
      else none
    | _, _ => none

/-- Reads one character and what belongs to it. None is a malformed glob. -/
def readStep (r : Reader) (c : Char) (rest : List Char) : Option (Reader × List Char) :=
  let before := r.before
  let r := { r with before := some c }
  match c with
  | '?' => some (r.atom .one, rest)
  | '*' =>
    match rest with
    | '*' :: rest => some ({ r with before := some '*' }.doubleStar before rest)
    | _ => some (r.atom .star, rest)
  | '[' =>
    if r.plainBrackets then some (r.char '[', rest)
    else
      let (negated, inner) := match rest with
        | '!' :: inner => (true, inner)
        | '^' :: inner => (true, inner)
        | _ => (false, rest)
      match classRanges true false [] inner with
      | none => some ({ r.char '[' with plainBrackets := true }, rest)
      | some (none, _) => none
      | some (some ranges, rest) =>
        (ranges.reverse.mapM octetRanges).map fun rs =>
          ({ r.atom (.among negated rs.flatten) with before := some ']' }, rest)
  | '\x7b' => some ({ r with frames := ⟨[], []⟩ :: r.frames }, rest)
  | '\x7d' =>
    match r.frames with
    | f :: outer@(_ :: _) =>
      some ({ r with frames := outer }.push (.either ((f.tokens.reverse :: f.branches).reverse)), rest)
    | _ => none
  | ',' =>
    match r.frames with
    | f :: outer@(_ :: _) => some ({ r with frames := ⟨f.tokens.reverse :: f.branches, []⟩ :: outer }, rest)
    | _ => some (r.char ',', rest)
  | '\\' =>
    match rest with
    | [] => none
    | e :: rest => some ({ r.char e with before := some e }, rest)
  | c => some (r.char c, rest)

/-- Reads a whole glob; every step takes at least one character. -/
def readGlob (fuel : Nat) (r : Reader) (cs : List Char) : Option (List Token) :=
  match fuel, cs with
  | _, [] =>
    match r.frames with
    | [f] => some f.tokens.reverse
    | _ => none
  | 0, _ => none
  | fuel + 1, c :: rest =>
    match readStep r c rest with
    | some (r, rest) => readGlob fuel r rest
    | none => none

/-- A glob as the sequences of atoms of which one must match. -/
abbrev Glob := List (List Atom)

def Glob.parse? (text : String) : Option Glob :=
  let cs := text.toList
  (readGlob (cs.length + 1) .start cs).map expand

/-- A glob that is only a double star matches every path. -/
def Glob.matches (g : Glob) (path : List UInt8) : Bool :=
  g = [[.anyFront]] || g.any (matchAtoms · path)

end CodeIndex.Ignore
