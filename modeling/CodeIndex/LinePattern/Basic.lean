import CodeIndex.Text.Blank
import CodeIndex.Text.Words

/-!
# Line patterns

Regular expressions over one line with one group. Matching tries alternatives in the order in which
they are written: a greedy repetition takes as much as it can, a lazy one as little. The match that
starts first wins, and of those the first one tried.
-/

namespace CodeIndex

/-- A set of characters. -/
inductive CharSet where
  | any
  | one (c : Char)
  | range (lo hi : Char)
  | word
  | blank
  | union (a b : CharSet)
  | compl (a : CharSet)
  | none
  deriving DecidableEq, Repr

def CharSet.holds : CharSet → Char → Bool
  | .any, c => c != '\n'
  | .one a, c => a == c
  | .range lo hi, c => lo ≤ c && c ≤ hi
  | .word, c => Text.isWord c
  | .blank, c => Text.isBlank c
  | .union a b, c => a.holds c || b.holds c
  | .compl a, c => !a.holds c
  | .none, _ => false

inductive LinePattern where
  | empty
  | set (s : CharSet)
  | seq (a b : LinePattern)
  /-- The first alternative is tried first. -/
  | alt (a b : LinePattern)
  | star (greedy : Bool) (a : LinePattern)
  /-- The group whose text is reported. -/
  | group (a : LinePattern)
  | lineStart
  | lineEnd
  | wordEdge
  deriving DecidableEq, Repr

namespace LinePattern

/-- Where a match stands: the character before, what follows, how many characters are passed, and the
text of the group. -/
structure Place where
  before : Option Char
  rest : List Char
  passed : Nat
  captured : Option (List Char)
  deriving DecidableEq, Repr

def atWordEdge (p : Place) : Bool :=
  let isWord (c : Option Char) := (c.map Text.isWord).getD false
  isWord p.before != isWord p.rest.head?

/-- Repeats `step` at most `fuel` times, as long as each turn takes something. -/
def repeatWith (step : Place → (Place → Option α) → Option α) (greedy : Bool) :
    (fuel : Nat) → Place → (Place → Option α) → Option α
  | 0, p, k => k p
  | fuel + 1, p, k =>
    let more := fun _ : Unit => step p fun q =>
      if p.passed < q.passed then repeatWith step greedy fuel q k else none
    if greedy then (more ()).or (k p) else (k p).or (more ())

/-- Matches at a place and goes on with `k`; the first success counts. -/
def run : LinePattern → Place → (Place → Option α) → Option α
  | .empty, p, k => k p
  | .set s, p, k =>
    match p.rest with
    | c :: rest => if s.holds c then k { p with before := some c, rest, passed := p.passed + 1 } else none
    | [] => none
  | .seq a b, p, k => a.run p fun q => b.run q k
  | .alt a b, p, k =>
    match a.run p k with
    | some r => some r
    | none => b.run p k
  | .star greedy a, p, k => repeatWith a.run greedy p.rest.length p k
  | .group a, p, k => a.run p fun q => k { q with captured := some (p.rest.take (q.passed - p.passed)) }
  | .lineStart, p, k => if p.before.isNone then k p else none
  | .lineEnd, p, k => if p.rest.isEmpty then k p else none
  | .wordEdge, p, k => if atWordEdge p then k p else none

/-- The place behind the first match at or after a place. -/
def searchFrom (pattern : LinePattern) (before : Option Char) (passed : Nat) : List Char → Option Place
  | [] => pattern.run ⟨before, [], passed, none⟩ some
  | c :: rest =>
    match pattern.run ⟨before, c :: rest, passed, none⟩ some with
    | some p => some p
    | none => searchFrom pattern (some c) (passed + 1) rest

/-- The text of the group in the first match. -/
def capture? (pattern : LinePattern) (line : List Char) : Option (List Char) :=
  (searchFrom pattern none 0 line).bind (·.captured)

/-- The texts of the group in all matches, each search starting where the match before it ended. -/
def captures (pattern : LinePattern) (fuel : Nat) (before : Option Char) (passed : Nat) (line : List Char) :
    List (List Char) :=
  match fuel with
  | 0 => []
  | fuel + 1 =>
    match searchFrom pattern before passed line with
    | none => []
    | some p =>
      let own := p.captured.toList
      if passed < p.passed then own ++ captures pattern fuel p.before p.passed p.rest
      else match p.rest with
        | [] => own
        | c :: rest => own ++ captures pattern fuel (some c) (p.passed + 1) rest

def captureAll (pattern : LinePattern) (line : List Char) : List (List Char) :=
  captures pattern (line.length + 1) none 0 line

end LinePattern

end CodeIndex
