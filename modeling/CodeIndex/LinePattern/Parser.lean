import CodeIndex.LinePattern.Basic

/-!
# Reading line patterns

The written form: sequences, alternatives, groups with and without a report, sets in brackets, the
shorthands for words and blanks, repetitions, and the edges of lines and words.
-/

namespace CodeIndex.LinePattern

/-- What a letter behind a backslash stands for as a set. -/
def escapedSet : Char → CharSet
  | 'w' => .word
  | 'W' => .compl .word
  | 's' => .blank
  | 'S' => .compl .blank
  | 'd' => .range '0' '9'
  | c => .one c

/-- One member of a bracketed set, without ranges. -/
def setMember : List Char → Option (CharSet × List Char)
  | '\\' :: c :: rest => some (escapedSet c, rest)
  | c :: rest => some (.one c, rest)
  | [] => none

/-- The members of a bracketed set up to its end. -/
def setMembers (fuel : Nat) (acc : CharSet) (cs : List Char) : Option (CharSet × List Char) :=
  match fuel, cs with
  | 0, _ | _, [] => none
  | _ + 1, ']' :: rest => some (acc, rest)
  | fuel + 1, cs =>
    match setMember cs with
    | none => none
    | some (.one lo, '-' :: hi :: rest) =>
      if hi == ']' then setMembers fuel (.union acc (.one lo)) ('-' :: hi :: rest)
      else setMembers fuel (.union acc (.range lo hi)) rest
    | some (member, rest) => setMembers fuel (.union acc member) rest

/-- A bracketed set behind its opening bracket. -/
def bracket (cs : List Char) : Option (CharSet × List Char) :=
  match cs with
  | '^' :: rest => (setMembers (rest.length + 1) .none rest).map fun (s, rest) => (.compl s, rest)
  | _ => setMembers (cs.length + 1) .none cs

/-- Applies the repetition written behind a pattern. -/
def quantified (a : LinePattern) : List Char → LinePattern × List Char
  | '*' :: '?' :: rest => (.star false a, rest)
  | '*' :: rest => (.star true a, rest)
  | '+' :: '?' :: rest => (.seq a (.star false a), rest)
  | '+' :: rest => (.seq a (.star true a), rest)
  | '?' :: '?' :: rest => (.alt .empty a, rest)
  | '?' :: rest => (.alt a .empty, rest)
  | rest => (a, rest)

mutual

/-- Alternatives up to a closing parenthesis or the end. -/
def alternatives (fuel : Nat) (cs : List Char) : Option (LinePattern × List Char) :=
  match fuel with
  | 0 => none
  | fuel + 1 =>
    match sequence fuel cs with
    | none => none
    | some (a, '|' :: rest) =>
      match alternatives fuel rest with
      | none => none
      | some (b, rest) => some (.alt a b, rest)
    | some r => some r

/-- Patterns one after the other. -/
def sequence (fuel : Nat) (cs : List Char) : Option (LinePattern × List Char) :=
  match fuel with
  | 0 => none
  | fuel + 1 =>
    match cs with
    | [] => some (.empty, [])
    | '|' :: rest => some (.empty, '|' :: rest)
    | ')' :: rest => some (.empty, ')' :: rest)
    | cs =>
      match atom fuel cs with
      | none => none
      | some (a, rest) =>
        let (a, rest) := quantified a rest
        match sequence fuel rest with
        | none => none
        | some (b, rest) => some (.seq a b, rest)

/-- One pattern without its repetition. -/
def atom (fuel : Nat) (cs : List Char) : Option (LinePattern × List Char) :=
  match fuel with
  | 0 => none
  | fuel + 1 =>
    match cs with
    | '(' :: '?' :: ':' :: rest =>
      match alternatives fuel rest with
      | some (a, ')' :: rest) => some (a, rest)
      | _ => none
    | '(' :: rest =>
      match alternatives fuel rest with
      | some (a, ')' :: rest) => some (.group a, rest)
      | _ => none
    | '[' :: rest => (bracket rest).map fun (s, rest) => (.set s, rest)
    | '\\' :: 'b' :: rest => some (.wordEdge, rest)
    | '\\' :: c :: rest => some (.set (escapedSet c), rest)
    | '.' :: rest => some (.set .any, rest)
    | '^' :: rest => some (.lineStart, rest)
    | '$' :: rest => some (.lineEnd, rest)
    | c :: rest => if c == '*' || c == '+' || c == '?' then none else some (.set (.one c), rest)
    | [] => none

end

/-- The pattern that a text spells. -/
def parse? (text : String) : Option LinePattern :=
  let cs := text.toList
  match alternatives (3 * cs.length + 3) cs with
  | some (p, []) => some p
  | _ => none

end CodeIndex.LinePattern
