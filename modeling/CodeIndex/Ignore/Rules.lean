import CodeIndex.Ignore.Glob
import CodeIndex.Text.Blank
import CodeIndex.Text.Lines
import CodeIndex.Text.Utf8

/-!
# Ignore files

One rule a line. The last rule that matches decides: it ignores, or after an exclamation mark it keeps.
-/

namespace CodeIndex.Ignore

structure Rule where
  glob : Glob
  /-- The rule keeps what it matches. -/
  keeps : Bool
  onlyDirectories : Bool

def endsInSlash (line : List Char) : Bool :=
  line.getLast? = some '/'

/-- The rule of a line; comments, empty lines and malformed globs are none. -/
def Rule.parse? (line : String) : Option Rule :=
  let cs := line.toList
  if cs.head? = some '#' then none
  else
    let cs := if Text.endsWith line "\\ " then cs else Text.dropBlanksEnd cs
    if cs.isEmpty then none
    else
      let escaped := match cs with
        | '\\' :: '!' :: _ => true
        | '\\' :: '#' :: _ => true
        | _ => false
      let (keeps, cs) := match escaped, cs with
        | true, _ :: rest => (false, rest)
        | false, '!' :: rest => (true, rest)
        | _, cs => (false, cs)
      let (anchored, cs) := match escaped, cs with
        | false, '/' :: rest => (true, rest)
        | _, cs => (false, cs)
      let onlyDirectories := endsInSlash cs
      let cs := if onlyDirectories then cs.dropLast else cs
      let cs := if onlyDirectories && cs.getLast? = some '\\' then cs.dropLast else cs
      let anywhere := !anchored && !cs.contains '/' && cs != ['*', '*']
      let cs := if anywhere then '*' :: '*' :: '/' :: cs else cs
      let cs := if (Text.dropBack? ['/', '*', '*'] cs).isSome then cs ++ ['/', '*'] else cs
      (Glob.parse? (String.ofList cs)).map fun glob => { glob, keeps, onlyDirectories }

/-- The rules of a file, which ends for them at the first line that is no text. -/
def rulesOf (octets : List UInt8) : List Rule :=
  let text := match Text.Utf8.decodeFrom 0 0 [] octets with
    | .ok cs => cs
    | .error fault =>
      let good := octets.take fault.offset
      let whole := (good.reverse.dropWhile (· != 10)).reverse
      (Text.Utf8.decodeLossy whole).toList
  let text := match text with
    | c :: rest => if c.toNat = 0xfeff then rest else text
    | [] => []
  (Text.lineChars text).filterMap fun line => Rule.parse? (String.ofList line)

/-- Whether the rules ignore (`true`) or keep (`false`) a path, if one of them matches it. -/
def decide? (rules : List Rule) (path : String) (isDirectory : Bool) : Option Bool :=
  let octets := path.toUTF8.toList
  (rules.reverse.find? fun r => (!r.onlyDirectories || isDirectory) && r.glob.matches octets).map
    fun r => !r.keeps

end CodeIndex.Ignore
