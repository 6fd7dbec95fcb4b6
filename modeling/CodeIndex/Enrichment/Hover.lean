import CodeIndex.Text.Blank
import CodeIndex.Text.Find
import CodeIndex.Text.Lines

/-!
# Hover texts

What a language server says about a place in a file, and how a signature, a return type and a
documentation are read from it. Rules of dashes part the code from the documentation.
-/

namespace CodeIndex

structure HoverInfo where
  signature : Option String := none
  returnType : Option String := none
  docstring : Option String := none
  deriving DecidableEq, Repr

namespace Hover

/-- The trimmed lines of a text without the fences of code. -/
def contentLines (text : String) : List String :=
  ((Text.lines (Text.trim text)).map Text.trim).filter (!Text.startsWith · "\x60\x60\x60")

def isRule (line : String) : Bool :=
  Text.startsWith line "---"

def isCall (line : String) : Bool :=
  Text.contains line "(" && Text.contains line ")"

/-- Lines that can serve as a signature. -/
def isSignature (line : String) : Bool :=
  isCall line || (Text.contains line ":" && !Text.startsWith line "#")

/-- The type behind the last arrow, or else behind the last closing parenthesis with a colon. -/
def returnTypeOf (line : String) : Option String :=
  ((Text.cutLast? line " -> ").or (Text.cutLast? line "): ")).bind fun (_, type) =>
    let type := Text.trim type
    if type = "" then none else some type

/-- Reads a hover text. -/
def parse (text : String) : HoverInfo :=
  let lines := contentLines text
  let signature := (lines.takeWhile (!isRule ·)).find? isSignature
  let doc := Text.trim ("\n".intercalate ((lines.dropWhile (!isRule ·)).filter (!isRule ·)))
  { signature
    returnType := (signature.filter isCall).bind returnTypeOf
    docstring := if doc = "" then none else some doc }

end Hover

/-- What a language server is asked. -/
inductive HoverCall where
  | openDocument (path : String) (size : Nat)
  | hover (path : String) (line column : Nat)
  | closeDocument (path : String)
  deriving DecidableEq, Repr

inductive HoverReply where
  | failed
  | nothing
  | text (t : String)
  deriving DecidableEq, Repr

/-- A language server: its reply may depend on everything it was asked before. -/
structure HoverSource where
  reply : (asked : List HoverCall) → HoverCall → HoverReply

end CodeIndex
