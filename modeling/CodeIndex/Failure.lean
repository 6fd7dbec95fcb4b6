import CodeIndex.Embedding.Error
import CodeIndex.Error
import CodeIndex.Text.Find
import CodeIndex.Text.Lines

/-!
# Failures

Why a command stops: what it was about, and the causes behind it, each the cause of the one before.
-/

namespace CodeIndex

structure Failure where
  about : String
  causes : List String := []
  deriving DecidableEq, Repr

namespace Failure

/-- Says what a failing step was part of. -/
def during (context : String) (f : Failure) : Failure :=
  ⟨context, f.about :: f.causes⟩

/-- A text whose lines after the first are set in. -/
def indented (margin text : String) : String :=
  ("\n" ++ margin).intercalate (Text.splitOn text '\n')

/-- A cause behind its number, which is right-aligned. -/
def numbered (i : Nat) (cause : String) : String :=
  let n := toString i
  String.ofList (List.replicate (5 - n.length) ' ') ++ n ++ ": " ++ indented "       " cause ++ "\n"

/-- The failure and its causes; more than one cause is numbered. -/
def report (f : Failure) : String :=
  s!"Error: {f.about}\n" ++
  match f.causes with
  | [] => ""
  | [cause] => "\nCaused by:\n    " ++ indented "    " cause ++ "\n"
  | causes => "\nCaused by:\n" ++ String.join (causes.zipIdx.map fun (cause, i) => numbered i cause)

/-- An error of indexing: those of the system and of the database have causes of their own. -/
def ofIndexError (e : IndexError) : Failure :=
  ⟨e.message, match e with
    | .io cause => [cause]
    | .database cause => cause :: (Text.stripFront? cause "error returned from database: ").toList
    | _ => []⟩

/-- An error of embedding: one of the index is a cause of its own. -/
def ofEmbedError (e : EmbedError) : Failure :=
  ⟨e.message.getD "HTTP request failed", match e with
    | .index cause => [cause.message]
    | _ => []⟩

end Failure

/-- A result of indexing, or the failure of a command. -/
def IndexError.failing (r : Except IndexError α) : Except Failure α :=
  r.mapError Failure.ofIndexError

def EmbedError.failing (r : Except EmbedError α) : Except Failure α :=
  r.mapError Failure.ofEmbedError

end CodeIndex
