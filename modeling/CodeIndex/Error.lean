/-!
# Errors of indexing

The causes for which detecting, reading and indexing can fail, and their wording.
-/

namespace CodeIndex

inductive IndexError where
  /-- A file cannot be read; the cause is the system's. -/
  | io (cause : String)
  /-- The database refuses a statement. -/
  | database (cause : String)
  | unknownLanguage (name : String) (available : List String)
  /-- Another pass holds the repository. -/
  | busy (root : String)
  | other (text : String)
  deriving DecidableEq, Repr

namespace IndexError

def message : IndexError → String
  | .io cause => "IO error: " ++ cause
  | .database cause => "database error: " ++ cause
  | .unknownLanguage name available =>
    s!"unknown language '{name}'. Available: " ++ ", ".intercalate available
  | .busy root => "an index pass is already running for " ++ root
  | .other text => text

end IndexError

end CodeIndex
