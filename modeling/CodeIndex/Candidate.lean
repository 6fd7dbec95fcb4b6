import CodeIndex.Extraction
import CodeIndex.Ignore.Policy

/-!
# Files to index

The files of a repository that a walk reaches and whose language is known, and what can go wrong with
one of them.
-/

namespace CodeIndex

structure Candidate where
  /-- From the root, with forward slashes. -/
  path : String
  language : String
  file : DiskFile
  deriving DecidableEq, Repr

/-- Seconds since the epoch; earlier times count as zero. -/
def Candidate.mtime (c : Candidate) : Double :=
  if Double.zero.lt c.file.mtime then c.file.mtime else .zero

/-- The files of a repository to index, in the order of the walk. -/
def candidates (r : Registry) (p : IgnorePolicy) (d : Disk) (root : String) : List Candidate :=
  (p.walk d root).filterMap fun (path, file) =>
    (r.detect? path (file.read.toOption.bind firstLine?)).map fun l =>
      ⟨Path.relative root path, l.name, file⟩

/-- What a pass reads files with. -/
structure Reader where
  registry : Registry
  grammars : Grammars

inductive FileErrorKind where
  /-- The tree is faulty; the file is indexed all the same. -/
  | parseError
  /-- The octets are no text. -/
  | encoding
  /-- The octets cannot be read. -/
  | io
  | database
  deriving DecidableEq, Repr

def FileErrorKind.text : FileErrorKind → String
  | .parseError => "parse_error"
  | .encoding => "encoding"
  | .io => "io"
  | .database => "database"

def FileErrorKind.all : List FileErrorKind :=
  [.parseError, .encoding, .io, .database]

structure FileError where
  path : String
  kind : FileErrorKind
  message : String
  deriving DecidableEq, Repr

/-- The text of a file, or what is wrong with it. -/
def Candidate.text (c : Candidate) : Except FileError String :=
  match c.file.read with
  | .error refusal => .error ⟨c.path, .io, refusal.message⟩
  | .ok octets =>
    (Text.Utf8.decode octets).mapError fun fault => ⟨c.path, .encoding, fault.message⟩

end CodeIndex
