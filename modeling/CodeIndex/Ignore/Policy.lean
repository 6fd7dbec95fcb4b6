import CodeIndex.Disk
import CodeIndex.Ignore.Rules

/-!
# Which files count

A path is left out when one of its segments is hidden, names a skipped directory or marks package
metadata. A walk also honours the ignore files along the way, and does not enter what it leaves out.
-/

namespace CodeIndex

structure IgnorePolicy where
  /-- Sorted, each once. -/
  skipped : List String
  deriving DecidableEq, Repr

namespace IgnorePolicy

def defaultSkipped : List String := [
  "__pycache__", "node_modules", "venv", "env", "build", "dist", "target", "out", "coverage", "htmlcov",
  "vendor", "third_party", "archive", "site-packages"]

/-- The default directories and further ones. -/
def withSkipped (extra : List String) : IgnorePolicy :=
  ⟨((defaultSkipped ++ extra).mergeSort (· ≤ ·)).eraseDups⟩

def ignoresSegment (p : IgnorePolicy) (segment : String) : Bool :=
  (Text.startsWith segment "." && segment != "." && segment != "..") ||
    p.skipped.contains segment || Text.endsWith segment ".egg-info"

/-- Whether a path is left out by its segments below `root`. -/
def ignores (p : IgnorePolicy) (root path : String) : Bool :=
  (Path.names ((Path.relativeTo? root path).getD path)).any p.ignoresSegment

/-- The ignore files of a directory, those of greater weight first. -/
def ruleFiles : List String := [".ignore", ".gitignore", ".git/info/exclude"]

/-- The text of `path` below the directory `base`, both from the root. -/
def below (base path : String) : String :=
  if base = "" then path else (Text.stripFront? path (base ++ "/")).getD path

/-- The directory of a path and those above it, the nearest first, the root last. -/
def directoriesAbove (path : String) : List String :=
  (Disk.parents path).reverse ++ [""]

/-- Whether the ignore files along the way leave out an entry. The nearest file of a kind with a rule
for the entry decides for its kind, and the kinds follow each other. -/
def ruledOut (d : Disk) (path : String) (isDirectory : Bool) : Bool :=
  let verdict (name : String) : Option Bool :=
    (directoriesAbove path).findSome? fun dir =>
      match (d.file? (if dir = "" then name else dir ++ "/" ++ name)).bind (·.read.toOption) with
      | some octets => Ignore.decide? (Ignore.rulesOf octets) (below dir path) isDirectory
      | none => none
  (ruleFiles.findSome? verdict).getD false

/-- Whether a walk from a directory reaches a file: no directory on the way and not the file itself is left
out. -/
def reaches (p : IgnorePolicy) (d : Disk) (root path : String) : Bool :=
  let inner := below root path
  let onTheWay := (Disk.parents path).filter fun dir => root = "" || Text.startsWith dir (root ++ "/")
  (root = "" || Text.startsWith path (root ++ "/")) &&
    !(Path.names inner).any p.ignoresSegment &&
    !onTheWay.any (ruledOut d · true) && !ruledOut d path false

/-- The files that a walk reaches, in the order of their components. A root that is a file is reached itself, whatever
the rules say. -/
def walk (p : IgnorePolicy) (d : Disk) (root : String) : List (String × DiskFile) :=
  match d.file? root with
  | some file => [(root, file)]
  | none => (d.files.filter fun (path, _) => p.reaches d root path).mergeSort fun a b => Path.le a.1 b.1

theorem walk_of_file {p : IgnorePolicy} {d : Disk} {root : String} {file : DiskFile} (h : d.file? root = some file) :
    p.walk d root = [(root, file)] := by
  rw [walk, h]

theorem walk_of_directory {p : IgnorePolicy} {d : Disk} {root : String} (h : d.file? root = none) :
    p.walk d root =
      (d.files.filter fun (path, _) => p.reaches d root path).mergeSort fun a b => Path.le a.1 b.1 := by
  rw [walk, h]

end IgnorePolicy

end CodeIndex
