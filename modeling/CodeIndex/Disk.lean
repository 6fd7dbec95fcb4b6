import CodeIndex.Numeric.Double
import CodeIndex.Path

/-!
# Files

A tree of files below one root. A file is known by its path from the root, which has no dots and no
doubled slashes.
-/

namespace CodeIndex

/-- Why the system refuses to open a path. -/
inductive Disk.Refusal where
  | missing
  | notDirectory
  | isDirectory
  /-- A file is in the way. -/
  | inTheWay
  | denied
  deriving DecidableEq, Repr

def Disk.Refusal.message : Refusal → String
  | .missing => "No such file or directory (os error 2)"
  | .notDirectory => "Not a directory (os error 20)"
  | .isDirectory => "Is a directory (os error 21)"
  | .inTheWay => "File exists (os error 17)"
  | .denied => "Permission denied (os error 13)"

structure DiskFile where
  octets : List UInt8
  /-- Seconds since the epoch. -/
  mtime : Double
  /-- Why the file cannot be read, if it cannot. -/
  refusal : Option Disk.Refusal := none
  deriving DecidableEq, Repr, Inhabited

/-- The octets of a file that can be read. -/
def DiskFile.read (f : DiskFile) : Except Disk.Refusal (List UInt8) :=
  match f.refusal with
  | some refusal => .error refusal
  | none => .ok f.octets

structure Disk where
  /-- By path. -/
  files : List (String × DiskFile) := []
  directories : List String := []
  deriving Repr, Inhabited

namespace Disk

def file? (d : Disk) (path : String) : Option DiskFile :=
  d.files.lookup path

def isDirectory (d : Disk) (path : String) : Bool :=
  path = "" || d.directories.contains path

/-- The directories above a path, the root left out. -/
def parents (path : String) : List String :=
  let names := Path.names path
  (List.range (names.length - 1)).map fun i => "/".intercalate (names.take (i + 1))

def put (d : Disk) (path : String) (file : DiskFile) : Disk :=
  let others := d.files.filter (·.1 != path)
  { files := others ++ [(path, file)]
    directories := d.directories ++ (parents path).filter (!d.directories.contains ·) }

/-- Whether a path is another one or lies below it. -/
def isWithin (path top : String) : Bool :=
  path = top || Text.startsWith path (top ++ "/")

/-- Removes a file, or a directory with everything below it. -/
def erase (d : Disk) (path : String) : Disk :=
  { files := d.files.filter (!isWithin ·.1 path)
    directories := d.directories.filter (!isWithin · path) }

/-- Sets the time of a file that is there. -/
def touch (d : Disk) (path : String) (mtime : Double) : Disk :=
  { d with files := d.files.map fun (p, f) => if p = path then (p, { f with mtime }) else (p, f) }

/-- Moves a file, or a directory with everything below it; times stay. -/
def rename (d : Disk) (source target : String) : Disk :=
  let moved := d.files.filter (isWithin ·.1 source)
  moved.foldl (fun d (path, f) => d.put (target ++ (Text.stripFront? path source).getD "") f) (d.erase source)

/-- One component further down from a directory. -/
def descend (d : Disk) (place : List String) (c : Path.Component) : Except Refusal (List String) :=
  let here := "/".intercalate place
  if !d.isDirectory here then .error (if (d.file? here).isSome then .notDirectory else .missing)
  else match c with
    | .root => .ok []
    | .current => .ok place
    | .up => .ok place.dropLast
    | .name n => .ok (place ++ [n])

/-- The path from the root to which a path with dots leads. Behind a file there is nothing, not even a
slash. -/
def resolve (d : Disk) (path : String) : Except Refusal String := do
  let place ← (Path.components path).foldlM d.descend []
  let here := "/".intercalate place
  if d.isDirectory here then return here
  else if (d.file? here).isNone then .error .missing
  else if (Text.splitOn path '/').getLast?.all Path.isFiller then .error .notDirectory
  else return here

/-- Creates the directories along components from a place, and says where they lead. -/
def makeAlong (d : Disk) (place : List String) : List Path.Component → Except Refusal (Disk × List String)
  | [] => .ok (d, place)
  | .name n :: rest =>
    let place := place ++ [n]
    let here := "/".intercalate place
    if (d.file? here).isSome then .error (if rest.isEmpty then .inTheWay else .notDirectory)
    else if d.isDirectory here then d.makeAlong place rest
    else { d with directories := d.directories ++ [here] }.makeAlong place rest
  | .up :: rest => d.makeAlong place.dropLast rest
  | .current :: rest | .root :: rest => d.makeAlong place rest

/-- Creates a directory with all above it. -/
def makeDirectory (d : Disk) (path : String) : Except Refusal (Disk × String) :=
  (d.makeAlong [] (Path.components path)).map fun (d, place) => (d, "/".intercalate place)

/-- The octets of the file at a path. -/
def read (d : Disk) (path : String) : Except Refusal (List UInt8) := do
  let here ← d.resolve path
  match d.file? here with
  | some f => f.read
  | none => .error .isDirectory

end Disk

end CodeIndex
