import CodeIndex.Text.Find
import CodeIndex.Text.Lines

/-!
# Paths

Slash-separated paths as texts, and their components. Repeated slashes and inner single dots do not
count.
-/

namespace CodeIndex.Path

inductive Component where
  | root
  | current
  | up
  | name (text : String)
  deriving DecidableEq, Repr

def isAbsolute (path : String) : Bool :=
  Text.startsWith path "/"

def componentOf (part : String) : Option Component :=
  if part = "" || part = "." then none
  else if part = ".." then some .up
  else some (.name part)

def components (path : String) : List Component :=
  let parts := Text.splitOn path '/'
  let inner := parts.filterMap componentOf
  if isAbsolute path then .root :: inner
  else if parts.head? = some "." then .current :: inner
  else inner

/-- The last component, when it is a name. -/
def fileName? (path : String) : Option String :=
  match (components path).getLast? with
  | some (.name n) => some n
  | _ => none

/-- The text behind the last dot of a name; a dot in front of the whole name marks no extension. -/
def nameExtension? (name : String) : Option String :=
  match Text.cutLast? name "." with
  | some (stem, ext) => if stem = "" then none else some ext
  | none => none

def extension? (path : String) : Option String :=
  (fileName? path).bind nameExtension?

/-- The name without its extension. -/
def nameStem (name : String) : String :=
  match Text.cutLast? name "." with
  | some (stem, _) => if stem = "" then name else stem
  | none => name

def join (base path : String) : String :=
  if isAbsolute path then path
  else if base = "" || Text.endsWith base "/" then base ++ path
  else base ++ "/" ++ path

def Component.rank : Component → Nat
  | .root => 0
  | .current => 1
  | .up => 2
  | .name _ => 3

def Component.le : Component → Component → Bool
  | .name a, .name b => a ≤ b
  | a, b => a.rank ≤ b.rank

/-- Lexicographic in the components. -/
def leComponents : List Component → List Component → Bool
  | [], _ => true
  | _ :: _, [] => false
  | a :: as, b :: bs => if a = b then leComponents as bs else a.le b

/-- The order of paths by their components, not by the characters of the whole text. -/
def le (a b : String) : Bool :=
  leComponents (components a) (components b)

/-- A part between slashes that counts as no component inside a path. -/
def isFiller (part : String) : Bool :=
  part = "" || part = "."

/-- Drops parts up to and including the first `n` components. -/
def dropComponents : Nat → List String → List String
  | 0, parts => parts
  | _ + 1, [] => []
  | n + 1, part :: rest => if isFiller part then dropComponents (n + 1) rest else dropComponents n rest

/-- What follows `base` in a path that starts with its components. Fillers at both ends go, those
inside stay. -/
def relativeTo? (base path : String) : Option String :=
  let front := components base
  match Text.dropFront? front (components path) with
  | none => none
  | some _ =>
    let parts := Text.splitOn path '/'
    let rest :=
      if front.isEmpty then parts
      else
        let opening := front.head? = some .root || front.head? = some .current
        let inner := if opening then parts.drop 1 else parts
        (dropComponents (front.length - if opening then 1 else 0) inner).dropWhile isFiller
    let keep := if front.isEmpty then 1 else 0
    let head := rest.take keep
    let tail := ((rest.drop keep).reverse.dropWhile isFiller).reverse
    if head = [""] && tail.isEmpty && 1 < rest.length then some "/"
    else some ("/".intercalate (head ++ tail))

/-- A path relative to `base`, with forward slashes; the whole path when it does not lie below. -/
def relative (base path : String) : String :=
  Text.replaceChar ((relativeTo? base path).getD path) '\\' '/'

/-- The names along a path, other components left out. -/
def names (path : String) : List String :=
  (components path).filterMap fun
    | .name n => some n
    | _ => none

end CodeIndex.Path
