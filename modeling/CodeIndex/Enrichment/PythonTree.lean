import CodeIndex.Text.Blank
import CodeIndex.Text.Find
import CodeIndex.Tree.Basic

/-!
# Definitions in Python trees

What the symbol queries leave out: annotations, parameters, decorators, `async`, documentation and the
visibility that underscores stand for.
-/

namespace CodeIndex.PythonTree

open CodeIndex.Tree

structure Definition where
  returnType : Option String
  parameters : List String
  isAsync : Bool
  decorators : List String
  docstring : Option String
  visibility : String
  deriving DecidableEq, Repr

mutual

/-- The nodes of a subtree that are reached through named children, with their parents; children stand
before their parents. -/
def postorder (parent : Option Node) : Node → List (Node × Option Node)
  | n@⟨_, _, _, _, _, _, _, _, _, children⟩ => postorderNamed n children ++ [(n, parent)]

def postorderNamed (parent : Node) : List Node → List (Node × Option Node)
  | [] => []
  | c :: rest => (if c.isNamed then postorder (some parent) c else []) ++ postorderNamed parent rest

end

def named (n : Node) : List Node :=
  n.children.filter (·.isNamed)

def fieldText (s : Source) (n : Node) (field : String) : Option String :=
  (n.child? field).map (·.text s)

/-- How a parameter reads without its default. -/
def parameterText (s : Source) (p : Node) : Option String :=
  match p.kind with
  | "comment" => none
  | "default_parameter" => fieldText s p "name"
  | "typed_default_parameter" =>
    (fieldText s p "name").map fun name =>
      match fieldText s p "type" with
      | some type => name ++ ": " ++ type
      | none => name
  | _ => some (p.text s)

/-- The parameters other than a bare receiver. -/
def parameters (s : Source) (n : Node) : List String :=
  match n.child? "parameters" with
  | none => []
  | some list => ((named list).filterMap (parameterText s)).filter fun p => p != "self" && p != "cls"

def decorators (s : Source) (parent : Option Node) : List String :=
  match parent with
  | some p =>
    if p.kind = "decorated_definition" then
      ((named p).filter (·.kind = "decorator")).map fun d => Text.trim (Text.stripStart (· == '@') (d.text s))
    else []
  | none => []

/-- The inside of a string literal. -/
def unquoted (raw : String) : String :=
  let body := Text.stripStart ("rRbBuUfF".toList.contains ·) raw
  let inner (quote : String) := (Text.stripFront? body quote).bind (Text.stripBack? · quote)
  (["\"\"\"", "'''", "\"", "'"].findSome? inner).getD body

/-- The literal that stands first in a body. -/
def docstring (s : Source) (n : Node) : Option String :=
  (n.child? "body").bind fun body =>
    ((named body).find? (·.kind != "comment")).bind fun first =>
      if first.kind = "expression_statement" then
        match named first with
        | literal :: _ =>
          let doc := Text.trim (unquoted (literal.text s))
          if literal.kind = "string" && doc != "" then some doc else none
        | [] => none
      else none

def visibility (name : String) : String :=
  if Text.startsWith name "__" && Text.endsWith name "__" then "public"
  else if Text.startsWith name "_" then "private"
  else "public"

def isDefinition (n : Node) : Bool :=
  n.kind = "function_definition" || n.kind = "class_definition"

def describe (s : Source) (name : String) (n : Node) (parent : Option Node) : Definition :=
  let isFunction := n.kind = "function_definition"
  { returnType := fieldText s n "return_type"
    parameters := if isFunction then parameters s n else []
    isAsync := isFunction && n.children.any (·.kind = "async")
    decorators := decorators s parent
    docstring := docstring s n
    visibility := visibility name }

/-- The definition of a name on a line; of several, one that lies inside or before the others. -/
def find? (s : Source) (root : Node) (name : String) (line : Nat) : Option Definition :=
  (postorder none root).findSome? fun (n, parent) =>
    if isDefinition n && fieldText s n "name" = some name && n.startLine s = line then
      some (describe s name n parent)
    else none

end CodeIndex.PythonTree
