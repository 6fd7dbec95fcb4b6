import CodeIndex.Text.Find

/-!
# Reading arguments

A form says which switches and operands a command takes, or which commands stand below it. Switches have
a long name and may have a letter; letters may be written together, and a value stands behind its switch
or is joined to it.
-/

namespace CodeIndex.Command

structure Switch where
  letter : Option Char := none
  long : String
  /-- The name of its value, if it takes one. -/
  value : Option String := none
  about : String := ""
  initial : Option String := none
  /-- Whether it may be given more than once. -/
  repeats : Bool := false
  accepts : String → Bool := fun _ => true

structure Operand where
  name : String
  about : String := ""
  /-- An operand without one must be given. -/
  initial : Option String := none
  accepts : String → Bool := fun _ => true

structure Form where
  name : String
  about : String
  switches : List Switch := []
  operands : List Operand := []
  inner : List Form := []

/-- What the arguments of a command give. -/
structure Given where
  /-- The names of the commands. -/
  path : List String := []
  flags : List String := []
  values : List (String × String) := []
  operands : List String := []
  deriving DecidableEq, Repr

namespace Given

def has (g : Given) (flag : String) : Bool :=
  g.flags.contains flag

/-- The values of a switch in order. -/
def all (g : Given) (long : String) : List String :=
  (g.values.filter (·.1 = long)).map (·.2)

/-- The value of a switch; that of the innermost command wins. -/
def value? (g : Given) (long : String) : Option String :=
  (g.all long).getLast?

end Given

/-- Why there is nothing to run. -/
inductive Stop where
  | usage
  | version
  /-- The help of the last of these forms. -/
  | help (path : List Form)

/-- Reading the arguments of one command. -/
structure Scan where
  given : Given := {}
  /-- A switch whose value comes next. -/
  pending : Option Switch := none
  /-- Whether all that follows are operands. -/
  isOpen : Bool := false

namespace Scan

/-- Sets a flag, which must not be set yet. -/
def flag (s : Scan) (w : Switch) : Except Stop Scan :=
  if s.given.has w.long then .error .usage
  else .ok { s with given := { s.given with flags := s.given.flags ++ [w.long] } }

/-- Adds a value. -/
def value (s : Scan) (w : Switch) (v : String) : Except Stop Scan :=
  if (!w.repeats && (s.given.value? w.long).isSome) || !w.accepts v then .error .usage
  else .ok { s with pending := none, given := { s.given with values := s.given.values ++ [(w.long, v)] } }

def operand (s : Scan) (f : Form) (v : String) : Except Stop Scan :=
  match f.operands[s.given.operands.length]? with
  | some o =>
    if o.accepts v then .ok { s with given := { s.given with operands := s.given.operands ++ [v] } }
    else .error .usage
  | none => .error .usage

end Scan

/-- A command and the commands above it, with the switches that all of them take. -/
structure Context where
  form : Form
  above : List Form := []
  everywhere : List Switch := []

namespace Context

def path (c : Context) : List Form :=
  c.above ++ [c.form]

def switches (c : Context) : List Switch :=
  c.form.switches ++ c.everywhere

/-- Only the outermost command has a version. -/
def isOutermost (c : Context) : Bool :=
  c.above.isEmpty

/-- A long switch, with what is joined to it. -/
def long (c : Context) (s : Scan) (text : String) : Except Stop Scan :=
  let (name, joined) := match Text.cut? text "=" with
    | some (name, v) => (name, some v)
    | none => (text, none)
  match c.switches.find? (·.long = name), joined with
  | some w, some v => if w.value.isSome then s.value w v else .error .usage
  | some w, none => if w.value.isSome then .ok { s with pending := some w } else s.flag w
  | none, some _ => .error .usage
  | none, none =>
    if name = "help" then .error (.help c.path)
    else if name = "version" && c.isOutermost then .error .version
    else .error .usage

/-- Letters of switches; the rest behind one that takes a value is its value. -/
def letters (c : Context) (s : Scan) : List Char → Except Stop Scan
  | [] => .ok s
  | l :: rest =>
    match c.switches.find? (·.letter = some l) with
    | some w =>
      if w.value.isSome then
        match rest with
        | [] => .ok { s with pending := some w }
        | '=' :: v => s.value w (String.ofList v)
        | v => s.value w (String.ofList v)
      else
        match s.flag w with
        | .ok s => letters c s rest
        | .error e => .error e
    | none =>
      if l == 'h' then .error (.help c.path)
      else if l == 'V' && c.isOutermost then .error .version
      else .error .usage

/-- The form that a path of names leads to, for its help. -/
def helpOn (path : List Form) (f : Form) : List String → Stop
  | [] => .help (path ++ [f])
  | name :: rest =>
    match f.inner.find? (·.name = name) with
    | some g => helpOn (path ++ [f]) g rest
    | none => .usage

/-- Reads arguments up to the name of a command below, if there are any. -/
def scan (c : Context) (s : Scan) : List String → Except Stop (Given × Option (Form × List String))
  | [] => if s.pending.isSome then .error .usage else .ok (s.given, none)
  | arg :: rest =>
    let isSwitch := arg.length ≠ 1 && Text.startsWith arg "-"
    match s.pending with
    | some w =>
      if isSwitch then .error .usage
      else match s.value w arg with
        | .ok s => c.scan s rest
        | .error e => .error e
    | none =>
      if s.isOpen || !isSwitch then
        if c.form.inner.isEmpty || s.isOpen then
          match s.operand c.form arg with
          | .ok s => c.scan s rest
          | .error e => .error e
        else match c.form.inner.find? (·.name = arg) with
          | some f => .ok (s.given, some (f, rest))
          | none => .error (if arg = "help" then helpOn c.above c.form rest else .usage)
      else if arg = "--" then c.scan { s with isOpen := true } rest
      else
        let next := match Text.stripFront? arg "--" with
          | some text => c.long s text
          | none => c.letters s (arg.toList.drop 1)
        match next with
        | .ok s => c.scan s rest
        | .error e => .error e

/-- Reads all arguments; `fuel` bounds how deep commands stand below each other. -/
def parse (fuel : Nat) (c : Context) (args : List String) : Except Stop Given :=
  match fuel with
  | 0 => .error .usage
  | fuel + 1 => do
    let (given, next) ← c.scan {} args
    match next with
    | some (f, rest) =>
      let rest ← parse fuel { c with form := f, above := c.path } rest
      return {
        path := f.name :: rest.path, flags := given.flags ++ rest.flags
        values := given.values ++ rest.values, operands := rest.operands }
    | none =>
      let missing := c.form.operands.drop given.operands.length
      if !c.form.inner.isEmpty || missing.any (·.initial.isNone) then .error .usage
      else return { given with operands := given.operands ++ missing.filterMap (·.initial) }

end Context

end CodeIndex.Command
