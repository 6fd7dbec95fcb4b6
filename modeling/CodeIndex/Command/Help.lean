import CodeIndex.Command.Basic

/-!
# Help

What a command is for, how it is used, and what its switches and operands mean.
-/

namespace CodeIndex.Command

def padEnd (width : Nat) (text : String) : String :=
  text ++ String.ofList (List.replicate (width - text.length) ' ')

/-- Rows of two columns. -/
def table (rows : List (String × String)) : String :=
  let width := (rows.map (·.1.length)).foldl max 0
  String.join (rows.map fun (left, right) => "  " ++ padEnd width left ++ "  " ++ right ++ "\n")

def titled (title : String) (rows : List (String × String)) : String :=
  if rows.isEmpty then "" else "\n" ++ title ++ ":\n" ++ table rows

def withInitial (about : String) : Option String → String
  | some v => if about = "" then s!"[default: {v}]" else s!"{about} [default: {v}]"
  | none => about

def Switch.row (w : Switch) : String × String :=
  let letter := match w.letter with
    | some l => s!"-{l}, "
    | none => "    "
  (letter ++ "--" ++ w.long ++ (w.value.map (s!" <{·}>")).getD "", withInitial w.about w.initial)

def Operand.usage (o : Operand) : String :=
  if o.initial.isSome then s!"[{o.name}]" else s!"<{o.name}>"

/-- What sorts switches of equal place: the letter, or else the long name. -/
def Switch.sortKey (w : Switch) : String :=
  match w.letter with
  | some l => s!"{l}0"
  | none => w.long

/-- The switches of a form and those that stand everywhere, each list counted from its start. -/
def Form.sortedSwitches (f : Form) : List Switch :=
  let le (a b : Switch × Nat) : Bool :=
    a.2 < b.2 || (a.2 = b.2 && a.1.sortKey ≤ b.1.sortKey)
  ((f.switches.zipIdx ++ everywhere.zipIdx).mergeSort le).map (·.1)

/-- The help of the last form of a path. -/
def helpText (path : List Form) : String :=
  match path.getLast? with
  | none => ""
  | some f =>
    let names := " ".intercalate (path.map (·.name))
    let rest := if f.inner.isEmpty then f.operands.map Operand.usage else ["<COMMAND>"]
    let commands := if f.inner.isEmpty then [] else
      f.inner.map (fun b => (b.name, b.about)) ++
        [("help", "Print this message or the help of the given subcommand(s)")]
    let extra := [("-h, --help", "Print help")] ++
      if path.length = 1 then [("-V, --version", "Print version")] else []
    f.about ++ "\n\nUsage: " ++ " ".intercalate (names :: "[OPTIONS]" :: rest) ++ "\n" ++
      titled "Commands" commands ++
      titled "Arguments" (f.operands.map fun o => (o.usage, withInitial o.about o.initial)) ++
      titled "Options" (f.sortedSwitches.map Switch.row ++ extra)

end CodeIndex.Command
