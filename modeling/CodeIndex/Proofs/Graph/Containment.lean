import CodeIndex.Chunk.Basic
import CodeIndex.Proofs.Extraction.Callers
import CodeIndex.Proofs.Graph.Home

/-!
# Which node contains a symbol

A symbol has the bare name of the class around it, and the node of its container is sought among qualified names.
Both are the same text only for a class that stands at the top of its file, so that exactly the members of such
classes hang below their class. Those of a class within a class hang below the file, or below another symbol of the
file whose qualified name is the bare name of their class.
-/

namespace CodeIndex

theorem Symbol.qualifiedName_eq_name_iff (s : Symbol) : s.qualifiedName = s.name ↔ s.parent = none :=
  Symbol.qualifiedName_withParent_inj (b := none)

namespace Graph

theorem symbolId_inj {file a b : String} : symbolId file a = symbolId file b ↔ a = b := by
  simp [symbolId, String.ext_iff]

theorem symbolId_ne_fileId (file name path : String) : symbolId file name ≠ fileId path := by
  simp [symbolId, fileId, String.ext_iff]

namespace FileGraph

variable {f : FileGraph} {s c : EnrichedSymbol}

theorem qualified?_eq_some {name id : String} : f.qualified? name = some id ↔
    (∃ c ∈ f.symbols, c.symbol.qualifiedName = name) ∧ symbolId f.path name = id := by
  simp [qualified?]

theorem qualified?_eq_none {name : String} :
    f.qualified? name = none ↔ ∀ c ∈ f.symbols, c.symbol.qualifiedName ≠ name := by
  simp [qualified?]

/-- The container of a symbol is another one exactly if that has the parent's name as its qualified name. -/
theorem containerOf_eq_idOf_iff (hc : c ∈ f.symbols) :
    f.containerOf s = f.idOf c ↔ s.symbol.parent = some c.symbol.qualifiedName := by
  unfold containerOf
  cases hparent : s.symbol.parent with
  | none => simpa [idOf] using (symbolId_ne_fileId _ _ _).symm
  | some parent =>
    rw [Option.bind_some, Option.some_inj]
    cases hid : f.qualified? parent with
    | none =>
      refine iff_of_false (symbolId_ne_fileId _ _ _).symm fun heq => ?_
      exact qualified?_eq_none.mp hid c hc heq.symm
    | some id =>
      obtain ⟨-, rfl⟩ := qualified?_eq_some.mp hid
      exact symbolId_inj

theorem containerOf_eq_fileId_iff : f.containerOf s = fileId f.path ↔
    ∀ c ∈ f.symbols, s.symbol.parent ≠ some c.symbol.qualifiedName := by
  constructor
  · intro hfile c hc hparent
    have hid : f.containerOf s = f.idOf c := (containerOf_eq_idOf_iff hc).mpr hparent
    exact symbolId_ne_fileId _ _ _ (hid.symm.trans hfile)
  · intro hnone
    unfold containerOf
    cases hparent : s.symbol.parent with
    | none => rfl
    | some parent =>
      have hid : f.qualified? parent = none :=
        qualified?_eq_none.mpr fun c hc heq => hnone c hc (hparent.trans (congrArg some heq.symm))
      rw [Option.bind_some, hid]
      rfl

/-- A class-like symbol of the file around another, which has its name as the name of its parent. -/
structure Encloses (f : FileGraph) (c s : EnrichedSymbol) : Prop where
  mem : c ∈ f.symbols
  classLike : ChunkKind.ofSymbolKind c.symbol.kind = .classLike
  parent_eq : s.symbol.parent = some c.symbol.name
  starts_before : c.symbol.startLine ≤ s.symbol.startLine
  ends_behind : s.symbol.endLine ≤ c.symbol.endLine

/-- The node of a symbol has that of another as its parent, from which an edge leads to it. -/
structure Contains (f : FileGraph) (c s : EnrichedSymbol) : Prop where
  parent : ∃ n ∈ f.nodes, n = f.symbolNode (Text.lineChars f.text.toList).toArray s ∧ n.parent = some (f.idOf c)
  edge : { source := f.idOf c, target := f.idOf s, kind := .contains } ∈ f.edges

theorem contains_iff (hs : s ∈ f.symbols) : f.Contains c s ↔ f.containerOf s = f.idOf c := by
  constructor
  · rintro ⟨⟨_, -, rfl, hparent⟩, -⟩
    exact Option.some.inj hparent
  · intro hcontainer
    refine ⟨⟨_, mem_nodes.mpr (.inr (.inl ⟨s, hs, rfl⟩)), rfl, congrArg some hcontainer⟩, ?_⟩
    exact List.mem_append_left _ (List.mem_map.mpr ⟨s, hs, by rw [hcontainer]⟩)

/-- A symbol hangs below a class around it exactly if such a class has no parent itself. It hangs below the file exactly
if no symbol has the name of its parent as its qualified name. -/
theorem contained_in_class_iff (f : FileGraph) (s : EnrichedSymbol) (hs : s ∈ f.symbols) :
    ((∃ c, f.Encloses c s ∧ f.Contains c s) ↔ ∃ c, f.Encloses c s ∧ c.symbol.parent = none) ∧
      (f.containerOf s = fileId f.path ↔ ∀ c ∈ f.symbols, s.symbol.parent ≠ some c.symbol.qualifiedName) := by
  refine ⟨exists_congr fun c => and_congr_right fun hc => ?_, containerOf_eq_fileId_iff⟩
  rw [contains_iff hs, containerOf_eq_idOf_iff hc.mem, hc.parent_eq, Option.some_inj, eq_comm,
    Symbol.qualifiedName_eq_name_iff]

/-- A symbol of three lines of Python, down to the last of them. -/
def nestedSymbol (name kind : String) (line : Nat) (parent : Option String) : EnrichedSymbol :=
  { symbol := { name, kind, file := "a.py", startLine := line, endLine := 3, parent }, tier := .first }

/-- A class within a class, with a method. -/
def nestedClasses : FileGraph :=
  { path := "a.py", text := "class A:\n    class B:\n        def f(self): pass\n"
    extraction := {
      language := "python", support := { tier := .first }, links := [], imports := [], syntaxError := none
      symbols := [nestedSymbol "A" "class" 1 none, nestedSymbol "B" "class" 2 (some "A"),
        nestedSymbol "f" "method" 3 (some "B")] } }

/-- The inner class hangs below the outer one. -/
theorem contained_in_class_iff_inner_class :
    let inner := nestedSymbol "B" "class" 2 (some "A")
    inner ∈ nestedClasses.symbols ∧ ∃ c, nestedClasses.Encloses c inner ∧ nestedClasses.Contains c inner := by
  intro inner
  have hinner : inner ∈ nestedClasses.symbols := by decide
  refine ⟨hinner, (contained_in_class_iff nestedClasses inner hinner).1.mpr ?_⟩
  exact ⟨nestedSymbol "A" "class" 1 none, ⟨by decide, by decide, rfl, by decide, by decide⟩, rfl⟩

/-- The method of the inner class hangs below the file. -/
theorem inner_method_below_file :
    let method := nestedSymbol "f" "method" 3 (some "B")
    method ∈ nestedClasses.symbols ∧ (∃ c, nestedClasses.Encloses c method) ∧
      (¬∃ c, nestedClasses.Encloses c method ∧ nestedClasses.Contains c method) ∧
      { source := fileId "a.py", target := symbolId "a.py" "B.f", kind := .contains } ∈ nestedClasses.edges := by
  intro method
  have hmethod : method ∈ nestedClasses.symbols := by decide
  have hclass : nestedClasses.Encloses (nestedSymbol "B" "class" 2 (some "A")) method :=
    ⟨by decide, by decide, rfl, by decide, by decide⟩
  refine ⟨hmethod, ⟨_, hclass⟩, ?_, by decide +kernel⟩
  rintro ⟨c, hc, hcontains⟩
  have hcontainer : nestedClasses.containerOf method = fileId "a.py" := by decide +kernel
  exact symbolId_ne_fileId _ _ _ (((contains_iff hmethod).mp hcontains).symm.trans hcontainer)

end FileGraph

end Graph

end CodeIndex
