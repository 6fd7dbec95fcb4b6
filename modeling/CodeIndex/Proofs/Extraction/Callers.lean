import CodeIndex.Extraction
import CodeIndex.Language.Catalog
import CodeIndex.Proofs.Text.Lines
import CodeIndex.Proofs.Tree.Places

/-!
# The caller that a call names

A call is attributed to the nearest function and the nearest class around it, each found by itself, while the symbol
of that function has the class around its definition as its parent. The two walks pass the same classes except for
those between the call and the function. So the call names the symbol of its function exactly if no class stands
between them, or the nearest one there bears the name of the class around the function.
-/

namespace CodeIndex

/-- The qualified name tells the parent, given the name. -/
theorem Symbol.qualifiedName_withParent_inj {s : Symbol} {a b : Option String} :
    { s with parent := a }.qualifiedName = { s with parent := b }.qualifiedName ↔ a = b := by
  refine ⟨fun heq => ?_, fun heq => by rw [heq]⟩
  -- a qualified name is longer than the name at its end
  have hne : ∀ c, c ++ "." ++ s.name ≠ s.name := by
    intro c heq
    have hlength := congrArg String.length heq
    rw [String.length_append, String.length_append] at hlength
    have hdot : ".".length = 1 := rfl
    omega
  cases a with
  | none =>
    cases b with
    | none => rfl
    | some b => exact absurd heq.symm (hne b)
  | some a =>
    cases b with
    | none => exact absurd heq (hne a)
    | some b => simpa [qualifiedName, String.ext_iff] using heq

/-! ## Matches -/

namespace Tree

/-- A match of a named definition is the definition with one child that fills the field of its name. -/
theorem eq_of_mem_matchAt_named {s : Source} {kind nameKind : String} {l : Located} {m : Match}
    (h : m ∈ (Catalog.named kind nameKind).matchAt s l) :
    ∃ c ∈ l.children, c.node.field = some "name" ∧ m = [(.definition, l), (.name, c)] := by
  simp only [Catalog.named, Pattern.node, Pattern.as, Pattern.filling, Pattern.matchAt] at h
  split at h
  · obtain ⟨rest, hrest, rfl⟩ := List.mem_map.mp h
    rw [Pattern.matchChildren] at hrest
    obtain ⟨front, c, after, hsplit, hrest⟩ := mem_atEach_iff.mp hrest
    have hc : c ∈ l.children := hsplit ▸ List.mem_append_right front List.mem_cons_self
    obtain ⟨named, hnamed, hrest⟩ := List.mem_flatMap.mp hrest
    rw [Pattern.matchAt] at hnamed
    split at hnamed
    · rename_i hfits
      refine ⟨c, hc, ?_, ?_⟩
      · simp only [Pattern.fits, Bool.and_eq_true, decide_eq_true_eq] at hfits
        exact hfits.1.2
      · simp_all [Pattern.matchChildren]
    · cases hnamed
  · cases h

end Tree

namespace Parsed

open CodeIndex.Tree

variable {p : Parsed} {l d : Located} {between : List Node} {n : Node} {s : Symbol}

/-! ## Scopes -/

/-- The name of the class that a node opens. -/
def className (p : Parsed) (n : Node) : Option String :=
  if p.isClassScope n then p.openedScope n else none

/-- The name of the function that a node opens. -/
def functionName (p : Parsed) (n : Node) : Option String :=
  if p.isClassScope n then none else p.openedScope n

/-- The name of the first class among nodes. -/
def nearestClass (p : Parsed) (nodes : List Node) : Option String :=
  nodes.findSome? p.className

theorem nearestClass_append (xs ys : List Node) :
    p.nearestClass (xs ++ ys) = (p.nearestClass xs).or (p.nearestClass ys) :=
  List.findSome?_append

/-- A name of its own: one child fills the field, and its text is one word without type arguments. -/
structure HasName (p : Parsed) (n : Node) : Prop where
  unique : ∀ c ∈ n.children, ∀ d ∈ n.children, c.field = some "name" → d.field = some "name" → c = d
  word : ∀ c ∈ n.children, c.field = some "name" →
    ∀ x ∈ (c.text p.source).toList, x ≠ '<' ∧ Text.isBlank x = false

theorem HasName.child?_eq (h : p.HasName n) {c : Node} (hc : c ∈ n.children) (hfield : c.field = some "name") :
    n.child? "name" = some c := by
  unfold Node.child?
  cases hfind : n.children.find? (·.field = some "name") with
  | none => simpa [hfield] using List.find?_eq_none.mp hfind c hc
  | some d =>
    have hd := List.find?_some hfind
    exact congrArg some (h.unique d (List.mem_of_find?_eq_some hfind) c hc (by simpa using hd) hfield)

theorem HasName.scopeName_eq (h : p.HasName n) {c : Node} (hc : c ∈ n.children) (hfield : c.field = some "name")
    (htext : c.text p.source ≠ "") : p.scopeName n "name" = some (c.text p.source) := by
  have hword := h.word c hc hfield
  have hbare : Text.trimChars ((c.text p.source).toList.takeWhile (· != '<')) = (c.text p.source).toList := by
    rw [List.takeWhile_eq_self_iff.mpr fun x hx => by simpa using (hword x hx).1]
    exact Text.trimChars_of_forall fun x hx => (hword x hx).2
  simp [scopeName, h.child?_eq hc hfield, hbare, htext]

section Python

/-! ## The scopes of Python -/

variable (hrules : p.language.rules = Catalog.pythonRules)
include hrules

theorem isClassScope_iff : p.isClassScope n = true ↔ n.kind = "class_definition" := by
  simp [isClassScope, hrules, Catalog.pythonRules]

theorem enclosingClass_eq (d : Located) : p.enclosingClass d = p.nearestClass d.ancestors := by
  unfold enclosingClass nearestClass
  congr 1
  funext n
  unfold className openedScope
  split
  · rename_i hclass
    rw [(isClassScope_iff hrules).mp hclass, hrules]
    rfl
  · rfl

theorem functionName_of_kind_ne (h : n.kind ≠ "function_definition") : p.functionName n = none := by
  unfold functionName openedScope
  split
  · rfl
  · rename_i hclass
    have hkind : n.kind ≠ "class_definition" := fun hkind => hclass ((isClassScope_iff hrules).mpr hkind)
    have hlookup : p.language.rules.scopes.lookup n.kind = none := by
      rw [hrules]
      refine List.lookup_eq_none_iff.mpr fun scope hscope => ?_
      simp only [Catalog.pythonRules, List.mem_cons, List.not_mem_nil, or_false] at hscope
      rcases hscope with rfl | rfl <;> simpa
    simp [hlookup]

theorem functionName_of_kind_eq (h : n.kind = "function_definition") :
    p.functionName n = p.scopeName n "name" := by
  have hclass : p.isClassScope n = false := by
    simp [isClassScope, hrules, Catalog.pythonRules, h]
  simp [functionName, openedScope, hclass, hrules, Catalog.pythonRules, h]

end Python

/-! ## Calls -/

/-- The link of one callee. -/
def callLink? (p : Parsed) (l : Located) : Option Link :=
  let target := l.node.text p.source
  if target = "" then none
  else (p.enclosingScope l).map fun source =>
    { source, target, kind := .calls, file := p.file, line := l.node.startLine p.source }

theorem callLinks_eq (p : Parsed) : p.callLinks =
    (p.found (p.language.rules.relation .calls)).flatMap fun m => (m.all .callee).filterMap p.callLink? :=
  rfl

/-- The nearest function definition around a node, and the nodes between the two. -/
structure NearestFunction (l d : Located) (between : List Node) : Prop where
  ancestors_eq : l.ancestors = between ++ d.node :: d.ancestors
  kind_eq : d.node.kind = "function_definition"
  kind_ne : ∀ n ∈ between, n.kind ≠ "function_definition"

/-- A match of a definition has its name in a child that fills the field `name`. -/
def NamesByField (p : Parsed) : Prop :=
  ∀ rule ∈ p.language.rules.symbols, ∀ m ∈ p.found (some rule.query), ∀ d, m.get? .definition = some d →
    ∃ c ∈ d.children, c.node.field = some "name" ∧ m.get? .name = some c

theorem mem_found_iff (hrun : p.run = Query.run) {q : Query} {m : Match} :
    m ∈ p.found (some q) ↔
      q.compiles ∧ m ∈ q.patterns.flatMap fun pattern => (preorder [] p.root).flatMap (pattern.matchAt p.source) := by
  rw [found, hrun]
  exact Query.mem_run

theorem namesByField_run (hrules : p.language.rules = Catalog.pythonRules) (hrun : p.run = Query.run) :
    p.NamesByField := by
  intro rule hrule m hm d hdefinition
  have hquery : ∃ kind, rule.query.patterns = [Catalog.named kind "identifier"] := by
    rw [hrules] at hrule
    simp only [Catalog.pythonRules, List.mem_cons, List.not_mem_nil, or_false] at hrule
    rcases hrule with rfl | rfl <;> exact ⟨_, rfl⟩
  obtain ⟨kind, hpatterns⟩ := hquery
  have hmatch := ((mem_found_iff hrun).mp hm).2
  rw [hpatterns, List.flatMap_singleton] at hmatch
  obtain ⟨l, -, hmatch⟩ := List.mem_flatMap.mp hmatch
  obtain ⟨c, hc, hfield, rfl⟩ := eq_of_mem_matchAt_named hmatch
  obtain rfl : l = d := Option.some.inj hdefinition
  exact ⟨c, hc, hfield, rfl⟩

/-- The definition is one of the extracted symbols. -/
structure Extracted (p : Parsed) (d : Located) (s : Symbol) : Prop where
  mem : s ∈ p.symbols
  of_match : ∃ rule ∈ p.language.rules.symbols, ∃ m ∈ p.found (some rule.query),
    m.get? .definition = some d ∧ p.symbolOf rule.kind m = some s

/-- The name and the parent of the symbol of a definition. -/
theorem Extracted.name_parent (hrules : p.language.rules = Catalog.pythonRules) (hnames : p.NamesByField)
    (h : p.Extracted d s) (hname : p.HasName d.node) :
    p.scopeName d.node "name" = some s.name ∧ s.parent = p.nearestClass d.ancestors := by
  obtain ⟨rule, hrule, m, hm, hdefinition, hs⟩ := h.of_match
  obtain ⟨c, hc, hfield, hcaptured⟩ := hnames rule hrule m hm d hdefinition
  have hchild : c.node ∈ d.node.children := by
    obtain ⟨child, hchild, rfl⟩ := List.mem_map.mp hc
    exact hchild
  unfold symbolOf at hs
  rw [hcaptured, Option.bind_some, hdefinition, Option.getD_some] at hs
  dsimp only at hs
  split at hs
  · cases hs
  · rename_i htext
    cases hs
    exact ⟨hname.scopeName_eq hchild hfield htext, enclosingClass_eq hrules d⟩

/-- A call is attributed to the function around it, with the nearest class around the call as its parent. -/
theorem NearestFunction.enclosingScope_eq (hrules : p.language.rules = Catalog.pythonRules)
    (h : NearestFunction l d between) (hname : p.scopeName d.node "name" = some s.name)
    (hparent : s.parent = p.nearestClass d.ancestors) :
    p.enclosingScope l = some { s with parent := (p.nearestClass between).or s.parent }.qualifiedName := by
  have hfunction : l.ancestors.findSome? p.functionName = some s.name := by
    have hbetween : between.findSome? p.functionName = none :=
      List.findSome?_eq_none_iff.mpr fun n hn => functionName_of_kind_ne hrules (h.kind_ne n hn)
    rw [h.ancestors_eq, List.findSome?_append, hbetween, List.findSome?_cons,
      functionName_of_kind_eq hrules h.kind_eq, hname]
    rfl
  have howner : l.ancestors.findSome? p.className = (p.nearestClass between).or s.parent := by
    have hself : p.className d.node = none := by
      simp [className, isClassScope_iff hrules, h.kind_eq]
    have hclass := nearestClass_append (p := p) between (d.node :: d.ancestors)
    rw [← h.ancestors_eq] at hclass
    rw [hparent]
    unfold nearestClass at hclass ⊢
    rw [hclass, List.findSome?_cons, hself]
  unfold functionName at hfunction
  unfold className at howner
  unfold enclosingScope Symbol.qualifiedName
  rw [hfunction, howner]
  cases (p.nearestClass between).or s.parent <;> rfl

/-- For every syntax tree of Python, however matches are found in it, and every call whose nearest function is an
extracted symbol, the call has a link, and the link names that symbol exactly if no class stands between the call and
the function or the nearest one there bears the name of the symbol's parent. -/
theorem callLink_names_caller_iff (hrules : p.language.rules = Catalog.pythonRules) (hnames : p.NamesByField)
    {m : Match} (hm : m ∈ p.found (p.language.rules.relation .calls)) (hl : l ∈ m.all .callee)
    (htarget : l.node.text p.source ≠ "") (hfunction : NearestFunction l d between) (hname : p.HasName d.node)
    (hs : p.Extracted d s) :
    ∃ link, p.callLink? l = some link ∧ link ∈ p.callLinks ∧
      (link.source = s.qualifiedName ↔ p.nearestClass between = none ∨ p.nearestClass between = s.parent) := by
  obtain ⟨hscope, hparent⟩ := hs.name_parent hrules hnames hname
  have hsource := hfunction.enclosingScope_eq hrules hscope hparent
  have hlink : p.callLink? l = some
      { source := { s with parent := (p.nearestClass between).or s.parent }.qualifiedName
        target := l.node.text p.source, kind := .calls, file := p.file, line := l.node.startLine p.source } := by
    simp [callLink?, htarget, hsource]
  refine ⟨_, hlink, ?_, ?_⟩
  · rw [callLinks_eq]
    exact List.mem_flatMap.mpr ⟨m, hm, List.mem_filterMap.mpr ⟨l, hl, hlink⟩⟩
  · have hinj := Symbol.qualifiedName_withParent_inj (s := s) (a := (p.nearestClass between).or s.parent)
      (b := s.parent)
    refine hinj.trans ?_
    cases p.nearestClass between <;> simp

/-! ## A method, and a class within a function -/

/-- A named node without faults. -/
def branch (kind : String) (field : Option String) (start stop : Nat) (children : List Node) : Node :=
  { kind, field, start, stop, children
    isNamed := true, isError := false, isMissing := false, isExtra := false, hasError := false }

/-- A function or class with a name of one letter. -/
def definition (kind : String) (start name : Nat) (body : Node) : Node :=
  branch kind none start body.stop
    [branch "identifier" "name" name (name + 1) [], branch "block" "body" body.start body.stop [body]]

/-- An assignment `x = g()`. -/
def assignedCall (start : Nat) : Node :=
  let call := branch "call" "right" (start + 4) (start + 7) [branch "identifier" "function" (start + 4) (start + 5) []]
  branch "expression_statement" none start (start + 7)
    [branch "assignment" none start (start + 7) [branch "identifier" "left" start (start + 1) [], call]]

/-- The call of `g` in the method of a class. -/
def inMethod : Parsed where
  file := "a.py"
  language := Catalog.python
  source := .ofString "class C:\n def f():\n  x = g()\n"
  root := branch "module" none 0 29
    [definition "class_definition" 0 6 (definition "function_definition" 10 14 (assignedCall 21))]

/-- The call of `g` in the body of a class that stands in a function. -/
def inLocalClass : Parsed where
  file := "a.py"
  language := Catalog.python
  source := .ofString "def f():\n class C:\n  x = g()\n"
  root := branch "module" none 0 29
    [definition "function_definition" 0 4 (definition "class_definition" 10 16 (assignedCall 21))]

/-- The node at a place of the pre-order. -/
def nodeAt (p : Parsed) (i : Nat) : Located :=
  (preorder [] p.root).getD i default

def methodSymbol : Symbol :=
  { name := "f", kind := "method", file := "a.py", startLine := 2, endLine := 3, parent := some "C" }

def functionSymbol : Symbol :=
  { name := "f", kind := "function", file := "a.py", startLine := 1, endLine := 3, parent := none }

theorem nearestFunction_inMethod :
    NearestFunction (inMethod.nodeAt 11) (inMethod.nodeAt 4) ((inMethod.nodeAt 11).ancestors.take 4) :=
  ⟨rfl, rfl, by decide⟩

theorem nearestFunction_inLocalClass :
    NearestFunction (inLocalClass.nodeAt 11) (inLocalClass.nodeAt 1) ((inLocalClass.nodeAt 11).ancestors.take 6) :=
  ⟨rfl, rfl, by decide⟩

theorem extracted_inMethod : inMethod.Extracted (inMethod.nodeAt 4) methodSymbol where
  mem := List.mem_mergeSort.mpr (by decide +kernel)
  of_match := by
    refine ⟨_, List.mem_cons_of_mem _ List.mem_cons_self,
      [(.definition, inMethod.nodeAt 4), (.name, inMethod.nodeAt 5)], ?_, rfl, by decide +kernel⟩
    exact (mem_found_iff rfl).mpr ⟨rfl, List.mem_of_mem_head? rfl⟩

theorem extracted_inLocalClass : inLocalClass.Extracted (inLocalClass.nodeAt 1) functionSymbol where
  mem := List.mem_mergeSort.mpr (by decide +kernel)
  of_match := by
    refine ⟨_, List.mem_cons_of_mem _ List.mem_cons_self,
      [(.definition, inLocalClass.nodeAt 1), (.name, inLocalClass.nodeAt 2)], ?_, rfl, by decide +kernel⟩
    exact (mem_found_iff rfl).mpr ⟨rfl, List.mem_of_mem_head? rfl⟩

theorem hasName_inMethod : inMethod.HasName (inMethod.nodeAt 4).node where
  unique := by
    rintro c (_ | ⟨_, _ | ⟨_, _ | _⟩⟩) d (_ | ⟨_, _ | ⟨_, _ | _⟩⟩) hc hd
    · rfl
    · exact absurd hd (by decide)
    · exact absurd hc (by decide)
    · rfl
  word := by
    have htext : ((inMethod.nodeAt 5).node.text inMethod.source).toList = ['f'] := by decide +kernel
    rintro c (_ | ⟨_, _ | ⟨_, _ | _⟩⟩) hc x hx
    · obtain rfl : x = 'f' := List.mem_singleton.mp (htext ▸ hx)
      exact ⟨by decide, by decide⟩
    · exact absurd hc (by decide)

/-- The call in the method names it. -/
theorem callLink_names_caller_iff_inMethod :
    inMethod.Extracted (inMethod.nodeAt 4) methodSymbol ∧
      ∃ link ∈ inMethod.callLinks, link.source = methodSymbol.qualifiedName := by
  obtain ⟨link, -, hmem, hiff⟩ := callLink_names_caller_iff (p := inMethod) rfl (namesByField_run rfl rfl)
    ((mem_found_iff rfl).mpr ⟨rfl, List.mem_of_mem_head? rfl⟩) (List.mem_of_mem_head? rfl) (by decide +kernel)
    nearestFunction_inMethod hasName_inMethod extracted_inMethod
  exact ⟨extracted_inMethod, link, hmem, hiff.mpr (.inl (by decide +kernel))⟩

/-- The call in the class is attributed to `C.f`, while the function around it is the symbol `f`. -/
theorem call_in_local_class_misses_caller :
    NearestFunction (inLocalClass.nodeAt 11) (inLocalClass.nodeAt 1)
        ((inLocalClass.nodeAt 11).ancestors.take 6) ∧
      inLocalClass.Extracted (inLocalClass.nodeAt 1) functionSymbol ∧
      ∃ link ∈ inLocalClass.callLinks, inLocalClass.callLink? (inLocalClass.nodeAt 11) = some link ∧
        link.source = "C.f" ∧ functionSymbol.qualifiedName = "f" := by
  have hlink : inLocalClass.callLink? (inLocalClass.nodeAt 11) = some ⟨"C.f", "g", .calls, "a.py", 3⟩ := by
    decide +kernel
  refine ⟨nearestFunction_inLocalClass, extracted_inLocalClass, _, ?_, hlink, rfl, rfl⟩
  rw [callLinks_eq]
  exact List.mem_flatMap.mpr ⟨[(.callee, inLocalClass.nodeAt 11)],
    (mem_found_iff rfl).mpr ⟨rfl, List.mem_of_mem_head? rfl⟩, List.mem_filterMap.mpr ⟨_, List.mem_of_mem_head? rfl, hlink⟩⟩

end Parsed

end CodeIndex
