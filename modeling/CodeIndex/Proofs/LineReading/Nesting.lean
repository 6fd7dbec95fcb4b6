import CodeIndex.LineReading

/-!
# Methods of the class around them

A line stands in the class of an earlier line if every line behind that one, blank lines apart, is deeper than it. A
function is meant to be a method of the innermost class in which it stands. The reading keeps one open class, the last
one declared, so that this comes true exactly if no other class is declared behind the innermost one
(`methods_by_nesting_iff`): a class inside a class hides the outer one from what follows.
-/

namespace CodeIndex.LineReading

/-! ## Classes around a line -/

section Nesting

variable (declares : List Char → Option Declaration) (lines : List (List Char))

/-- Line `c` declares a class. -/
def DeclaresClass (c : Nat) (owner : OpenClass) : Prop :=
  ∃ line, lines[c]? = some line ∧ declares line = some ⟨owner.name, "class"⟩ ∧ owner.indent = indentOf line

/-- The lines between `c` and `stop` that are not blank are deeper than `indent`. -/
def Deeper (c stop indent : Nat) : Prop :=
  ∀ i line, c < i → i < stop → lines[i]? = some line → line.all Text.isBlank = false → indent < indentOf line

/-- Line `l` stands in the class that line `c` declares. -/
structure StandsIn (l c : Nat) (owner : OpenClass) : Prop where
  before : c < l
  declared : DeclaresClass declares lines c owner
  deeper : Deeper lines c (l + 1) owner.indent

structure Innermost (l c : Nat) (owner : OpenClass) : Prop extends StandsIn declares lines l c owner where
  last : ∀ c' owner', StandsIn declares lines l c' owner' → c' ≤ c

/-- Line `c` declares the last class before line `l`. -/
structure LastClass (l c : Nat) (owner : OpenClass) : Prop where
  before : c < l
  declared : DeclaresClass declares lines c owner
  last : ∀ c' owner', c' < l → DeclaresClass declares lines c' owner' → c' ≤ c

/-- A function on line `l` is a method of the innermost class in which it stands. -/
structure ByNesting (l : Nat) (sym : Symbol) : Prop where
  method : ∀ c owner, Innermost declares lines l c owner → sym.parent = some owner.name ∧ sym.kind = "method"
  function : (∀ c owner, ¬StandsIn declares lines l c owner) → sym.parent = none ∧ sym.kind = "function"

/-- A function on line `l` is a method of the last class before it if it stands in that one. -/
structure ByLastClass (l : Nat) (sym : Symbol) : Prop where
  method : ∀ c owner, LastClass declares lines l c owner → StandsIn declares lines l c owner →
    sym.parent = some owner.name ∧ sym.kind = "method"
  function : (∀ c owner, LastClass declares lines l c owner → ¬StandsIn declares lines l c owner) →
    sym.parent = none ∧ sym.kind = "function"

/-- Behind the innermost class around line `l` another class is declared. -/
def Hidden (l : Nat) : Prop :=
  ∃ c owner c' owner', Innermost declares lines l c owner ∧ c < c' ∧ c' < l ∧ DeclaresClass declares lines c' owner'

end Nesting

variable {declares : List Char → Option Declaration} {lines : List (List Char)}

theorem DeclaresClass.unique {c : Nat} {owner owner' : OpenClass} (h : DeclaresClass declares lines c owner)
    (h' : DeclaresClass declares lines c owner') : owner = owner' := by
  obtain ⟨line, hline, hname, hindent⟩ := h
  obtain ⟨line', hline', hname', hindent'⟩ := h'
  obtain rfl := Option.some.inj (hline.symm.trans hline')
  cases owner
  cases owner'
  simp_all

theorem LastClass.unique {l c c' : Nat} {owner owner' : OpenClass} (h : LastClass declares lines l c owner)
    (h' : LastClass declares lines l c' owner') : owner = owner' := by
  obtain rfl : c = c' := Nat.le_antisymm (h'.last c owner h.before h.declared) (h.last c' owner' h'.before h'.declared)
  exact h.declared.unique h'.declared

/-- The last class before a line is the innermost one if the line stands in it. -/
theorem LastClass.innermost {l c : Nat} {owner : OpenClass} (h : LastClass declares lines l c owner)
    (hin : StandsIn declares lines l c owner) : Innermost declares lines l c owner :=
  ⟨hin, fun c' owner' h' => h.last c' owner' h'.before h'.declared⟩

/-! ## The open class -/

/-- The open class behind a line. -/
def afterLine (declares : List Char → Option Declaration) (openClass : Option OpenClass) (line : List Char) :
    Option OpenClass :=
  match declares line with
  | none => stillOpen openClass line
  | some d => if d.kind = "class" then some ⟨d.name, indentOf line⟩ else stillOpen openClass line

/-- The open class in front of line `l`. -/
def openBefore (declares : List Char → Option Declaration) (lines : List (List Char)) (l : Nat) : Option OpenClass :=
  (lines.take l).foldl (afterLine declares) none

theorem openBefore_succ {l : Nat} {line : List Char} (h : lines[l]? = some line) :
    openBefore declares lines (l + 1) = afterLine declares (openBefore declares lines l) line := by
  rw [openBefore, List.take_add_one, h, Option.toList_some, List.foldl_append]
  rfl

theorem stillOpen_eq_some_iff {openClass : Option OpenClass} {line : List Char} {owner : OpenClass} :
    stillOpen openClass line = some owner ↔
      openClass = some owner ∧ (line.all Text.isBlank = false → owner.indent < indentOf line) := by
  unfold stillOpen
  split
  · next hblank => simp [hblank]
  · next hblank =>
    rw [Bool.not_eq_true] at hblank
    simp [Option.filter_eq_some_iff, hblank]

/-- Each line adds its own depth to those before it. -/
theorem deeper_succ {c l indent : Nat} {line : List Char} (hc : c < l) (h : lines[l]? = some line) :
    Deeper lines c (l + 1) indent ↔
      Deeper lines c l indent ∧ (line.all Text.isBlank = false → indent < indentOf line) := by
  constructor
  · intro hdeep
    exact ⟨fun i x hi hl => hdeep i x hi (Nat.lt_succ_of_lt hl), hdeep l line hc (Nat.lt_succ_self l) h⟩
  · rintro ⟨hdeep, hline⟩ i x hi hl hx
    rcases Nat.eq_or_lt_of_le (Nat.le_of_lt_succ hl) with rfl | hlt
    · obtain rfl := Option.some.inj (h.symm.trans hx)
      exact hline
    · exact hdeep i x hi hlt hx

/-- A line without a class leaves the last class as it was. -/
theorem lastClass_succ {l c : Nat} {owner : OpenClass} (h : ∀ owner', ¬DeclaresClass declares lines l owner') :
    LastClass declares lines (l + 1) c owner ↔ LastClass declares lines l c owner := by
  have hne : ∀ {c' owner'}, DeclaresClass declares lines c' owner' → c' < l + 1 → c' < l := by
    intro c' owner' hdecl hlt
    rcases Nat.eq_or_lt_of_le (Nat.le_of_lt_succ hlt) with rfl | hlt
    · exact absurd hdecl (h owner')
    · exact hlt
  constructor
  · rintro ⟨hbefore, hdecl, hlast⟩
    exact ⟨hne hdecl hbefore, hdecl, fun c' owner' hlt => hlast c' owner' (Nat.lt_succ_of_lt hlt)⟩
  · rintro ⟨hbefore, hdecl, hlast⟩
    exact ⟨Nat.lt_succ_of_lt hbefore, hdecl, fun c' owner' hlt hdecl' => hlast c' owner' (hne hdecl' hlt) hdecl'⟩

/-- A line that declares a class opens it. -/
theorem openBefore_of_declaresClass {l : Nat} {own : OpenClass} (h : DeclaresClass declares lines l own) :
    openBefore declares lines (l + 1) = some own := by
  obtain ⟨line, hline, hdecl, hindent⟩ := h
  rw [openBefore_succ hline, afterLine, hdecl]
  simp [← hindent]

/-- Another line leaves a class open at most. -/
theorem openBefore_of_not_declaresClass {l : Nat} {line : List Char} (hline : lines[l]? = some line)
    (hnone : ∀ owner, ¬DeclaresClass declares lines l owner) :
    openBefore declares lines (l + 1) = stillOpen (openBefore declares lines l) line := by
  rw [openBefore_succ hline, afterLine]
  cases hdecl : declares line with
  | none => rfl
  | some d =>
    have hkind : d.kind ≠ "class" := by
      intro hkind
      exact hnone ⟨d.name, indentOf line⟩ ⟨line, hline, by rw [hdecl, ← hkind], rfl⟩
    simp only [if_neg hkind]

/-- The open class is the last one declared, as long as all lines behind it are deeper. -/
theorem openBefore_eq_some_iff {l : Nat} (hl : l ≤ lines.length) {owner : OpenClass} :
    openBefore declares lines l = some owner ↔
      ∃ c, LastClass declares lines l c owner ∧ Deeper lines c l owner.indent := by
  induction l with
  | zero =>
    constructor
    · intro h
      cases h
    · rintro ⟨c, hlast, -⟩
      exact absurd hlast.before (Nat.not_lt_zero c)
  | succ l ih =>
    by_cases hclass : ∃ own, DeclaresClass declares lines l own
    · obtain ⟨own, hown⟩ := hclass
      have hlast : LastClass declares lines (l + 1) l own :=
        ⟨Nat.lt_succ_self l, hown, fun c' owner' hlt _ => Nat.le_of_lt_succ hlt⟩
      rw [openBefore_of_declaresClass hown, Option.some.injEq]
      constructor
      · rintro rfl
        exact ⟨l, hlast, fun i x hi hstop => absurd hstop (by omega)⟩
      · rintro ⟨c, hlast', -⟩
        exact hlast.unique hlast'
    · have hnone : ∀ own, ¬DeclaresClass declares lines l own := fun own h => hclass ⟨own, h⟩
      have hline : lines[l]? = some lines[l] := List.getElem?_eq_getElem hl
      rw [openBefore_of_not_declaresClass hline hnone, stillOpen_eq_some_iff, ih (by omega)]
      constructor
      · rintro ⟨⟨c, hlast, hdeep⟩, hown⟩
        exact ⟨c, (lastClass_succ hnone).mpr hlast, (deeper_succ hlast.before hline).mpr ⟨hdeep, hown⟩⟩
      · rintro ⟨c, hlast, hdeep⟩
        have hlast := (lastClass_succ hnone).mp hlast
        obtain ⟨hdeep, hown⟩ := (deeper_succ hlast.before hline).mp hdeep
        exact ⟨⟨c, hlast, hdeep⟩, hown⟩

/-- The class under which a line is read. -/
theorem stillOpen_openBefore_iff {l : Nat} {line : List Char} (h : lines[l]? = some line) {owner : OpenClass} :
    stillOpen (openBefore declares lines l) line = some owner ↔
      ∃ c, LastClass declares lines l c owner ∧ StandsIn declares lines l c owner := by
  have hl : l ≤ lines.length := Nat.le_of_lt (List.getElem?_eq_some_iff.mp h).1
  rw [stillOpen_eq_some_iff, openBefore_eq_some_iff hl]
  constructor
  · rintro ⟨⟨c, hlast, hdeep⟩, hown⟩
    exact ⟨c, hlast, hlast.before, hlast.declared, (deeper_succ hlast.before h).mpr ⟨hdeep, hown⟩⟩
  · rintro ⟨c, hlast, hin⟩
    obtain ⟨hdeep, hown⟩ := (deeper_succ hlast.before h).mp hin.deeper
    exact ⟨⟨c, hlast, hdeep⟩, hown⟩

/-! ## Symbols by line -/

theorem symbolsFrom_cons (file : String) (n : Nat) (openClass : Option OpenClass) (line : List Char)
    (rest : List (List Char)) :
    symbolsFrom declares file n openClass (line :: rest) =
      ((declares line).map (symbolOf file n (stillOpen openClass line))).toList ++
        symbolsFrom declares file (n + 1) (afterLine declares openClass line) rest := by
  rw [symbolsFrom, afterLine]
  cases declares line with
  | none => rfl
  | some d => rfl

theorem symbolsFrom_append (file : String) (n : Nat) (openClass : Option OpenClass) (front rest : List (List Char)) :
    symbolsFrom declares file n openClass (front ++ rest) =
      symbolsFrom declares file n openClass front ++
        symbolsFrom declares file (n + front.length) (front.foldl (afterLine declares) openClass) rest := by
  induction front generalizing n openClass with
  | nil => rfl
  | cons line front ih =>
    rw [List.cons_append, symbolsFrom_cons, symbolsFrom_cons, ih, List.append_assoc, List.length_cons,
      List.foldl_cons, Nat.add_right_comm, Nat.add_assoc]

theorem startLine_of_mem_symbolsFrom {file : String} {n : Nat} {openClass : Option OpenClass} {sym : Symbol}
    (h : sym ∈ symbolsFrom declares file n openClass lines) : n ≤ sym.startLine ∧ sym.startLine < n + lines.length := by
  induction lines generalizing n openClass with
  | nil => cases h
  | cons line rest ih =>
    rw [symbolsFrom_cons, List.mem_append] at h
    rw [List.length_cons]
    rcases h with h | h
    · obtain ⟨d, -, rfl⟩ := Option.map_eq_some_iff.mp (Option.mem_toList.mp h)
      have : (symbolOf file n (stillOpen openClass line) d).startLine = n := rfl
      omega
    · have := ih h
      omega

/-- A line that declares something has one symbol. -/
theorem filter_symbolsFrom (file : String) {l : Nat} {line : List Char} {d : Declaration} (h : lines[l]? = some line)
    (hd : declares line = some d) :
    (symbolsFrom declares file 1 none lines).filter (·.startLine = l + 1) =
      [symbolOf file (l + 1) (stillOpen (openBefore declares lines l) line) d] := by
  obtain ⟨hl, rfl⟩ := List.getElem?_eq_some_iff.mp h
  have hsplit : lines = lines.take l ++ lines[l] :: lines.drop (l + 1) := by
    rw [List.getElem_cons_drop, List.take_append_drop]
  have hlength : (lines.take l).length = l := List.length_take_of_le (Nat.le_of_lt hl)
  have hsymbols : symbolsFrom declares file 1 none lines = symbolsFrom declares file 1 none (lines.take l) ++
      symbolOf file (l + 1) (stillOpen (openBefore declares lines l) lines[l]) d ::
        symbolsFrom declares file (l + 2) (afterLine declares (openBefore declares lines l) lines[l])
          (lines.drop (l + 1)) := by
    have := congrArg (symbolsFrom declares file 1 none) hsplit
    rw [symbolsFrom_append, symbolsFrom_cons, hd, hlength, Nat.add_comm 1 l] at this
    exact this
  have hfront : (symbolsFrom declares file 1 none (lines.take l)).filter (·.startLine = l + 1) = [] := by
    refine List.filter_eq_nil_iff.mpr fun sym hsym => ?_
    have := startLine_of_mem_symbolsFrom hsym
    simp only [decide_eq_true_eq]
    omega
  have hback : (symbolsFrom declares file (l + 2) (afterLine declares (openBefore declares lines l) lines[l])
      (lines.drop (l + 1))).filter (·.startLine = l + 1) = [] := by
    refine List.filter_eq_nil_iff.mpr fun sym hsym => ?_
    have := startLine_of_mem_symbolsFrom hsym
    simp only [decide_eq_true_eq]
    omega
  rw [hsymbols, List.filter_append, hfront, List.filter_cons_of_pos (by simp [symbolOf]), hback]
  rfl

/-! ## Functions -/

theorem symbolOf_some {file : String} {n : Nat} {owner : OpenClass} {d : Declaration} (h : d.kind = "function") :
    (symbolOf file n (some owner) d).parent = some owner.name ∧ (symbolOf file n (some owner) d).kind = "method" := by
  simp [symbolOf, h]

theorem symbolOf_none {file : String} {n : Nat} {d : Declaration} (h : d.kind = "function") :
    (symbolOf file n none d).parent = none ∧ (symbolOf file n none d).kind = "function" := by
  simp [symbolOf, h]

/-- A function is read under the last class before it. -/
theorem byLastClass_symbolOf (file : String) {l : Nat} {line : List Char} {d : Declaration} (h : lines[l]? = some line)
    (hkind : d.kind = "function") :
    ByLastClass declares lines l (symbolOf file (l + 1) (stillOpen (openBefore declares lines l) line) d) where
  method c owner hlast hin := by
    rw [(stillOpen_openBefore_iff h).mpr ⟨c, hlast, hin⟩]
    exact symbolOf_some hkind
  function hnone := by
    cases hopen : stillOpen (openBefore declares lines l) line with
    | none => exact symbolOf_none hkind
    | some owner =>
      obtain ⟨c, hlast, hin⟩ := (stillOpen_openBefore_iff h).mp hopen
      exact absurd hin (hnone c owner hlast)

/-- A line that stands in some class has an innermost one. -/
theorem exists_innermost {l c : Nat} {owner : OpenClass} (h : StandsIn declares lines l c owner) :
    ∃ c owner, Innermost declares lines l c owner := by
  by_cases hlater : ∃ c' owner', StandsIn declares lines l c' owner' ∧ c < c'
  · obtain ⟨c', owner', h', hlt⟩ := hlater
    exact exists_innermost h'
  · refine ⟨c, owner, h, fun c' owner' h' => Nat.le_of_not_lt fun hlt => ?_⟩
    exact hlater ⟨c', owner', h', hlt⟩
termination_by l - c
decreasing_by
  have := h'.before
  omega

/-- Where no class is declared behind it, the innermost class is the last one. -/
theorem Innermost.lastClass {l c : Nat} {owner : OpenClass} (h : Innermost declares lines l c owner)
    (hhidden : ¬Hidden declares lines l) : LastClass declares lines l c owner :=
  ⟨h.before, h.declared, fun c' owner' hlt hdecl => Nat.le_of_not_lt fun hbehind =>
    hhidden ⟨c, owner, c', owner', h, hbehind, hlt, hdecl⟩⟩

theorem ByLastClass.byNesting_iff {l : Nat} {sym : Symbol} (h : ByLastClass declares lines l sym) :
    ByNesting declares lines l sym ↔ ¬Hidden declares lines l := by
  constructor
  · rintro hnesting ⟨c, owner, c', owner', hinner, hbehind, hlt, hdecl⟩
    -- the last class lies behind the innermost one, so the line stands in none of those that are read
    have hnone : ∀ c'' owner'', LastClass declares lines l c'' owner'' → ¬StandsIn declares lines l c'' owner'' := by
      intro c'' owner'' hlast hin
      have := hlast.last c' owner' hlt hdecl
      have := hinner.last c'' owner'' hin
      omega
    have hparent := (hnesting.method c owner hinner).1
    rw [(h.function hnone).1] at hparent
    cases hparent
  · intro hhidden
    refine ⟨fun c owner hinner => ?_, fun hnone => ?_⟩
    · exact h.method c owner (hinner.lastClass hhidden) hinner.toStandsIn
    · exact h.function fun c owner _ => hnone c owner

/-- Every function has one symbol, read under the last class before it, and this makes it a method of the innermost
class around it exactly if no class is declared behind that one. -/
theorem methods_by_nesting_iff (file content : String) (language : Option Language) (l : Nat) (line : List Char)
    (name : String) (hline : (Text.lineChars content.toList)[l]? = some line)
    (hdecl : declarationOf line = some ⟨name, "function"⟩) :
    ∃ sym, (read file content language).1.filter (·.startLine = l + 1) = [sym] ∧ sym.name = name ∧
      ByLastClass declarationOf (Text.lineChars content.toList) l sym ∧
      (ByNesting declarationOf (Text.lineChars content.toList) l sym ↔
        ¬Hidden declarationOf (Text.lineChars content.toList) l) := by
  have hlast := @byLastClass_symbolOf declarationOf _ file l line ⟨name, "function"⟩ hline rfl
  exact ⟨_, filter_symbolsFrom file hline hdecl, rfl, hlast, hlast.byNesting_iff⟩

/-- A method of a class inside a class. -/
theorem methods_by_nesting_iff_inner :
    let content := "class A:\n  class B:\n    def f(self): pass\n"
    let lines := Text.lineChars content.toList
    lines[2]? = some "    def f(self): pass".toList ∧
      declarationOf "    def f(self): pass".toList = some ⟨"f", "function"⟩ ∧
      ∃ sym, (read "a.py" content none).1.filter (·.startLine = 3) = [sym] ∧ sym.parent = some "B" ∧
        ByLastClass declarationOf lines 2 sym ∧
        (ByNesting declarationOf lines 2 sym ↔ ¬Hidden declarationOf lines 2) := by
  intro content lines
  have hline : lines[2]? = some "    def f(self): pass".toList := by decide
  have hdecl : declarationOf "    def f(self): pass".toList = some ⟨"f", "function"⟩ := by decide +kernel
  obtain ⟨sym, hsym, -, hlast, hiff⟩ := methods_by_nesting_iff "a.py" content none 2 _ "f" hline hdecl
  have hread : (read "a.py" content none).1.filter (·.startLine = 3) = [⟨"f", "method", "a.py", 3, 3, some "B"⟩] := by
    decide +kernel
  obtain rfl := List.singleton_inj.mp (hread.symm.trans hsym)
  exact ⟨hline, hdecl, _, hread, rfl, hlast, hiff⟩

/-- A class inside a class hides the outer one from the function that follows it there. -/
theorem inner_class_hides_outer :
    let content := "class A:\n  class B: pass\n  def f(self): pass\n"
    let lines := Text.lineChars content.toList
    let sym : Symbol := ⟨"f", "function", "a.py", 3, 3, none⟩
    (read "a.py" content none).1.filter (·.startLine = 3) = [sym] ∧
      Innermost declarationOf lines 2 0 ⟨"A", 0⟩ ∧ ¬ByNesting declarationOf lines 2 sym := by
  intro content lines sym
  have hlines : lines = ["class A:".toList, "  class B: pass".toList, "  def f(self): pass".toList] := by decide
  have hinner : Innermost declarationOf lines 2 0 ⟨"A", 0⟩ := by
    rw [hlines]
    refine ⟨⟨by decide, ⟨_, rfl, by decide +kernel, by decide⟩, ?_⟩, ?_⟩
    · intro i line hi hstop hline hblank
      obtain rfl | rfl : i = 1 ∨ i = 2 := by omega
      · cases hline
        decide
      · cases hline
        decide
    · intro c' owner' hin
      refine Nat.le_of_not_lt fun hlt => ?_
      obtain rfl : c' = 1 := by
        have := hin.before
        omega
      -- the line of the function is no deeper than the inner class
      obtain ⟨line, hline, -, hindent⟩ := hin.declared
      cases hline
      have hdeep := hin.deeper 2 _ (by decide) (by decide) rfl (by decide)
      rw [hindent] at hdeep
      revert hdeep
      decide
  refine ⟨by decide +kernel, hinner, fun hnesting => ?_⟩
  cases (hnesting.method 0 _ hinner).1

end CodeIndex.LineReading
