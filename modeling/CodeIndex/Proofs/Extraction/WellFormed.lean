import CodeIndex.Proofs.Extraction.Callers
import CodeIndex.Proofs.Extraction.Symbols
import CodeIndex.Proofs.Source.Lines

/-!
# Well-formed extractions

The symbols of a tree are strictly ascending by line and name. Each is made from the first match with its name and
line, in the order of the rules and of the matches of a rule, and no match goes without a symbol of its name and line.
A definition around a name that is not empty starts within the text, so that its line is one of the source. How matches
are found does not count, as long as they capture nodes of the tree and definitions are around names
(`Parsed.CapturesTree`).
-/

namespace CodeIndex

/-! ## Firsts -/

/-- What is kept is the first of its key. -/
theorem mem_firstsFrom_iff [BEq κ] [LawfulBEq κ] {key : α → κ} {seen : List κ} {xs : List α} {a : α} :
    a ∈ firstsFrom key seen xs ↔
      ∃ front back, xs = front ++ a :: back ∧ key a ∉ seen ∧ ∀ x ∈ front, key x ≠ key a := by
  induction xs generalizing seen with
  | nil => simp [firstsFrom]
  | cons x rest ih =>
    rw [firstsFrom]
    split
    · next hseen =>
      have hx : key x ∈ seen := by simpa using hseen
      rw [ih]
      constructor
      · rintro ⟨front, back, rfl, hfresh, hfirst⟩
        refine ⟨x :: front, back, rfl, hfresh, List.forall_mem_cons.mpr ⟨fun heq => ?_, hfirst⟩⟩
        exact hfresh (heq ▸ hx)
      · rintro ⟨front, back, hsplit, hfresh, hfirst⟩
        cases front with
        | nil => exact absurd ((List.cons.inj hsplit).1 ▸ hx) hfresh
        | cons y front =>
          exact ⟨front, back, (List.cons.inj hsplit).2, hfresh, fun z hz => hfirst z (List.mem_cons_of_mem y hz)⟩
    · next hseen =>
      have hx : key x ∉ seen := by simpa using hseen
      rw [List.mem_cons, ih]
      constructor
      · rintro (rfl | ⟨front, back, rfl, hfresh, hfirst⟩)
        · exact ⟨[], rest, rfl, hx, List.forall_mem_nil _⟩
        · refine ⟨x :: front, back, rfl, fun hmem => hfresh (List.mem_cons_of_mem _ hmem),
            List.forall_mem_cons.mpr ⟨fun heq => ?_, hfirst⟩⟩
          exact hfresh (heq ▸ List.mem_cons_self)
      · rintro ⟨front, back, hsplit, hfresh, hfirst⟩
        cases front with
        | nil => exact .inl (List.cons.inj hsplit).1.symm
        | cons y front =>
          obtain ⟨rfl, hrest⟩ := List.cons.inj hsplit
          refine .inr ⟨front, back, hrest, fun hmem => ?_, fun z hz => hfirst z (List.mem_cons_of_mem x hz)⟩
          rcases List.mem_cons.mp hmem with heq | hmem
          · exact hfirst x List.mem_cons_self heq.symm
          · exact hfresh hmem

/-- No key is lost. -/
theorem exists_mem_firstsFrom [BEq κ] [LawfulBEq κ] {key : α → κ} {seen : List κ} {xs : List α} {x : α}
    (hx : x ∈ xs) (hfresh : key x ∉ seen) : ∃ a ∈ firstsFrom key seen xs, key a = key x := by
  induction xs generalizing seen with
  | nil => cases hx
  | cons y rest ih =>
    rw [firstsFrom]
    split
    · next hseen =>
      rcases List.mem_cons.mp hx with rfl | hx
      · exact absurd (by simpa using hseen) hfresh
      · exact ih hx hfresh
    · by_cases heq : key x = key y
      · exact ⟨y, List.mem_cons_self, heq.symm⟩
      · have hrest : x ∈ rest := (List.mem_cons.mp hx).resolve_left fun h => heq (congrArg key h)
        obtain ⟨a, ha, hkey⟩ := ih hrest fun hmem => (List.mem_cons.mp hmem).elim heq hfresh
        exact ⟨a, List.mem_cons_of_mem y ha, hkey⟩

/-- An element of a concatenation stands in one part, behind the earlier parts and some of its own. -/
theorem exists_of_flatMap_eq_append {f : α → List β} {xs : List α} {front back : List β} {b : β}
    (h : xs.flatMap f = front ++ b :: back) :
    ∃ before x after earlier later, xs = before ++ x :: after ∧ f x = earlier ++ b :: later ∧
      front = before.flatMap f ++ earlier := by
  induction xs generalizing front with
  | nil => simp at h
  | cons x rest ih =>
    rw [List.flatMap_cons] at h
    rcases List.append_eq_append_iff.mp h with ⟨middle, rfl, hrest⟩ | ⟨own, hown, hrest⟩
    · obtain ⟨before, y, after, earlier, later, rfl, hy, rfl⟩ := ih hrest
      exact ⟨x :: before, y, after, earlier, later, rfl, hy, by simp⟩
    · cases own with
      | nil =>
        obtain ⟨before, y, after, earlier, later, rfl, hy, hnil⟩ :=
          ih (show rest.flatMap f = [] ++ b :: back from hrest.symm)
        exact ⟨x :: before, y, after, earlier, later, rfl, hy, by simpa [← hnil] using hown.symm⟩
      | cons c own =>
        obtain ⟨rfl, -⟩ := List.cons.inj hrest
        exact ⟨[], x, rest, front, own, rfl, hown, rfl⟩

/-! ## The order of symbols and references -/

/-- By line, and on one line by name. -/
def Symbol.Precedes (a b : Symbol) : Prop :=
  a.startLine < b.startLine ∨ (a.startLine = b.startLine ∧ a.name < b.name)

/-- By line, and on one line by column. -/
def Reference.Precedes (a b : Reference) : Prop :=
  a.line < b.line ∨ (a.line = b.line ∧ a.column < b.column)

theorem Symbol.le_iff (a b : Symbol) :
    a.le b = true ↔ a.startLine < b.startLine ∨ (a.startLine = b.startLine ∧ a.name ≤ b.name) := by
  simp [le]

theorem Symbol.precedes_of_le {a b : Symbol} (hle : a.le b = true) (hne : a.key ≠ b.key) : a.Precedes b := by
  rcases (le_iff a b).mp hle with hlt | ⟨heq, hname⟩
  · exact .inl hlt
  · refine .inr ⟨heq, Classical.byContradiction fun hnot => hne ?_⟩
    exact Prod.ext (String.le_antisymm hname (String.not_lt.mp hnot)) heq

theorem pairwise_mergeSort_symbol (symbols : List Symbol) :
    (symbols.mergeSort Symbol.le).Pairwise fun a b => a.le b = true := by
  refine List.pairwise_mergeSort (fun a b c => ?_) (fun a b => ?_) symbols
  · simp only [Symbol.le_iff]
    rintro (hab | ⟨hab, hname⟩) (hbc | ⟨hbc, hname'⟩)
    · exact .inl (Nat.lt_trans hab hbc)
    · exact .inl (hbc ▸ hab)
    · exact .inl (hab ▸ hbc)
    · exact .inr ⟨hab.trans hbc, String.le_trans hname hname'⟩
  · simp only [Bool.or_eq_true, Symbol.le_iff]
    rcases Nat.lt_trichotomy a.startLine b.startLine with hlt | heq | hlt
    · exact .inl (.inl hlt)
    · exact (String.le_total a.name b.name).imp (fun h => .inr ⟨heq, h⟩) fun h => .inr ⟨heq.symm, h⟩
    · exact .inr (.inl hlt)

/-! ## Lines of nodes -/

namespace Tree

/-- A node with a text lies within the source. -/
theorem Node.start_lt_size {s : Source} {n : Node} (h : n.text s ≠ "") : n.start < s.size := by
  unfold text at h
  cases htext : s.slice? n.start n.stop with
  | none =>
    rw [htext] at h
    exact absurd rfl h
  | some text =>
    rw [htext, Option.getD_some] at h
    have hsize := Source.utf8ByteSize_of_slice? htext
    obtain ⟨-, -, hstop⟩ := Source.toByteArray_of_slice? htext
    have hne : text.utf8ByteSize ≠ 0 := fun hzero => h (String.utf8ByteSize_eq_zero_iff.mp hzero)
    omega

theorem Node.startLine_le_lineCount {s : Source} (hs : s.Intact) {n : Node} (h : n.start < s.size) :
    n.startLine s ≤ s.lineCount := by
  have hpos : 0 < s.size := Nat.zero_lt_of_lt h
  have hcount := hs.lineCount_pos hpos
  have hle : s.starts.toList.countP (· ≤ n.start) ≤ s.starts.toList.length := List.countP_le_length
  have hline := hs.lineAt_eq_row h
  rw [Source.lineCount_eq hpos] at hcount ⊢
  rw [Array.length_toList] at hle
  unfold Source.lineAt at hline
  unfold startLine
  omega

end Tree

/-- In every symbol query that compiles, the definition is around the name. -/
def Rules.NamesWithin (r : Rules) : Prop :=
  ∀ rule ∈ r.symbols, rule.query.compiles = true → ∀ pattern ∈ rule.query.patterns, pattern.NamesWithin

instance (r : Rules) : Decidable r.NamesWithin :=
  inferInstanceAs (Decidable (∀ rule ∈ r.symbols, rule.query.compiles = true →
    ∀ pattern ∈ rule.query.patterns, pattern.NamesWithin))

/-- So it is in all built-in languages. -/
theorem Catalog.namesWithin : ∀ l ∈ Catalog.languages, l.rules.NamesWithin := by
  decide

namespace Parsed

open CodeIndex.Tree

variable {p : Parsed} {s : Symbol} {m : Match} {kind : String}

/-! ## What a match tells about a symbol -/

/-- The name of a class scope, from the field that the language has for it. -/
def classScopeName (p : Parsed) (n : Node) : Option String :=
  p.scopeName n ((p.language.rules.scopes.lookup n.kind).getD "name")

/-- The name of the nearest class scope with a name. -/
inductive NearestClass (p : Parsed) (ancestors : List Node) : Option String → Prop where
  | nothing : (∀ n ∈ ancestors, p.isClassScope n = true → p.classScopeName n = none) →
      NearestClass p ancestors none
  | found {inner outer : List Node} {n : Node} {name : String} : ancestors = inner ++ n :: outer →
      p.isClassScope n = true → p.classScopeName n = some name → name ≠ "" →
      (∀ x ∈ inner, p.isClassScope x = true → p.classScopeName x = none) → NearestClass p ancestors (some name)

/-- The captured name, and the captured definition or else the name. -/
structure Captured (m : Match) (named definition : Located) : Prop where
  name_eq : m.get? .name = some named
  definition_eq : (m.get? .definition).getD named = definition

/-- The symbol of a definition and its name. -/
structure Describes (p : Parsed) (kind : String) (named definition : Located) (s : Symbol) : Prop where
  name_eq : s.name = named.node.text p.source
  name_ne : s.name ≠ ""
  file_eq : s.file = p.file
  startLine_eq : s.startLine = definition.node.startLine p.source
  endLine_eq : s.endLine = max (definition.node.stopLine p.source) s.startLine
  parent_nearest : p.NearestClass definition.ancestors s.parent
  kind_eq : s.kind = if kind = "function" ∧ s.parent.isSome = true then "method" else kind

theorem scopeName_ne {n : Node} {field name : String} (h : p.scopeName n field = some name) : name ≠ "" := by
  unfold scopeName at h
  obtain ⟨c, -, h⟩ := Option.bind_eq_some_iff.mp h
  dsimp only at h
  split at h
  · cases h
  · next hne =>
    rw [← Option.some.inj h]
    exact fun heq => hne (by simpa using heq)

theorem nearestClass_enclosingClass (l : Located) : p.NearestClass l.ancestors (p.enclosingClass l) := by
  cases hclass : p.enclosingClass l with
  | none =>
    refine .nothing fun n hn hscope => ?_
    have := List.findSome?_eq_none_iff.mp hclass n hn
    rwa [if_pos hscope] at this
  | some name =>
    obtain ⟨inner, n, outer, hsplit, hn, hinner⟩ := List.findSome?_eq_some_iff.mp hclass
    split at hn
    · next hscope =>
      refine .found hsplit hscope hn (scopeName_ne hn) fun x hx hxscope => ?_
      have := hinner x hx
      rwa [if_pos hxscope] at this
    · cases hn

theorem describes_symbolOf (h : p.symbolOf kind m = some s) :
    ∃ named definition, Captured m named definition ∧ p.Describes kind named definition s := by
  unfold symbolOf at h
  obtain ⟨named, hnamed, h⟩ := Option.bind_eq_some_iff.mp h
  dsimp only at h
  split at h
  · cases h
  · next hne =>
    cases h
    exact ⟨named, _, ⟨hnamed, rfl⟩, rfl, hne, rfl, rfl, rfl, nearestClass_enclosingClass _, by simp⟩

/-- What the symbol queries capture are nodes of the tree, and definitions are around names. -/
structure CapturesTree (p : Parsed) : Prop where
  inside : ∀ rule ∈ p.language.rules.symbols, ∀ m ∈ p.found (some rule.query), ∀ capture l,
    m.get? capture = some l → Below ⟨p.root, []⟩ l
  around : ∀ rule ∈ p.language.rules.symbols, ∀ m ∈ p.found (some rule.query), ∀ d n,
    m.get? .definition = some d → m.get? .name = some n →
      d.node.start ≤ n.node.start ∧ n.node.stop ≤ d.node.stop

/-- Patterns capture nodes of the tree, and so do queries of patterns whose definitions are around names. -/
theorem capturesTree_run (hrun : p.run = Query.run) (hnested : Nested p.root) (hrules : p.language.rules.NamesWithin) :
    p.CapturesTree := by
  have hinside : ∀ rule ∈ p.language.rules.symbols, ∀ m ∈ p.found (some rule.query), ∀ capture l,
      m.get? capture = some l → Below ⟨p.root, []⟩ l := by
    intro rule _ m hm capture l hl
    rw [found, hrun] at hm
    obtain ⟨pattern, -, around, haround, hmatch⟩ := Query.exists_matchAt hm
    exact haround.trans (below_of_mem_matchAt hmatch hl)
  refine ⟨hinside, fun rule hrule m hm d n hd hn => ?_⟩
  have hcompiles := ((mem_found_iff hrun).mp hm).1
  have htree := hinside rule hrule m hm _ d hd
  rw [found, hrun] at hm
  obtain ⟨pattern, hpattern, _, -, hmatch⟩ := Query.exists_matchAt hm
  exact hnested.within htree ((hrules rule hrule hcompiles pattern hpattern).below hmatch hd hn)

/-- The definition of a match is in the tree and starts no later than the name. -/
theorem CapturesTree.below_of_captured (h : p.CapturesTree) {rule : SymbolRule}
    (hrule : rule ∈ p.language.rules.symbols) (hm : m ∈ p.found (some rule.query)) {named definition : Located}
    (hc : Captured m named definition) :
    Below ⟨p.root, []⟩ definition ∧ definition.node.start ≤ named.node.start := by
  obtain ⟨hname, hdefinition⟩ := hc
  cases hd : m.get? .definition with
  | none =>
    rw [hd, Option.getD_none] at hdefinition
    exact hdefinition ▸ ⟨h.inside rule hrule m hm _ named hname, Nat.le_refl _⟩
  | some d =>
    rw [hd, Option.getD_some] at hdefinition
    obtain rfl := hdefinition
    exact ⟨h.inside rule hrule m hm _ d hd, (h.around rule hrule m hm d named hd hname).1⟩

/-! ## Which match a symbol is made from -/

/-- All symbols that a rule finds, in the order of its matches. -/
def symbolsOf (p : Parsed) (rule : SymbolRule) : List Symbol :=
  (p.found (some rule.query)).filterMap (p.symbolOf rule.kind)

theorem mem_symbols_iff :
    s ∈ p.symbols ↔ ∃ front back, p.language.rules.symbols.flatMap p.symbolsOf = front ++ s :: back ∧
      ∀ t ∈ front, t.key ≠ s.key := by
  have hsymbols : p.symbols =
      (firstsFrom Symbol.key [] (p.language.rules.symbols.flatMap p.symbolsOf)).mergeSort Symbol.le := rfl
  rw [hsymbols, List.mem_mergeSort, mem_firstsFrom_iff]
  simp only [List.not_mem_nil, not_false_eq_true, true_and]

/-- The first match with the name and line of its symbol: no earlier rule has one, and no earlier match of its rule. -/
structure FirstMatch (p : Parsed) (rule : SymbolRule) (m : Match) (s : Symbol) : Prop where
  symbolOf_eq : p.symbolOf rule.kind m = some s
  earlier_rules : ∃ before after, p.language.rules.symbols = before ++ rule :: after ∧
    ∀ other ∈ before, ∀ t ∈ p.symbolsOf other, t.key ≠ s.key
  earlier_matches : ∃ earlier later, p.found (some rule.query) = earlier ++ m :: later ∧
    ∀ other ∈ earlier, ∀ t ∈ p.symbolOf rule.kind other, t.key ≠ s.key

theorem exists_firstMatch (hs : s ∈ p.symbols) : ∃ rule m, p.FirstMatch rule m s := by
  obtain ⟨front, back, hhits, hfirst⟩ := mem_symbols_iff.mp hs
  obtain ⟨before, rule, after, own, others, hrules, hown, rfl⟩ := exists_of_flatMap_eq_append hhits
  obtain ⟨ms, rest, hfound, hms, hrest⟩ := List.filterMap_eq_append_iff.mp hown
  obtain ⟨skipped, m, later, rfl, hskipped, hm, -⟩ := List.filterMap_eq_cons_iff.mp hrest
  refine ⟨rule, m, hm, ⟨before, after, hrules, fun other hother t ht => ?_⟩, ⟨ms ++ skipped, later, ?_, ?_⟩⟩
  · exact hfirst t (List.mem_append_left own (List.mem_flatMap.mpr ⟨other, hother, ht⟩))
  · rw [hfound, List.append_assoc]
  · intro other hother t ht
    rcases List.mem_append.mp hother with hother | hother
    · exact hfirst t (List.mem_append_right _ (hms ▸ List.mem_filterMap.mpr ⟨other, hother, ht⟩))
    · rw [hskipped other hother] at ht
      cases ht

theorem FirstMatch.mem_found {rule : SymbolRule} (h : p.FirstMatch rule m s) : m ∈ p.found (some rule.query) := by
  obtain ⟨earlier, later, hfound, -⟩ := h.earlier_matches
  rw [hfound]
  exact List.mem_append_right earlier List.mem_cons_self

theorem FirstMatch.mem_rules {rule : SymbolRule} (h : p.FirstMatch rule m s) : rule ∈ p.language.rules.symbols := by
  obtain ⟨before, after, hrules, -⟩ := h.earlier_rules
  rw [hrules]
  exact List.mem_append_right before List.mem_cons_self

/-- Every match has a symbol of its name and line. -/
theorem exists_symbol_of_match {rule : SymbolRule} (hrule : rule ∈ p.language.rules.symbols) {t : Symbol}
    (ht : t ∈ p.symbolsOf rule) : ∃ s ∈ p.symbols, s.key = t.key := by
  have hhit : t ∈ p.language.rules.symbols.flatMap p.symbolsOf := List.mem_flatMap.mpr ⟨rule, hrule, ht⟩
  have hkept : ∃ s ∈ firstsFrom Symbol.key [] (p.language.rules.symbols.flatMap p.symbolsOf), s.key = t.key :=
    exists_mem_firstsFrom hhit List.not_mem_nil
  obtain ⟨s, hs, hkey⟩ := hkept
  exact ⟨s, List.mem_mergeSort.mpr hs, hkey⟩

/-! ## The whole extraction -/

theorem precedes_symbols (p : Parsed) : p.symbols.Pairwise Symbol.Precedes :=
  (pairwise_mergeSort_symbol _).imp₂ (fun _ _ hle hne => Symbol.precedes_of_le hle hne)
    (List.pairwise_map.mp p.toldApart.nodup)

theorem precedes_references (p : Parsed) : p.references.Pairwise Reference.Precedes := by
  unfold references
  dsimp only
  generalize (p.found (p.language.rules.relation .references)).flatMap _ = hits
  have hnodup := (nodup_firstsFrom (fun r : Reference => (r.line, r.column)) [] hits).1
  have hkept := (List.pairwise_map.mp hnodup).filter (fun r : Reference => r.name != "")
  refine (List.pairwise_mergeSort (fun a b c => ?_) (fun a b => ?_) _).imp₂ (fun a b hle hne => ?_)
    ((List.mergeSort_perm _ _).symm.pairwise hkept fun hne => hne.symm)
  · simp only [Bool.or_eq_true, Bool.and_eq_true, decide_eq_true_eq]
    omega
  · simp only [Bool.or_eq_true, Bool.and_eq_true, decide_eq_true_eq]
    omega
  · simp only [Bool.or_eq_true, Bool.and_eq_true, decide_eq_true_eq] at hle
    simp only [ne_eq, Prod.mk.injEq] at hne
    unfold Reference.Precedes
    omega

/-- A well-formed extraction of symbols and references from a tree. -/
structure WellFormed (p : Parsed) (symbols : List Symbol) (references : List Reference) : Prop where
  ascending : symbols.Pairwise Symbol.Precedes
  distinct : (symbols.map Symbol.key).Nodup
  lines : ∀ s ∈ symbols, s.name ≠ "" ∧ 1 ≤ s.startLine ∧ s.startLine ≤ s.endLine ∧ s.startLine ≤ p.source.lineCount
  origin : ∀ s ∈ symbols, ∃ rule m named definition, p.FirstMatch rule m s ∧ Captured m named definition ∧
    Below ⟨p.root, []⟩ definition ∧ p.Describes rule.kind named definition s
  complete : ∀ rule ∈ p.language.rules.symbols, ∀ t ∈ p.symbolsOf rule, ∃ s ∈ symbols, s.key = t.key
  references_ascending : references.Pairwise Reference.Precedes

theorem CapturesTree.origin_of_mem_symbols (h : p.CapturesTree) (hs : s ∈ p.symbols) :
    ∃ rule m named definition, p.FirstMatch rule m s ∧ Captured m named definition ∧
      Below ⟨p.root, []⟩ definition ∧ p.Describes rule.kind named definition s := by
  obtain ⟨rule, m, hfirst⟩ := exists_firstMatch hs
  obtain ⟨named, definition, hcaptured, hdescribes⟩ := describes_symbolOf hfirst.symbolOf_eq
  exact ⟨rule, m, named, definition, hfirst, hcaptured,
    (h.below_of_captured hfirst.mem_rules hfirst.mem_found hcaptured).1, hdescribes⟩

theorem CapturesTree.startLine_le_lineCount (h : p.CapturesTree) (hsource : p.source.Intact) (hs : s ∈ p.symbols) :
    s.startLine ≤ p.source.lineCount := by
  obtain ⟨rule, m, named, definition, hfirst, hcaptured, -, hdescribes⟩ := h.origin_of_mem_symbols hs
  obtain ⟨-, hstart⟩ := h.below_of_captured hfirst.mem_rules hfirst.mem_found hcaptured
  have hnamed : named.node.start < p.source.size :=
    Node.start_lt_size (hdescribes.name_eq ▸ hdescribes.name_ne)
  rw [hdescribes.startLine_eq]
  exact Node.startLine_le_lineCount hsource (Nat.lt_of_le_of_lt hstart hnamed)

/-- For every source, every tree, all rules and whatever finds the matches of their queries, as long as captures are
nodes of the tree and definitions are around their names, the extraction is well formed. -/
theorem extraction_wellFormed (p : Parsed) (hsource : p.source.Intact) (hcaptures : p.CapturesTree) :
    p.WellFormed p.symbols p.references where
  ascending := p.precedes_symbols
  distinct := p.toldApart.nodup
  lines s hs := by
    obtain ⟨_, _, _, _, -, -, -, hdescribes⟩ := hcaptures.origin_of_mem_symbols hs
    have hspans := p.toldApart.spans s hs
    exact ⟨hdescribes.name_ne, hspans.one_le, hspans.start_le_end, hcaptures.startLine_le_lineCount hsource hs⟩
  origin s hs := hcaptures.origin_of_mem_symbols hs
  complete rule hrule t ht := exists_symbol_of_match hrule ht
  references_ascending := p.precedes_references

/-- The method of a class, whose definition starts on a line of its source. -/
theorem extraction_wellFormed_inMethod :
    inMethod.source.Intact ∧ inMethod.CapturesTree ∧
      methodSymbol ∈ inMethod.symbols ∧ methodSymbol.startLine ≤ inMethod.source.lineCount := by
  have hnested : Nested inMethod.root := by decide
  have hrules : inMethod.language.rules.NamesWithin := Catalog.namesWithin Catalog.python List.mem_cons_self
  have hcaptures := capturesTree_run rfl hnested hrules
  have hwell := extraction_wellFormed inMethod rfl hcaptures
  exact ⟨rfl, hcaptures, extracted_inMethod.mem, (hwell.lines _ extracted_inMethod.mem).2.2.2⟩

end Parsed

end CodeIndex
