import Mathlib.Data.List.Nodup
import CodeIndex.Proofs.Extraction.Symbols
import CodeIndex.SymbolTable.Reading

/-!
# Symbols of trees and of lines

A line declares at most one symbol, so that no two declared symbols share name and line. Those that are added to the
symbols of the tree are therefore exactly the ones whose name and line no symbol of the tree has
(`addedFrom_eq_filter`), and all that is said of the merged symbols follows from this.
-/

namespace CodeIndex

/-! ## Declared symbols -/

namespace LineReading

/-- One line after the other declares at most one symbol each. -/
theorem ascending_symbolsFrom (declares : List Char → Option Declaration) (file : String) (n : Nat)
    (openClass : Option OpenClass) (lines : List (List Char)) :
    (symbolsFrom declares file n openClass lines).Pairwise (·.startLine < ·.startLine) ∧
      ∀ s ∈ symbolsFrom declares file n openClass lines, n ≤ s.startLine := by
  induction lines generalizing n openClass with
  | nil => exact ⟨.nil, List.forall_mem_nil _⟩
  | cons line rest ih =>
    rw [symbolsFrom]
    split
    · obtain ⟨hpairwise, hbound⟩ := ih (n + 1) (stillOpen openClass line)
      exact ⟨hpairwise, fun s hs => Nat.le_of_succ_le (hbound s hs)⟩
    · next d _ =>
      obtain ⟨hpairwise, hbound⟩ := ih (n + 1)
        (if d.kind = "class" then some ⟨d.name, indentOf line⟩ else stillOpen openClass line)
      refine ⟨.cons hbound hpairwise, List.forall_mem_cons.mpr ⟨Nat.le_refl n, fun s hs => ?_⟩⟩
      exact Nat.le_of_succ_le (hbound s hs)

theorem nodup_key_read (file content : String) (language : Option Language) :
    ((read file content language).1.map Symbol.key).Nodup := by
  refine List.pairwise_map.mpr ((ascending_symbolsFrom declarationOf file 1 none _).1.imp fun hlt heq => ?_)
  exact Nat.ne_of_lt hlt (congrArg Prod.snd heq)

end LineReading

/-! ## Rows -/

namespace SymbolRow

/-- What tells a row among those of its file. -/
def key (row : SymbolRow) : String × Nat := (row.name, row.line)

/-- A row tells how its symbol was recognised. -/
theorem recognition_ofSymbol {s t : Symbol} {how how' : Recognition} {language : String}
    {lines : Array (List Char)} (h : ofSymbol s how language lines = ofSymbol t how' language lines) : how = how' := by
  have hlast : ∀ (s : Symbol) (how : Recognition), (ofSymbol s how language lines).modifiers.getLast? = some how.text :=
    fun _ _ => List.getLast?_concat
  have htext : how.text = how'.text := by
    have := congrArg (fun row => row.modifiers.getLast?) h
    simpa [hlast] using this
  revert htext
  cases how <;> cases how' <;> decide

end SymbolRow

/-! ## Merging -/

/-- Whether lines are read as well: the tree has no symbols, or is faulty. -/
def Extraction.NeedsLines (e : Extraction) : Prop := e.symbols = [] ∨ e.syntaxError.isSome = true

theorem Extraction.needsLines_iff {e : Extraction} :
    (e.symbols.isEmpty || e.syntaxError.isSome) = true ↔ e.NeedsLines := by
  simp [NeedsLines]

namespace FileContents

/-- Of declared symbols that are told apart, those are added whose keys are free. -/
theorem addedFrom_eq_filter {taken : List (String × Nat)} {declared : List Symbol}
    (h : (declared.map Symbol.key).Nodup) :
    addedFrom taken declared = declared.filter fun s => !taken.contains s.key := by
  induction declared generalizing taken with
  | nil => rfl
  | cons s rest ih =>
    rw [List.map_cons, List.nodup_cons] at h
    rw [addedFrom, List.filter_cons]
    change (if taken.contains s.key then _ else _) = _
    by_cases htaken : taken.contains s.key = true
    · rw [if_pos htaken, if_neg (by simpa using htaken), ih h.2]
    · rw [if_neg htaken, if_pos (by simpa using htaken), ih h.2]
      -- no later symbol has the key that is taken now
      refine congrArg (s :: ·) (List.filter_congr fun t ht => ?_)
      have hne : t.key ≠ s.key := fun heq => h.1 (heq ▸ List.mem_map_of_mem ht)
      change (!(s.key :: taken).contains t.key) = _
      rw [List.contains_cons, beq_false_of_ne hne, Bool.false_or]

variable {e : Extraction} {declared : List Symbol}

theorem mem_map_recognised {symbols : List Symbol} {s : Symbol} {how how' : Recognition} :
    (s, how) ∈ symbols.map (·, how') ↔ how = how' ∧ s ∈ symbols := by
  constructor
  · intro h
    obtain ⟨t, ht, heq⟩ := List.mem_map.mp h
    obtain ⟨rfl, rfl⟩ := Prod.mk.inj heq
    exact ⟨rfl, ht⟩
  · rintro ⟨rfl, hs⟩
    exact List.mem_map.mpr ⟨s, hs, rfl⟩

/-- The declared symbols that are added to those of a tree. -/
theorem mem_added_iff (hdeclared : (declared.map Symbol.key).Nodup) {s : Symbol} :
    s ∈ (if e.symbols.isEmpty || e.syntaxError.isSome then addedFrom (e.symbols.map Symbol.key) declared else []) ↔
      e.NeedsLines ∧ s ∈ declared ∧ ∀ t ∈ e.symbols, t.key ≠ s.key := by
  by_cases hread : e.NeedsLines
  · rw [if_pos (Extraction.needsLines_iff.mpr hread), addedFrom_eq_filter hdeclared]
    simp [hread]
  · rw [if_neg (mt Extraction.needsLines_iff.mp hread)]
    simp [hread]

theorem mem_merged_iff (hdeclared : (declared.map Symbol.key).Nodup) {s : Symbol} {how : Recognition} :
    (s, how) ∈ merged e.symbols e.syntaxError declared ↔
      (how = .tree ∧ s ∈ e.symbols) ∨
        (how = .line ∧ e.NeedsLines ∧ s ∈ declared ∧ ∀ t ∈ e.symbols, t.key ≠ s.key) := by
  unfold merged
  rw [List.mem_mergeSort, List.mem_append, mem_map_recognised, mem_map_recognised]
  exact or_congr Iff.rfl (and_congr_right fun _ => mem_added_iff hdeclared)

/-- A row is that of a symbol of the tree, or where lines are read that of a symbol they declare in a free place. -/
theorem mem_rows_iff (hdeclared : (declared.map Symbol.key).Nodup) (row : Symbol → Recognition → SymbolRow)
    (x : SymbolRow) :
    x ∈ (merged e.symbols e.syntaxError declared).map (fun sh => row sh.1 sh.2) ↔
      (∃ s ∈ e.symbols, x = row s .tree) ∨
        ∃ s ∈ declared, (e.NeedsLines ∧ ∀ t ∈ e.symbols, t.key ≠ s.key) ∧ x = row s .line := by
  rw [List.mem_map]
  constructor
  · rintro ⟨⟨s, how⟩, hmem, rfl⟩
    rcases (mem_merged_iff hdeclared).mp hmem with ⟨rfl, hs⟩ | ⟨rfl, hread, hs, hfree⟩
    · exact .inl ⟨s, hs, rfl⟩
    · exact .inr ⟨s, hs, ⟨hread, hfree⟩, rfl⟩
  · rintro (⟨s, hs, rfl⟩ | ⟨s, hs, ⟨hread, hfree⟩, rfl⟩)
    · exact ⟨(s, .tree), (mem_merged_iff hdeclared).mpr (.inl ⟨rfl, hs⟩), rfl⟩
    · exact ⟨(s, .line), (mem_merged_iff hdeclared).mpr (.inr ⟨rfl, hread, hs, hfree⟩), rfl⟩

theorem nodup_key_merged (hsymbols : (e.symbols.map Symbol.key).Nodup) (hdeclared : (declared.map Symbol.key).Nodup) :
    ((merged e.symbols e.syntaxError declared).map (·.1.key)).Nodup := by
  unfold merged
  refine ((List.mergeSort_perm _ _).map _).nodup_iff.mpr ?_
  rw [List.map_append, List.map_map, List.map_map]
  refine List.nodup_append.mpr ⟨hsymbols, ?_, ?_⟩
  · split
    · rw [addedFrom_eq_filter hdeclared]
      exact hdeclared.sublist (List.filter_sublist.map _)
    · exact List.nodup_nil
  · rintro _ htree _ hline rfl
    obtain ⟨t, ht, htkey⟩ := List.mem_map.mp htree
    obtain ⟨s, hs, hskey⟩ := List.mem_map.mp hline
    exact ((mem_added_iff hdeclared).mp hs).2.2 t ht (htkey.trans hskey.symm)

theorem ascending_merged (structural : List Symbol) (syntaxError : Option Nat) (declared : List Symbol) :
    (merged structural syntaxError declared).Pairwise (·.1.startLine ≤ ·.1.startLine) := by
  unfold merged
  refine (List.pairwise_mergeSort ?_ ?_ _).imp fun hle => by simpa using hle
  · intro a b c hab hbc
    simp only [decide_eq_true_eq] at hab hbc ⊢
    omega
  · intro a b
    simp only [Bool.or_eq_true, decide_eq_true_eq]
    omega

/-- What the tree tells the symbol table about a file. -/
def structural (r : Registry) (g : Grammars) (path language text : String) : Extraction :=
  if r.supports language then extract r g path language text else {}

/-- Rows that lose no symbol and repeat none: those of the tree, and where lines are read those that lines declare in
free places. -/
structure Merges (e : Extraction) (declared : List Symbol × List Import) (row : Symbol → Recognition → SymbolRow)
    (contents : FileContents) : Prop where
  tree_once : ∀ s ∈ e.symbols, contents.symbols.count (row s .tree) = 1
  line_iff : ∀ s ∈ declared.1,
    row s .line ∈ contents.symbols ↔ e.NeedsLines ∧ ∀ t ∈ e.symbols, t.key ≠ s.key
  covered : ∀ x ∈ contents.symbols, (∃ s ∈ e.symbols, x = row s .tree) ∨ ∃ s ∈ declared.1, x = row s .line
  ascending : contents.symbols.Pairwise (·.line ≤ ·.line)
  distinct : (contents.symbols.map SymbolRow.key).Nodup
  own_imports : e.imports ≠ [] → contents.imports = e.imports.map (·.name)
  read_imports : e.imports = [] → e.NeedsLines → contents.imports = declared.2.map (·.name)
  no_imports : e.imports = [] → ¬e.NeedsLines → contents.imports = []

theorem toldApart_structural (r : Registry) (g : Grammars) (path language text : String) :
    ToldApart (structural r g path language text).symbols := by
  unfold structural
  split
  · exact toldApart_extract r g path language text
  · exact ⟨List.nodup_nil, List.forall_mem_nil _⟩

/-- For every text, language and parser, the rows of a file are those of its tree merged with those of its lines. -/
theorem read_merges (r : Registry) (g : Grammars) (path language text : String) :
    Merges (structural r g path language text) (LineReading.read path text (r.lookup? language))
      (fun s how => .ofSymbol s how language (Text.lineChars text.toList).toArray)
      (read r g path language text) := by
  have hdeclared := LineReading.nodup_key_read path text (r.lookup? language)
  have hsymbols := (toldApart_structural r g path language text).nodup
  have hrows : (read r g path language text).symbols =
      (merged (structural r g path language text).symbols (structural r g path language text).syntaxError
        (LineReading.read path text (r.lookup? language)).1).map fun sh =>
          .ofSymbol sh.1 sh.2 language (Text.lineChars text.toList).toArray := rfl
  have himports : (read r g path language text).imports =
      (mergedImports (structural r g path language text)
        (LineReading.read path text (r.lookup? language)).2).map (·.name) := rfl
  generalize structural r g path language text = e at *
  generalize LineReading.read path text (r.lookup? language) = declared at *
  have hdistinct : ((read r g path language text).symbols.map SymbolRow.key).Nodup := by
    rw [hrows, List.map_map]
    exact nodup_key_merged hsymbols hdeclared
  have hmem := mem_rows_iff (e := e) hdeclared fun s how =>
    .ofSymbol s how language (Text.lineChars text.toList).toArray
  rw [← hrows] at hmem
  refine ⟨fun s hs => ?_, fun s hs => ⟨fun hrow => ?_, fun hfree => (hmem _).mpr (.inr ⟨s, hs, hfree, rfl⟩)⟩,
    fun x hx => ?_, ?_, hdistinct, fun hne => ?_, fun hnil hread => ?_, fun hnil hread => ?_⟩
  · exact List.count_eq_one_of_mem (List.Nodup.of_map _ hdistinct) ((hmem _).mpr (.inl ⟨s, hs, rfl⟩))
  · rcases (hmem _).mp hrow with ⟨t, -, heq⟩ | ⟨t, -, hfree, heq⟩
    · cases SymbolRow.recognition_ofSymbol heq
    · have hkey : s.key = t.key := congrArg SymbolRow.key heq
      exact hkey ▸ hfree
  · rcases (hmem _).mp hx with htree | ⟨s, hs, -, heq⟩
    · exact .inl htree
    · exact .inr ⟨s, hs, heq⟩
  · rw [hrows]
    exact List.pairwise_map.mpr (ascending_merged _ _ _)
  · rw [himports, mergedImports, if_neg (by simp [hne])]
  · rw [himports, mergedImports, if_pos (by simp [hnil, Extraction.needsLines_iff.mpr hread])]
  · rw [himports, mergedImports, if_neg (by simp [mt Extraction.needsLines_iff.mp hread]), hnil]
    rfl

end FileContents

end CodeIndex
