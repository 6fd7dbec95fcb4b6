import CodeIndex.Proofs.Dict
import CodeIndex.Proofs.SymbolTable.Entry

/-!
# What the rows of a table promise

However passes and clearing follow each other, a table has one row a file, symbols and imports of such files
only, and counts that are right (`Consistent`). All this is said path by path, by `FileEntry.Coherent`, which
every write keeps. The patterns are those of the symbols (`Depicts`), although a pass does not look for them
again if it neither stored nor dropped a file: then the symbols are the ones it found.
-/

namespace CodeIndex

/-! ## The rows of one path -/

theorem FileContents.language_of_mem_read {r : Registry} {g : Grammars} {path language text : String}
    {row : SymbolRow} (h : row ∈ (read r g path language text).symbols) : row.language = language := by
  obtain ⟨sh, -, rfl⟩ := List.mem_map.mp h
  rfl

namespace FileEntry

variable {e : FileEntry}

/-- There are no rows, or one row of the file, which counts the others and has their language. -/
def Coherent (e : FileEntry) : Prop :=
  e = {} ∨ ∃ f, e.files = [f] ∧ f.symbolCount = e.symbols.length ∧ f.importCount = e.imports.length ∧
    ∀ s ∈ e.symbols, s.language = f.language

theorem coherent_ofText (rd : Reader) (c : Candidate) (text : String) : (ofText rd c text).Coherent := by
  refine .inr ⟨_, rfl, rfl, ?_, fun s hs => FileContents.language_of_mem_read hs⟩
  exact (List.length_map _).symm

theorem Coherent.dated (h : e.Coherent) (mtime : Double) : (e.dated mtime).Coherent := by
  rcases h with rfl | ⟨f, hfiles, hcounts⟩
  · exact .inl rfl
  · exact .inr ⟨{ f with mtime }, by rw [FileEntry.dated, hfiles]; rfl, hcounts⟩

theorem Coherent.eq_empty (h : e.Coherent) (hfiles : e.files = []) : e = {} := by
  rcases h with h | ⟨f, hf, -⟩
  · exact h
  · rw [hfiles] at hf
    cases hf

end FileEntry

namespace SymbolTable

variable {rd : Reader} {policy : IgnorePolicy} {root : String} {force : Bool} {t before : SymbolTable}
  {files : List Candidate}

/-! ## The whole table -/

/-- The rows of every path go together. -/
def Coherent (t : SymbolTable) : Prop := ∀ path, (t.entry path).Coherent

theorem coherent_empty : empty.Coherent := fun path => .inl (entry_empty path)

theorem coherent_clear (t : SymbolTable) : t.clear.Coherent := fun _ => .inl rfl

theorem Coherent.drop (h : t.Coherent) (path : String) : (t.drop path).Coherent := by
  intro p
  rw [entry_drop]
  split
  · exact .inl rfl
  · exact h p

theorem Coherent.updated {known : Option FileRow} {c : Candidate} {result : SymbolTable × Outcome}
    (h : t.Coherent) (hupdated : Updated rd force known c t result) : result.1.Coherent := by
  intro p
  cases hupdated with
  | unmoved => exact h p
  | dated =>
    rw [entry_touch]
    split
    · exact (h p).dated c.mtime
    · exact h p
  | failed => exact h p
  | stored =>
    rw [entry_store]
    split
    · exact FileEntry.coherent_ofText rd c _
    · exact h p

theorem Coherent.write {s : SymbolTable × PassReport} (h : s.1.Coherent) (w : Write) :
    (write rd force before s w).1.Coherent := by
  cases w with
  | drop path => exact h.drop path
  | file c => exact h.updated (indexFile_updated rd force (before.file? c.path) c s.1)

theorem Coherent.index (h : t.Coherent) (rd : Reader) (force : Bool) (files : List Candidate) :
    (index rd force files t).1.Coherent := by
  have hwrites : ((t.writes files).foldl (SymbolTable.write rd force t) (t, { total := files.length })).1.Coherent :=
    List.foldlRecOn (motive := fun s : SymbolTable × PassReport => s.1.Coherent) (t.writes files) _ h
      fun s hs w _ => hs.write w
  intro path
  rw [SymbolTable.index, entry_finish]
  exact hwrites path

/-- One row a file, rows of symbols and imports below such rows, and right counts. -/
structure Consistent (t : SymbolTable) : Prop where
  paths : (t.files.map (·.path)).Nodup
  symbols : ∀ s ∈ t.symbols, ∃ f ∈ t.files, f.path = s.2.file ∧ f.language = s.2.language
  imports : ∀ i ∈ t.imports, ∃ f ∈ t.files, f.path = i.2.file
  symbolCounts : ∀ f ∈ t.files, f.symbolCount = t.symbols.countP (·.2.file = f.path)
  importCounts : ∀ f ∈ t.files, f.importCount = t.imports.countP (·.2.file = f.path)

theorem length_filter_rows {α : Type} (rows : List (Nat × α)) (p : α → Bool) :
    ((rows.map (·.2)).filter p).length = rows.countP (p ·.2) := by
  rw [← List.countP_eq_length_filter, List.countP_map]
  rfl

section Coherent

variable (h : t.Coherent)
include h

/-- The row of a file counts the rows of its path. -/
theorem Coherent.counts {f : FileRow} (hf : f ∈ t.files) :
    f.symbolCount = (t.entry f.path).symbols.length ∧ f.importCount = (t.entry f.path).imports.length := by
  have hmem : f ∈ (t.entry f.path).files := List.mem_filter.mpr ⟨hf, by simp⟩
  rcases h f.path with hnone | ⟨g, hg, hsymbols, himports, -⟩
  · rw [hnone] at hmem
    cases hmem
  · rw [hg, List.mem_singleton] at hmem
    rw [hmem] at hsymbols himports ⊢
    exact ⟨hsymbols, himports⟩

/-- A path with rows of any kind has the row of its file. -/
theorem Coherent.exists_file {path : String} (hrows : t.entry path ≠ {}) :
    ∃ f ∈ t.files, f.path = path ∧ ∀ s ∈ (t.entry path).symbols, s.language = f.language := by
  rcases h path with hnone | ⟨f, hf, -, -, hlanguage⟩
  · exact absurd hnone hrows
  · have hmem : f ∈ (t.entry path).files := hf ▸ List.mem_singleton_self f
    obtain ⟨hmem, hpath⟩ := List.mem_filter.mp hmem
    exact ⟨f, hmem, by simpa using hpath, hlanguage⟩

theorem Coherent.consistent : t.Consistent where
  paths := by
    refine List.nodup_iff_count_le_one.mpr fun path => ?_
    have hcount : (t.files.map (·.path)).count path = (t.entry path).files.length := by
      rw [List.count, List.countP_map, List.countP_eq_length_filter]
      rfl
    rw [hcount]
    rcases h path with hnone | ⟨f, hf, -⟩
    · rw [hnone]
      exact Nat.zero_le 1
    · rw [hf]
      exact Nat.le_refl 1
  symbols s hs := by
    have hmem : s.2 ∈ (t.entry s.2.file).symbols :=
      List.mem_filter.mpr ⟨List.mem_map_of_mem hs, by simp⟩
    have hrows : t.entry s.2.file ≠ {} := fun hnone => by
      rw [hnone] at hmem
      cases hmem
    obtain ⟨f, hf, hpath, hlanguage⟩ := h.exists_file hrows
    exact ⟨f, hf, hpath, (hlanguage s.2 hmem).symm⟩
  imports i hi := by
    have hmem : i.2 ∈ (t.entry i.2.file).imports :=
      List.mem_filter.mpr ⟨List.mem_map_of_mem hi, by simp⟩
    have hrows : t.entry i.2.file ≠ {} := fun hnone => by
      rw [hnone] at hmem
      cases hmem
    obtain ⟨f, hf, hpath, -⟩ := h.exists_file hrows
    exact ⟨f, hf, hpath⟩
  symbolCounts f hf := (h.counts hf).1.trans (length_filter_rows _ _)
  importCounts f hf := (h.counts hf).2.trans (length_filter_rows _ _)

end Coherent

/-! ## Patterns -/

/-- How many symbols belong to a category. -/
def members (rows : List SymbolRow) (category : String) : Nat :=
  rows.countP (·.category = some category)

/-- A class or an interface that is named as a base. -/
def isBase (s : SymbolRow) : Bool :=
  (s.kind = "class" || s.kind = "interface") && Category.isAnchor s.name

/-- The pattern of a category with that many members. -/
def categoryPattern (category : String) (n : Nat) : PatternRow :=
  { name := Category.title category ++ " Pattern", type := "architecture", file := none, symbol := none
    line := none, description := s!"Found {n} {category} components" }

/-- The pattern of a base. -/
def basePattern (s : SymbolRow) : PatternRow :=
  { name := "Base Class: " ++ s.name, type := "inheritance", file := some s.file, symbol := some s.name
    line := some s.line, description := "Abstract base class for inheritance" }

/-- One pattern for each category that at least two symbols belong to, then one for each base. -/
def Depicts (patterns : List PatternRow) (rows : List SymbolRow) : Prop :=
  ∃ (categories : List String) (bases : List SymbolRow), categories.Nodup ∧
    (∀ c, c ∈ categories ↔ 2 ≤ members rows c) ∧ bases.Perm (rows.filter isBase) ∧
    patterns = categories.map (fun c => categoryPattern c (members rows c)) ++ bases.map basePattern

/-- The tally of categories has the number of members of each that has any. -/
theorem lookup_tally_category (rows : List SymbolRow) (category : String) :
    (Dict.tally (rows.filterMap (·.category))).lookup category =
      if members rows category = 0 then none else some (members rows category) := by
  have hcount : (rows.filterMap (·.category)).count category = members rows category := by
    rw [List.count, List.countP_filterMap, members]
    refine List.countP_congr fun s _ => ?_
    cases s.category <;> simp
  rw [Dict.tally, Dict.lookup_foldl_count, hcount]
  simp

theorem architecturePatterns_eq (rows : List SymbolRow) :
    ∃ categories : List String, categories.Nodup ∧ (∀ c, c ∈ categories ↔ 2 ≤ members rows c) ∧
      architecturePatterns rows = categories.map fun c => categoryPattern c (members rows c) := by
  have hsorted := Dict.sorted_tally (rows.filterMap (·.category))
  have hentry : ∀ entry, entry ∈ Dict.tally (rows.filterMap (·.category)) ↔
      members rows entry.1 ≠ 0 ∧ entry.2 = members rows entry.1 := by
    intro entry
    have hlookup : entry ∈ Dict.tally (rows.filterMap (·.category)) ↔
        (Dict.tally (rows.filterMap (·.category))).lookup entry.1 = some entry.2 :=
      ⟨Dict.lookup_of_mem hsorted.nodup, Dict.mem_of_lookup⟩
    rw [hlookup, lookup_tally_category]
    split
    · next hnone => simp [hnone]
    · next hsome => simp [hsome, eq_comm]
  refine ⟨((Dict.tally (rows.filterMap (·.category))).filter (2 ≤ ·.2)).map (·.1), ?_, fun c => ?_, ?_⟩
  · exact hsorted.nodup.sublist (List.filter_sublist.map _)
  · simp only [List.mem_map, List.mem_filter, hentry, decide_eq_true_eq]
    constructor
    · rintro ⟨entry, ⟨⟨-, hn⟩, htwo⟩, rfl⟩
      exact hn ▸ htwo
    · intro htwo
      have hsome : members rows c ≠ 0 := by omega
      exact ⟨(c, members rows c), ⟨⟨hsome, rfl⟩, htwo⟩, rfl⟩
  · rw [architecturePatterns, List.map_map, ← List.filterMap_eq_map, List.filterMap_filter]
    refine List.filterMap_congr fun entry hmem => ?_
    obtain ⟨-, hn⟩ := (hentry entry).mp hmem
    by_cases htwo : members rows entry.1 < 2
    · simp [hn, htwo, Nat.not_le.mpr htwo]
    · simp [hn, htwo, Nat.not_lt.mp htwo, categoryPattern]

theorem depicts_patternsOf (rows : List SymbolRow) : Depicts (patternsOf rows) rows := by
  obtain ⟨categories, hnodup, hmem, hpatterns⟩ := architecturePatterns_eq rows
  refine ⟨categories, (rows.filter isBase).mergeSort leByPlace, hnodup, hmem, List.mergeSort_perm _ _, ?_⟩
  rw [patternsOf, hpatterns]
  rfl

theorem patternsOf_nil : patternsOf [] = [] := by
  simp [patternsOf, architecturePatterns, inheritancePatterns, Dict.tally]

/-! ## Patterns along a pass -/

/-- The symbols and patterns are still those that a pass found, or it has stored or dropped a file; the patterns
it leaves alone. -/
structure Pending (before : SymbolTable) (s : SymbolTable × PassReport) : Prop where
  patterns : s.1.patterns = before.patterns
  symbols : s.1.symbols = before.symbols ∨ 0 < s.2.indexed ∨ 0 < s.2.deleted

theorem Pending.updated {s : SymbolTable × PassReport} {known : Option FileRow} {c : Candidate}
    {result : SymbolTable × Outcome} (h : Pending before s) (hupdated : Updated rd force known c s.1 result) :
    Pending before (result.1, s.2.add c result.2) := by
  cases hupdated with
  | unmoved => exact ⟨h.patterns, h.symbols⟩
  | dated => exact ⟨h.patterns, h.symbols⟩
  | failed => exact ⟨h.patterns, h.symbols⟩
  | stored => exact ⟨h.patterns, .inr (.inl (Nat.succ_pos _))⟩

theorem Pending.write {s : SymbolTable × PassReport} (h : Pending before s) (w : Write) :
    Pending before (SymbolTable.write rd force before s w) := by
  cases w with
  | drop path => exact ⟨h.patterns, .inr (.inr (Nat.succ_pos _))⟩
  | file c => exact h.updated (indexFile_updated rd force (before.file? c.path) c s.1)

/-- Whether a pass with that report looks for patterns at its end. -/
def PassReport.refreshes (force : Bool) (r : PassReport) : Bool :=
  0 < r.indexed || 0 < r.deleted || force

/-- A pass looks for the patterns of the symbols that it leaves, or it leaves the symbols and patterns that it
found. -/
theorem index_refreshes_or (rd : Reader) (force : Bool) (files : List Candidate) (t : SymbolTable) :
    (index rd force files t).2.refreshes force = true ∧
        (index rd force files t).1.patterns = patternsOf (index rd force files t).1.symbolRows ∨
      (index rd force files t).2.refreshes force = false ∧
        (index rd force files t).1.patterns = t.patterns ∧ (index rd force files t).1.symbols = t.symbols := by
  have hpending : Pending t ((t.writes files).foldl (write rd force t) (t, { total := files.length })) :=
    List.foldlRecOn (t.writes files) _ ⟨rfl, .inl rfl⟩ fun s hs w _ => hs.write w
  rw [index]
  generalize (t.writes files).foldl (write rd force t) (t, { total := files.length }) = s at hpending
  unfold finish
  dsimp only
  split
  · next hchanged => exact .inl ⟨hchanged, rfl⟩
  · next hidle =>
    -- nothing was stored or dropped, so the symbols are the ones that the pass found
    have hsymbols : s.1.symbols = t.symbols := by
      rcases hpending.symbols with hsame | hindexed | hdeleted
      · exact hsame
      · simp [hindexed] at hidle
      · simp [hdeleted] at hidle
    exact .inr ⟨Bool.eq_false_iff.mpr hidle, hpending.patterns, hsymbols⟩

/-- A pass leaves the patterns of the symbols that it leaves, if it found them so. -/
theorem patterns_index (h : t.patterns = patternsOf t.symbolRows) (rd : Reader) (force : Bool)
    (files : List Candidate) :
    (index rd force files t).1.patterns = patternsOf (index rd force files t).1.symbolRows := by
  rcases index_refreshes_or rd force files t with ⟨-, hfresh⟩ | ⟨-, hpatterns, hsymbols⟩
  · exact hfresh
  · calc (index rd force files t).1.patterns = t.patterns := hpatterns
      _ = patternsOf t.symbolRows := h
      _ = patternsOf (index rd force files t).1.symbolRows := by rw [symbolRows, symbolRows, hsymbols]

/-! ## Reachable tables -/

/-- The tables that passes and clearing lead to, whatever the tree of each pass. -/
inductive Reachable (rd : Reader) (policy : IgnorePolicy) (root : String) : SymbolTable → Prop
  | empty : Reachable rd policy root .empty
  | pass {t : SymbolTable} (h : Reachable rd policy root t) (d : Disk) (force : Bool) :
    Reachable rd policy root (index rd force (candidates rd.registry policy d root) t).1
  | clear {t : SymbolTable} (h : Reachable rd policy root t) : Reachable rd policy root t.clear

theorem Reachable.coherent (h : Reachable rd policy root t) : t.Coherent := by
  induction h with
  | empty => exact coherent_empty
  | pass _ d force ih => exact ih.index rd force _
  | clear _ _ => exact coherent_clear _

theorem Reachable.patterns_eq (h : Reachable rd policy root t) : t.patterns = patternsOf t.symbolRows := by
  induction h with
  | empty => exact patternsOf_nil.symm
  | pass _ d force ih => exact patterns_index ih rd force _
  | clear _ _ => exact patternsOf_nil.symm

/-- Every reachable table has one row a file, symbols and imports of such files only, the right counts and
languages, and the patterns of its symbols. -/
theorem reachable_table_consistent (h : Reachable rd policy root t) :
    t.Consistent ∧ t.patterns = patternsOf t.symbolRows ∧ Depicts t.patterns t.symbolRows := by
  refine ⟨h.coherent.consistent, h.patterns_eq, ?_⟩
  rw [h.patterns_eq]
  exact depicts_patternsOf t.symbolRows

/-- A pass over a file that was touched does not look for patterns and still leaves that of its class. -/
theorem reachable_table_consistent_touched :
    let rd : Reader := ⟨.register .empty { name := "python", displayName := "Python", extensions := [".py"] } [] [],
      { parse := fun _ _ => none }⟩
    let written := ({} : Disk).put "a.py" ⟨"class IA:".toUTF8.toList, 10, none⟩
    let first := (index rd false (candidates rd.registry ⟨[]⟩ written "") .empty).1
    let pass := index rd false (candidates rd.registry ⟨[]⟩ (written.touch "a.py" 11) "") first
    Reachable rd ⟨[]⟩ "" pass.1 ∧
      (pass.2.skipped = 1 ∧ pass.2.patterns = 0 ∧ pass.1.files.map (·.symbolCount) = [1] ∧
        pass.1.patterns.map (·.name) = ["Base Class: IA"]) ∧
      pass.1.Consistent ∧ pass.1.patterns = patternsOf pass.1.symbolRows ∧
      Depicts pass.1.patterns pass.1.symbolRows := by
  intro rd written first pass
  have hreachable : Reachable rd ⟨[]⟩ "" pass.1 := .pass (.pass .empty written false) (written.touch "a.py" 11) false
  exact ⟨hreachable, by decide +kernel, reachable_table_consistent hreachable⟩

end SymbolTable

end CodeIndex
