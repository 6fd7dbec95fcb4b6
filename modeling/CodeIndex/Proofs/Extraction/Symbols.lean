import CodeIndex.Enrichment.Basic
import CodeIndex.Proofs.SymbolTable.Entry

/-!
# The symbols of a file

A name and a first line tell a symbol among those of its file, lines are counted from 1, and no symbol ends before it
starts. Enrichment leaves all this as it is.
-/

namespace CodeIndex

theorem nodup_firstsFrom [BEq κ] [LawfulBEq κ] (key : α → κ) (seen : List κ) (xs : List α) :
    ((firstsFrom key seen xs).map key).Nodup ∧ ∀ a ∈ firstsFrom key seen xs, key a ∉ seen := by
  induction xs generalizing seen with
  | nil => exact ⟨List.nodup_nil, List.forall_mem_nil _⟩
  | cons x rest ih =>
    rw [firstsFrom]
    split
    · exact ih seen
    · next hseen =>
      obtain ⟨hnodup, hfresh⟩ := ih (key x :: seen)
      refine ⟨List.nodup_cons.mpr ⟨?_, hnodup⟩, List.forall_mem_cons.mpr ⟨by simpa using hseen, fun a ha => ?_⟩⟩
      · rintro hmem
        obtain ⟨a, ha, hkey⟩ := List.mem_map.mp hmem
        exact hfresh a ha (hkey ▸ List.mem_cons_self)
      · exact fun hmem => hfresh a ha (List.mem_cons_of_mem _ hmem)

/-- What tells a symbol among those of its file. -/
def Symbol.key (s : Symbol) : String × Nat := (s.name, s.startLine)

/-- Lines from the first on, in order. -/
structure Symbol.Spans (s : Symbol) : Prop where
  one_le : 1 ≤ s.startLine
  start_le_end : s.startLine ≤ s.endLine

/-- Symbols that are told by their keys, each with lines. -/
structure ToldApart (symbols : List Symbol) : Prop where
  nodup : (symbols.map Symbol.key).Nodup
  spans : ∀ s ∈ symbols, s.Spans

namespace Parsed

variable {p : Parsed} {s : Symbol}

theorem spans_symbolOf {kind : String} {m : Tree.Match} (h : p.symbolOf kind m = some s) : s.Spans := by
  unfold symbolOf at h
  obtain ⟨named, -, h⟩ := Option.bind_eq_some_iff.mp h
  dsimp only at h
  split at h
  · cases h
  · cases h
    exact ⟨Nat.le_add_left _ _, Nat.le_max_right _ _⟩

theorem toldApart (p : Parsed) : ToldApart p.symbols where
  nodup := by
    refine ((List.mergeSort_perm _ _).map Symbol.key).nodup_iff.mpr ?_
    exact (nodup_firstsFrom Symbol.key [] _).1
  spans s hs := by
    have hhit := mem_of_mem_firstsFrom (List.mem_mergeSort.mp hs)
    obtain ⟨rule, -, hhit⟩ := List.mem_flatMap.mp hhit
    obtain ⟨m, -, hm⟩ := List.mem_filterMap.mp hhit
    exact spans_symbolOf hm

end Parsed

theorem toldApart_extract (r : Registry) (g : Grammars) (file language text : String) :
    ToldApart (extract r g file language text).symbols := by
  have hnone : ToldApart [] := ⟨List.nodup_nil, List.forall_mem_nil _⟩
  unfold extract
  split
  · exact hnone
  · split
    · exact hnone
    · split
      · exact hnone
      · exact Parsed.toldApart _

/-- Enrichment keeps the symbols. -/
theorem map_symbol_extractSource (r : Registry) (g : Grammars) (file language text : String) :
    (extractSource r g file language text).symbols.map (·.symbol) =
      (extract r g file (((r.lookup? language).map (·.name)).getD (Text.lower language)) text).symbols := by
  unfold extractSource
  dsimp only
  split
  · simp [Function.comp_def]
  · rw [List.map_map, List.map_map]
    refine (List.map_congr_left fun s _ => ?_).trans (List.map_id _)
    dsimp only [Function.comp_apply]
    split <;> rfl

end CodeIndex
