import CodeIndex.Chunk.Layout
import CodeIndex.Proofs.Source.Lines

/-!
# Lines and their owners

`Apart n prev syms`: the symbols start in the first `n` lines, behind line `prev` and behind each other.
`Parts lo next segs`: the segments take the lines from `lo` on one after the other and leave off before
`next`. Outermost symbols are apart (`outermost_apart`), and the segments made of them part the whole
file, each symbol inside its own (`segments_spec`).
-/

namespace CodeIndex

/-- The lines of a symbol as an extraction gives them: in order, and the first inside the file. -/
structure Symbol.Placed (n : Nat) (sym : Symbol) : Prop where
  one_le : 1 ≤ sym.startLine
  start_le_end : sym.startLine ≤ sym.endLine
  start_le : sym.startLine ≤ n

namespace Layout

/-! ## Outermost symbols -/

/-- Symbols with disjoint lines in ascending order, behind line `prev`. -/
def Apart (n prev : Nat) : List Symbol → Prop
  | [] => True
  | sym :: rest =>
    prev < sym.startLine ∧ sym.startLine ≤ n ∧ sym.startLine ≤ sym.endLine ∧
      Apart n (min sym.endLine n) rest

theorem disjointFrom_apart {n prev : Nat} {symbols : List Symbol}
    (h : ∀ sym ∈ symbols, sym.startLine ≤ sym.endLine ∧ sym.startLine ≤ n) :
    Apart n prev (disjointFrom n prev symbols) := by
  induction symbols generalizing prev with
  | nil => trivial
  | cons sym rest ih =>
    have hrest : ∀ s ∈ rest, s.startLine ≤ s.endLine ∧ s.startLine ≤ n :=
      fun s hs => h s (List.mem_cons_of_mem _ hs)
    have hsym := h sym List.mem_cons_self
    rw [disjointFrom]
    split
    · next hlt => exact ⟨hlt, hsym.2, hsym.1, ih hrest⟩
    · exact ih hrest

theorem mem_of_mem_disjointFrom {n prev : Nat} {symbols : List Symbol} {sym : Symbol}
    (h : sym ∈ disjointFrom n prev symbols) : sym ∈ symbols := by
  induction symbols generalizing prev with
  | nil => cases h
  | cons first rest ih =>
    rw [disjointFrom] at h
    split at h
    · rcases List.mem_cons.mp h with rfl | h
      · exact List.mem_cons_self
      · exact List.mem_cons_of_mem _ (ih h)
    · exact List.mem_cons_of_mem _ (ih h)

theorem mem_of_mem_outermost {symbols : List Symbol} {n : Nat} {sym : Symbol}
    (h : sym ∈ outermost symbols n) : sym ∈ symbols := by
  have := mem_of_mem_disjointFrom h
  rw [List.mem_mergeSort, List.mem_filter] at this
  exact this.1

theorem outermost_apart {symbols : List Symbol} {n : Nat}
    (h : ∀ sym ∈ symbols, sym.startLine ≤ sym.endLine) : Apart n 0 (outermost symbols n) := by
  refine disjointFrom_apart fun sym hsym => ?_
  rw [List.mem_mergeSort, List.mem_filter] at hsym
  simp only [Bool.and_eq_true, decide_eq_true_eq] at hsym
  exact ⟨h sym hsym.1, hsym.2.2⟩

theorem mem_members {symbols : List Symbol} {owner m : Symbol} (h : m ∈ members symbols owner) :
    m ∈ symbols ∧ owner.startLine < m.startLine ∧ m.endLine ≤ owner.endLine := by
  have := mem_of_mem_outermost h
  rw [List.mem_filter] at this
  simpa using this

theorem members_apart {symbols : List Symbol} {owner : Symbol}
    (h : ∀ sym ∈ symbols, sym.startLine ≤ sym.endLine) :
    Apart owner.endLine 0 (members symbols owner) :=
  outermost_apart fun sym hsym => h sym (List.mem_filter.mp hsym).1

/-! ## Segments -/

/-- Segments of consecutive lines from `lo` on; `next` is the line behind the last one. -/
def Parts (lo next : Nat) : List Segment → Prop
  | [] => lo = next
  | seg :: rest => seg.first = lo ∧ seg.first ≤ seg.last ∧ Parts (seg.last + 1) next rest

theorem Parts.append {lo mid next : Nat} {segs more : List Segment} (h : Parts lo mid segs)
    (h' : Parts mid next more) : Parts lo next (segs ++ more) := by
  induction segs generalizing lo with
  | nil => obtain rfl := h; exact h'
  | cons seg rest ih => exact ⟨h.1, h.2.1, ih h.2.2⟩

theorem Parts.le {lo next : Nat} {segs : List Segment} (h : Parts lo next segs) : lo ≤ next := by
  induction segs generalizing lo with
  | nil => exact Nat.le_of_eq h
  | cons seg rest ih =>
    have := ih h.2.2
    have := h.1
    have := h.2.1
    omega

theorem Parts.bounds {lo next : Nat} {segs : List Segment} (h : Parts lo next segs) {seg : Segment}
    (hseg : seg ∈ segs) : lo ≤ seg.first ∧ seg.first ≤ seg.last ∧ seg.last < next := by
  induction segs generalizing lo with
  | nil => cases hseg
  | cons first rest ih =>
    obtain ⟨h1, h2, h3⟩ := h
    have := h3.le
    rcases List.mem_cons.mp hseg with rfl | hrest
    · omega
    · have := ih h3 hrest
      omega

/-- A segment holds its symbol, up to the symbol's end or the end of the file. -/
def Holds (n : Nat) (seg : Segment) : Prop :=
  ∀ sym, seg.symbol = some sym →
    seg.first ≤ sym.startLine ∧ sym.startLine ≤ seg.last ∧ min sym.endLine n ≤ seg.last

theorem extendLast_parts {lo next last : Nat} {segs : List Segment} (h : Parts lo next segs)
    (hne : segs ≠ []) (hlast : next ≤ last) : Parts lo (last + 1) (extendLast last segs) := by
  induction segs generalizing lo with
  | nil => exact absurd rfl hne
  | cons seg rest ih =>
    obtain ⟨h1, h2, h3⟩ := h
    cases rest with
    | nil =>
      simp only [Parts] at h3
      exact ⟨h1, by simp only; omega, rfl⟩
    | cons seg' rest => exact ⟨h1, h2, ih h3 (by simp)⟩

/-- Extending the last segment keeps every symbol and makes no segment shorter. -/
theorem mem_extendLast {next lo last : Nat} {segs : List Segment} (h : Parts lo next segs)
    (hlast : next ≤ last) {seg : Segment} (hseg : seg ∈ extendLast last segs) :
    ∃ old ∈ segs, seg.symbol = old.symbol ∧ seg.first = old.first ∧ old.last ≤ seg.last := by
  induction segs generalizing lo with
  | nil => cases hseg
  | cons first rest ih =>
    cases rest with
    | nil =>
      simp only [extendLast, List.mem_singleton] at hseg
      subst hseg
      have := h.2.2
      simp only [Parts] at this
      exact ⟨first, List.mem_cons_self, rfl, rfl, by simp only; omega⟩
    | cons second rest =>
      rcases List.mem_cons.mp hseg with rfl | hrest
      · exact ⟨seg, List.mem_cons_self, rfl, rfl, Nat.le_refl _⟩
      · obtain ⟨old, hold, h'⟩ := ih h.2.2 hrest
        exact ⟨old, List.mem_cons_of_mem _ hold, h'⟩

variable {s : Source}

theorem exists_isLarge (hs : s.Intact) (h0 : 0 < s.size) (minSize : Nat) {first last : Nat}
    (h1 : 1 ≤ first) (hle : first ≤ last) (h : first ≤ s.lineCount) :
    ∃ b, isLarge s minSize first last = .ok b := by
  obtain ⟨text, -, htext⟩ := hs.exists_lineText h0 h1 (Nat.le_succ_of_le hle) h
  exact ⟨_, by rw [isLarge, htext]; rfl⟩

/-- The segments up to the end of one symbol. -/
theorem leading_spec (hs : s.Intact) (h0 : 0 < s.size) (minSize : Nat) {cursor : Nat} {sym : Symbol}
    (h1 : 1 ≤ cursor) (hcursor : cursor ≤ sym.startLine) (hstart : sym.startLine ≤ s.lineCount)
    (hend : sym.startLine ≤ sym.endLine) :
    ∃ front, leading s minSize s.lineCount cursor sym = .ok front ∧ front ≠ [] ∧
      Parts cursor (min sym.endLine s.lineCount + 1) front ∧ ∀ seg ∈ front, Holds s.lineCount seg ∧
        ∀ owner, seg.symbol = some owner → owner = sym := by
  have hstop : max (min sym.endLine s.lineCount) sym.startLine = min sym.endLine s.lineCount := by omega
  have hown : ∀ first, first ≤ sym.startLine →
      Holds s.lineCount ⟨first, min sym.endLine s.lineCount, some sym⟩ ∧
        ∀ owner, some sym = some owner → owner = sym := by
    intro first hfirst
    refine ⟨fun owner h => ?_, fun owner h => (Option.some.inj h).symm⟩
    obtain rfl := Option.some.inj h
    exact ⟨hfirst, by simp only; omega, Nat.le_refl _⟩
  unfold leading
  simp only [hstop]
  split
  · next hgap =>
    obtain ⟨large, hlarge⟩ := exists_isLarge hs h0 minSize h1 (by omega : cursor ≤ sym.startLine - 1)
      (by omega)
    rw [hlarge]
    cases large with
    | true =>
      refine ⟨_, rfl, by simp, ⟨rfl, by simp only; omega, by simp only; omega, by simp only; omega, rfl⟩, ?_⟩
      simp only [List.mem_cons, List.not_mem_nil, or_false, forall_eq_or_imp, forall_eq]
      exact ⟨⟨fun _ h => (nomatch h), fun _ h => (nomatch h)⟩, hown _ (Nat.le_refl _)⟩
    | false =>
      refine ⟨_, rfl, by simp, ⟨rfl, by simp only; omega, rfl⟩, ?_⟩
      simp only [List.mem_cons, List.not_mem_nil, or_false, forall_eq]
      exact hown _ hcursor
  · refine ⟨_, rfl, by simp, ⟨by simp only; omega, by simp only; omega, rfl⟩, ?_⟩
    simp only [List.mem_cons, List.not_mem_nil, or_false, forall_eq]
    exact hown _ (Nat.le_refl _)

theorem segmentsFrom_spec (hs : s.Intact) (h0 : 0 < s.size) (minSize : Nat) {cursor : Nat}
    {top : List Symbol} (hcursor : cursor ≤ s.lineCount) (htop : Apart s.lineCount cursor top) :
    ∃ segs after, segmentsFrom s minSize s.lineCount (cursor + 1) top = .ok (segs, after) ∧
      after ≤ s.lineCount + 1 ∧ Parts (cursor + 1) after segs ∧ (top ≠ [] → segs ≠ []) ∧
      ∀ seg ∈ segs, Holds s.lineCount seg ∧ ∀ sym, seg.symbol = some sym → sym ∈ top := by
  induction top generalizing cursor with
  | nil => exact ⟨[], cursor + 1, rfl, by omega, rfl, by simp, by simp⟩
  | cons sym rest ih =>
    obtain ⟨hlt, hstart, hend, hrest⟩ := htop
    obtain ⟨front, hfront, hne, hparts, hsyms⟩ := leading_spec hs h0 minSize
      (Nat.le_add_left 1 cursor) hlt hstart hend
    obtain ⟨more, after, hmore, hafter, hparts', -, hsyms'⟩ := ih (Nat.min_le_right _ _) hrest
    refine ⟨front ++ more, after, ?_, hafter, hparts.append hparts', by simp [hne], fun seg hseg => ?_⟩
    · rw [segmentsFrom, hfront,
        show max (min sym.endLine s.lineCount) sym.startLine + 1 = min sym.endLine s.lineCount + 1 by omega]
      simp only [bind, Except.bind, hmore]
      rfl
    · rcases List.mem_append.mp hseg with h | h
      · exact ⟨(hsyms seg h).1, fun owner ho => by rw [(hsyms seg h).2 owner ho]; exact List.mem_cons_self⟩
      · exact ⟨(hsyms' seg h).1, fun owner ho => List.mem_cons_of_mem _ ((hsyms' seg h).2 owner ho)⟩

/-- The segments of a file part its lines, and each symbol lies in its own. -/
theorem segments_spec (hs : s.Intact) (h0 : 0 < s.size) (minSize : Nat) {top : List Symbol}
    (htop : Apart s.lineCount 0 top) (hne : top ≠ []) :
    ∃ segs, segments s top s.lineCount minSize = .ok segs ∧ Parts 1 (s.lineCount + 1) segs ∧
      ∀ seg ∈ segs, Holds s.lineCount seg ∧ ∀ sym, seg.symbol = some sym → sym ∈ top := by
  obtain ⟨found, cursor, hfound, hcursor, hparts, hsegs, hsyms⟩ :=
    segmentsFrom_spec hs h0 minSize (Nat.zero_le _) htop
  have hfne := hsegs hne
  simp only [segments, hfound, bind, Except.bind]
  split
  · next hle =>
    -- lines are left behind the last symbol
    obtain ⟨large, hlarge⟩ := exists_isLarge hs h0 minSize
      (by have := hparts.le; omega : 1 ≤ cursor) hle hle
    rw [hlarge]
    cases large with
    | true =>
      refine ⟨_, rfl, hparts.append ⟨rfl, hle, rfl⟩, fun seg hseg => ?_⟩
      rcases List.mem_append.mp hseg with h | h
      · exact hsyms seg h
      · rw [List.mem_singleton] at h
        subst h
        exact ⟨fun _ h => (nomatch h), fun _ h => (nomatch h)⟩
    | false =>
      refine ⟨extendLast s.lineCount found, by simp [hfne, pure, Except.pure],
        extendLast_parts hparts hfne hle, fun seg hseg => ?_⟩
      obtain ⟨old, hold, hsym, hfirst, hlast⟩ := mem_extendLast hparts hle hseg
      obtain ⟨hholds, htop'⟩ := hsyms old hold
      rw [hsym]
      refine ⟨fun sym h => ?_, htop'⟩
      have := hholds sym (hsym ▸ h)
      omega
  · next hgt =>
    refine ⟨found, rfl, ?_, hsyms⟩
    rwa [show cursor = s.lineCount + 1 by omega] at hparts

end Layout

end CodeIndex
