import Mathlib.Data.List.Perm.Basic
import CodeIndex.Chunk.Symbols
import CodeIndex.Proofs.Chunk.Layout
import CodeIndex.Proofs.Except

/-!
# Every line has one owner

Of the symbols of a file the outermost are kept. Their lines are disjoint, and every symbol that is not
kept starts inside one that is (`outermost_kept`). The segments take each line once: one segment for each
kept symbol, and one for each gap between them that holds enough visible text (`segments_owned`). A class
cut into its members passes on the lines of its segment in the same way, first to its head and then to
each member (`classParts_owned`).
-/

namespace CodeIndex

namespace Layout

variable {n : Nat} {symbols top : List Symbol}

/-! ## What is kept -/

/-- A choice among symbols: what is kept has disjoint lines of the first `n` and is in order, and what is
not kept starts inside something that is. -/
structure Kept (n : Nat) (symbols kept : List Symbol) : Prop where
  disjoint : kept.Pairwise fun a b => min a.endLine n < b.startLine
  others : ∃ rest, (kept ++ rest).Perm symbols ∧
    ∀ sym ∈ rest, ∃ k ∈ kept, k.startLine ≤ sym.startLine ∧ sym.startLine ≤ min k.endLine n

theorem Apart.bounds {prev : Nat} (h : Apart n prev top) {sym : Symbol} (hsym : sym ∈ top) :
    prev < sym.startLine ∧ sym.startLine ≤ min sym.endLine n := by
  induction top generalizing prev with
  | nil => cases hsym
  | cons first rest ih =>
    obtain ⟨h1, h2, h3, h4⟩ := h
    rcases List.mem_cons.mp hsym with rfl | hsym
    · omega
    · have := ih h4 hsym
      omega

theorem Apart.pairwise {prev : Nat} (h : Apart n prev top) :
    top.Pairwise fun a b => min a.endLine n < b.startLine := by
  induction top generalizing prev with
  | nil => exact .nil
  | cons sym rest ih => exact .cons (fun b hb => (h.2.2.2.bounds hb).1) (ih h.2.2.2)

/-- What is passed over in ascending order starts before `prev` or inside a symbol that is taken. -/
theorem exists_passed (prev : Nat) (hsorted : symbols.Pairwise fun a b => a.startLine ≤ b.startLine) :
    ∃ rest, (disjointFrom n prev symbols ++ rest).Perm symbols ∧ ∀ sym ∈ rest, sym.startLine ≤ prev ∨
      ∃ k ∈ disjointFrom n prev symbols, k.startLine ≤ sym.startLine ∧ sym.startLine ≤ min k.endLine n := by
  induction symbols generalizing prev with
  | nil => exact ⟨[], .nil, by simp⟩
  | cons first symbols ih =>
    obtain ⟨hfirst, hsorted⟩ := List.pairwise_cons.mp hsorted
    rw [disjointFrom]
    split
    · obtain ⟨rest, hperm, hrest⟩ := ih (min first.endLine n) hsorted
      refine ⟨rest, hperm.cons first, fun sym hsym => .inr ?_⟩
      rcases hrest sym hsym with hlines | ⟨k, hk, hin⟩
      · exact ⟨first, List.mem_cons_self, hfirst sym (hperm.mem_iff.mp (by simp [hsym])), hlines⟩
      · exact ⟨k, List.mem_cons_of_mem _ hk, hin⟩
    · next hlt =>
      obtain ⟨rest, hperm, hrest⟩ := ih prev hsorted
      refine ⟨first :: rest, List.perm_middle.trans (hperm.cons first), fun sym hsym => ?_⟩
      rcases List.mem_cons.mp hsym with rfl | hsym
      · exact .inl (by omega)
      · exact hrest sym hsym

theorem precedes_trans (a b c : Symbol) (h : precedes a b = true) (h' : precedes b c = true) :
    precedes a c = true := by
  simp only [precedes, Bool.or_eq_true, Bool.and_eq_true, decide_eq_true_eq] at *
  omega

theorem precedes_total (a b : Symbol) : (precedes a b || precedes b a) = true := by
  simp only [precedes, Bool.or_eq_true, Bool.and_eq_true, decide_eq_true_eq]
  omega

theorem outermost_kept (h : ∀ sym ∈ symbols, sym.Placed n) : Kept n symbols (outermost symbols n) := by
  have hinside : symbols.filter (fun s => 1 ≤ s.startLine && s.startLine ≤ n) = symbols := by
    refine List.filter_eq_self.mpr fun sym hsym => ?_
    simp [(h sym hsym).one_le, (h sym hsym).start_le]
  have hsorted : (symbols.mergeSort precedes).Pairwise fun a b => a.startLine ≤ b.startLine := by
    refine (List.pairwise_mergeSort precedes_trans precedes_total symbols).imp fun hab => ?_
    simp only [precedes, Bool.or_eq_true, Bool.and_eq_true, decide_eq_true_eq] at hab
    omega
  refine ⟨(outermost_apart fun sym hsym => (h sym hsym).start_le_end).pairwise, ?_⟩
  unfold outermost
  rw [hinside]
  obtain ⟨rest, hperm, hrest⟩ := exists_passed (n := n) 0 hsorted
  have hall := hperm.trans (List.mergeSort_perm symbols precedes)
  refine ⟨rest, hall, fun sym hsym => (hrest sym hsym).resolve_left ?_⟩
  have := (h sym (hall.mem_iff.mp (by simp [hsym]))).one_le
  omega

/-! ## Gaps -/

/-- Lines from `cursor` on that no kept symbol has, with the file's end or a kept symbol on either side. -/
structure Gap (n cursor : Nat) (kept : List Symbol) (first last : Nat) : Prop where
  le : first ≤ last
  opens : first = cursor ∨ ∃ k ∈ kept, first = min k.endLine n + 1
  closes : last = n ∨ ∃ k ∈ kept, last + 1 = k.startLine
  free : ∀ k ∈ kept, k.startLine ≤ last → min k.endLine n < first

theorem gap_nil {cursor first last : Nat} :
    Gap n cursor [] first last ↔ first = cursor ∧ last = n ∧ cursor ≤ n := by
  constructor
  · intro h
    have hopens := h.opens
    have hcloses := h.closes
    simp only [List.not_mem_nil, false_and, exists_false, or_false] at hopens hcloses
    have := h.le
    omega
  · rintro ⟨rfl, rfl, hle⟩
    exact ⟨hle, .inl rfl, .inl rfl, by simp⟩

section Cons

variable {cursor first last : Nat} {sym : Symbol} {rest : List Symbol}

/-- Lines in front of the first symbol are bounded by no symbol behind it. -/
theorem Gap.in_front (h : Gap n (cursor + 1) (sym :: rest) first last) (hapart : Apart n cursor (sym :: rest))
    (hbefore : last < sym.startLine) :
    cursor + 1 < sym.startLine ∧ first = cursor + 1 ∧ last = sym.startLine - 1 := by
  obtain ⟨hlt, hn, hend, hrest⟩ := hapart
  have hle := h.le
  have hfirst : first = cursor + 1 := by
    rcases h.opens with hf | ⟨k, hk, hf⟩
    · exact hf
    · rcases List.mem_cons.mp hk with rfl | hk
      · omega
      · have := hrest.bounds hk
        omega
  rcases h.closes with hl | ⟨k, hk, hl⟩
  · omega
  · rcases List.mem_cons.mp hk with rfl | hk
    · omega
    · have := hrest.bounds hk
      omega

theorem Gap.behind (h : Gap n (cursor + 1) (sym :: rest) first last) (hapart : Apart n cursor (sym :: rest))
    (hafter : sym.startLine ≤ last) : Gap n (min sym.endLine n + 1) rest first last := by
  obtain ⟨hlt, hn, hend, -⟩ := hapart
  have hsym := h.free sym List.mem_cons_self hafter
  refine ⟨h.le, ?_, ?_, fun k hk => h.free k (List.mem_cons_of_mem _ hk)⟩
  · rcases h.opens with hf | ⟨k, hk, hf⟩
    · omega
    · rcases List.mem_cons.mp hk with rfl | hk
      · exact .inl hf
      · exact .inr ⟨k, hk, hf⟩
  · rcases h.closes with hl | ⟨k, hk, hl⟩
    · exact .inl hl
    · rcases List.mem_cons.mp hk with rfl | hk
      · omega
      · exact .inr ⟨k, hk, hl⟩

theorem gap_in_front (hapart : Apart n cursor (sym :: rest)) (hlt : cursor + 1 < sym.startLine) :
    Gap n (cursor + 1) (sym :: rest) (cursor + 1) (sym.startLine - 1) := by
  obtain ⟨-, hn, hend, hrest⟩ := hapart
  refine ⟨by omega, .inl rfl, .inr ⟨sym, List.mem_cons_self, by omega⟩, fun k hk hkl => ?_⟩
  rcases List.mem_cons.mp hk with rfl | hk
  · omega
  · have := hrest.bounds hk
    omega

theorem Gap.cons (h : Gap n (min sym.endLine n + 1) rest first last) (hapart : Apart n cursor (sym :: rest)) :
    Gap n (cursor + 1) (sym :: rest) first last := by
  have hfirst : min sym.endLine n < first := by
    rcases h.opens with hf | ⟨k, hk, hf⟩
    · omega
    · have := hapart.2.2.2.bounds hk
      omega
  refine ⟨h.le, .inr ?_, ?_, fun k hk hkl => ?_⟩
  · rcases h.opens with hf | ⟨k, hk, hf⟩
    · exact ⟨sym, List.mem_cons_self, hf⟩
    · exact ⟨k, List.mem_cons_of_mem _ hk, hf⟩
  · rcases h.closes with hl | ⟨k, hk, hl⟩
    · exact .inl hl
    · exact .inr ⟨k, List.mem_cons_of_mem _ hk, hl⟩
  · rcases List.mem_cons.mp hk with rfl | hk
    · exact hfirst
    · exact h.free k hk hkl

/-- The gaps are the one in front of the first symbol and those behind it. -/
theorem gap_cons (hapart : Apart n cursor (sym :: rest)) :
    Gap n (cursor + 1) (sym :: rest) first last ↔
      (cursor + 1 < sym.startLine ∧ first = cursor + 1 ∧ last = sym.startLine - 1) ∨
        Gap n (min sym.endLine n + 1) rest first last := by
  constructor
  · intro h
    rcases Nat.lt_or_ge last sym.startLine with hbefore | hafter
    · exact .inl (h.in_front hapart hbefore)
    · exact .inr (h.behind hapart hafter)
  · rintro (⟨hlt, rfl, rfl⟩ | h)
    · exact gap_in_front hapart hlt
    · exact h.cons hapart

end Cons

/-! ## Segments -/

/-- Lines with at least `minSize` visible characters. -/
def Visible (s : Source) (minSize first last : Nat) : Prop :=
  ∃ text, s.lineText first last = .ok text ∧ minSize ≤ visibleChars text

theorem isLarge_eq_true {s : Source} {minSize first last : Nat} :
    isLarge s minSize first last = .ok true ↔ Visible s minSize first last := by
  unfold isLarge Visible
  cases s.lineText first last with
  | error fault => simp [bind, Except.bind]
  | ok text => simp [bind, Except.bind, pure, Except.pure]

variable {s : Source} {minSize : Nat}

/-- In front of the segment of a symbol stands the gap before it, where that is large. -/
theorem leading_shape {cursor : Nat} {sym : Symbol} {front : List Segment}
    (h : leading s minSize n cursor sym = .ok front) :
    ∃ pre first last, front = pre ++ [⟨first, last, some sym⟩] ∧ ∀ seg, seg ∈ pre ↔
      seg = ⟨cursor, sym.startLine - 1, none⟩ ∧ cursor < sym.startLine ∧
        Visible s minSize cursor (sym.startLine - 1) := by
  unfold leading at h
  simp only at h
  split at h
  · next hgap =>
    obtain ⟨large, hlarge, h⟩ := exists_of_bind_eq_ok h
    rw [← isLarge_eq_true, hlarge]
    cases large with
    | true =>
      cases h
      exact ⟨[⟨cursor, sym.startLine - 1, none⟩], _, _, rfl, by simp [hgap]⟩
    | false =>
      cases h
      exact ⟨[], _, _, rfl, by simp⟩
  · next hgap =>
    cases h
    exact ⟨[], _, _, rfl, by simp [hgap]⟩

/-- The segments before line `after`: one for each symbol, and the large gaps in front of them. -/
structure Assigns (s : Source) (minSize n cursor after : Nat) (top : List Symbol) (segs : List Segment) :
    Prop where
  symbols : segs.filterMap (·.symbol) = top
  gap : ∀ first last, Gap n cursor top first last ∧ Visible s minSize first last ↔
    ⟨first, last, none⟩ ∈ segs ∨ first = after ∧ last = n ∧ after ≤ n ∧ Visible s minSize first last
  owned : ∀ seg ∈ segs.getLast?, seg.symbol ≠ none

theorem segmentsFrom_assigns {cursor after : Nat} {segs : List Segment} (htop : Apart n cursor top)
    (h : segmentsFrom s minSize n (cursor + 1) top = .ok (segs, after)) :
    Assigns s minSize n (cursor + 1) after top segs := by
  induction top generalizing cursor segs with
  | nil =>
    cases h
    refine ⟨rfl, fun first last => ?_, by simp⟩
    rw [gap_nil]
    simp only [List.not_mem_nil, false_or]
    grind
  | cons sym rest ih =>
    obtain ⟨hlt, hn, hend, hrest⟩ := htop
    rw [segmentsFrom, show max (min sym.endLine n) sym.startLine = min sym.endLine n by omega] at h
    obtain ⟨front, hfront, h⟩ := exists_of_bind_eq_ok h
    obtain ⟨more, hmore, h⟩ := exists_of_bind_eq_ok h
    cases h
    obtain ⟨hsymbols, hgap, howned⟩ := ih hrest hmore
    obtain ⟨pre, first, last, rfl, hpre⟩ := leading_shape hfront
    have hnone : pre.filterMap (·.symbol) = [] := by
      refine List.filterMap_eq_nil_iff.mpr fun seg hseg => ?_
      rw [((hpre seg).mp hseg).1]
    refine ⟨?_, fun first last => ?_, ?_⟩
    · simp [List.filterMap_append, hnone, hsymbols]
    · rw [gap_cons ⟨hlt, hn, hend, hrest⟩, or_and_right, hgap first last, List.mem_append,
        List.mem_append, hpre]
      simp only [List.mem_singleton, Segment.mk.injEq, reduceCtorEq, and_false, or_false, and_true]
      grind
    · rw [List.getLast?_append, List.getLast?_concat]
      cases hlast : more.1.getLast? with
      | none => simp
      | some seg =>
        rw [hlast] at howned
        exact howned

theorem filterMap_extendLast (last : Nat) (segs : List Segment) :
    (extendLast last segs).filterMap (·.symbol) = segs.filterMap (·.symbol) := by
  fun_induction extendLast last segs with
  | case1 => rfl
  | case2 seg => rfl
  | case3 seg rest hne ih => rw [List.filterMap_cons, List.filterMap_cons, ih]

/-- Letting the segment of a symbol reach farther makes no gap. -/
theorem gap_mem_extendLast {segs : List Segment} (howned : ∀ seg ∈ segs.getLast?, seg.symbol ≠ none)
    (first stop last : Nat) : ⟨first, stop, none⟩ ∈ extendLast last segs ↔ ⟨first, stop, none⟩ ∈ segs := by
  fun_induction extendLast last segs with
  | case1 => rfl
  | case2 seg =>
    have hsym := howned seg rfl
    simp only [List.mem_singleton]
    constructor
    · intro h
      exact absurd (congrArg Segment.symbol h).symm hsym
    · intro h
      exact absurd (congrArg Segment.symbol h).symm hsym
  | case3 seg rest hne ih =>
    obtain ⟨next, rest, rfl⟩ := List.exists_cons_of_ne_nil fun h => hne h
    rw [List.mem_cons, List.mem_cons, ih (by simpa using howned)]

/-- What the segments of a file are. -/
structure Owned (s : Source) (minSize n : Nat) (top : List Symbol) (segs : List Segment) : Prop where
  parts : Parts 1 (n + 1) segs
  symbols : segs.filterMap (·.symbol) = top
  holds : ∀ seg ∈ segs, Holds n seg
  gap : ∀ first last, ⟨first, last, none⟩ ∈ segs ↔ Gap n 1 top first last ∧ Visible s minSize first last

theorem segments_owned (hs : s.Intact) (h0 : 0 < s.size) (minSize : Nat) (htop : Apart s.lineCount 0 top)
    (hne : top ≠ []) :
    ∃ segs, segments s top s.lineCount minSize = .ok segs ∧ Owned s minSize s.lineCount top segs := by
  obtain ⟨segs, hsegs, hparts, hholds⟩ := segments_spec hs h0 minSize htop hne
  refine ⟨segs, hsegs, ?_⟩
  suffices h : segs.filterMap (·.symbol) = top ∧ ∀ first last, ⟨first, last, none⟩ ∈ segs ↔
      Gap s.lineCount 1 top first last ∧ Visible s minSize first last from
    ⟨hparts, h.1, fun seg hseg => (hholds seg hseg).1, h.2⟩
  unfold segments at hsegs
  obtain ⟨⟨found, after⟩, hfound, hsegs⟩ := exists_of_bind_eq_ok hsegs
  obtain ⟨hsymbols, hgap, howned⟩ := segmentsFrom_assigns htop hfound
  have hfne : found ≠ [] := by
    rintro rfl
    exact hne hsymbols.symm
  dsimp only at hsegs
  split at hsegs
  · next hle =>
    -- lines are left behind the last symbol
    obtain ⟨large, hlarge, hsegs⟩ := exists_of_bind_eq_ok hsegs
    cases large with
    | true =>
      cases hsegs
      refine ⟨by simp [hsymbols], fun first last => ?_⟩
      rw [hgap first last, List.mem_append, List.mem_singleton]
      have := isLarge_eq_true.mp hlarge
      grind
    | false =>
      have hclosed : ¬ Visible s minSize after s.lineCount := by
        rw [← isLarge_eq_true, hlarge]
        simp
      simp only [Bool.not_false, Bool.true_and, List.isEmpty_eq_false_iff.mpr hfne, if_true] at hsegs
      cases hsegs
      refine ⟨by rw [filterMap_extendLast, hsymbols], fun first last => ?_⟩
      rw [hgap first last, gap_mem_extendLast howned]
      grind
  · next hgt =>
    cases hsegs
    refine ⟨hsymbols, fun first last => ?_⟩
    rw [hgap first last]
    grind

/-! ## Classes -/

/-- The lines that members of a class get, from `cursor` on: each up to its own end, the last one up to the
end of the class. -/
def memberParts (last : Nat) : (cursor : Nat) → List Symbol → List Segment
  | _, [] => []
  | cursor, [m] => [⟨cursor, last, some m⟩]
  | cursor, m :: next :: rest =>
    let stop := min (max m.endLine cursor) (max (next.startLine - 1) cursor)
    ⟨cursor, stop, some m⟩ :: if last < stop + 1 then [] else memberParts last (stop + 1) (next :: rest)

/-- The lines that the head of a class and then its members get. -/
def classParts (first last : Nat) (members : List Symbol) : List Segment :=
  let headerEnd := max ((members.head?.map (·.startLine - 1)).getD 0) first
  ⟨first, headerEnd, none⟩ :: if last ≤ headerEnd then [] else memberParts last (headerEnd + 1) members

/-- Members that follow each other and start in a class pass on its lines, each with its own among them. -/
theorem memberParts_owned {last bound prev cursor : Nat} {members : List Symbol} (hne : members ≠ [])
    (hcursor : ∀ m ∈ members.head?, cursor ≤ m.startLine) (hapart : Apart bound prev members)
    (hbound : ∀ m ∈ members, m.endLine ≤ bound)
    (hlast : ∀ m ∈ members, m.startLine ≤ last ∧ min m.endLine n ≤ last) :
    Parts cursor (last + 1) (memberParts last cursor members) ∧
      (memberParts last cursor members).map (·.symbol) = members.map some ∧
      ∀ part ∈ memberParts last cursor members, Holds n part := by
  induction members generalizing cursor prev with
  | nil => exact absurd rfl hne
  | cons m rest ih =>
    have hm : cursor ≤ m.startLine := hcursor m rfl
    obtain ⟨hml, hmn⟩ := hlast m List.mem_cons_self
    obtain ⟨-, hstart, hend, hrest⟩ := hapart
    cases rest with
    | nil =>
      rw [memberParts]
      refine ⟨⟨rfl, by simp only; omega, rfl⟩, rfl, fun part hpart => ?_⟩
      obtain rfl := List.mem_singleton.mp hpart
      rintro sym ⟨⟩
      exact ⟨hm, hml, hmn⟩
    | cons next rest =>
      have hme := hbound m List.mem_cons_self
      have hnext := hrest.1
      have hnl := (hlast next (by simp)).1
      -- the member ends before the next one starts
      have hstop : min (max m.endLine cursor) (max (next.startLine - 1) cursor) = m.endLine := by omega
      obtain ⟨hparts, hsymbols, hholds⟩ := @ih _ (m.endLine + 1) (by simp)
        (fun k hk => by cases hk; omega) hrest (fun k hk => hbound k (List.mem_cons_of_mem _ hk))
        fun k hk => hlast k (List.mem_cons_of_mem _ hk)
      rw [memberParts]
      simp only [hstop]
      rw [if_neg (by omega)]
      refine ⟨⟨rfl, by simp only; omega, hparts⟩, by simp [hsymbols], fun part hpart => ?_⟩
      rcases List.mem_cons.mp hpart with rfl | hpart
      · rintro sym ⟨⟩
        exact ⟨hm, hend, Nat.min_le_left _ _⟩
      · exact hholds part hpart

/-- The segment of a class is parted into its head and its members. -/
theorem classParts_owned {seg : Segment} {owner : Symbol} (hplaced : ∀ sym ∈ symbols, sym.Placed n)
    (hseg : seg.symbol = some owner) (hholds : Holds n seg) (hne : members symbols owner ≠ []) :
    Parts seg.first (seg.last + 1) (classParts seg.first seg.last (members symbols owner)) ∧
      (classParts seg.first seg.last (members symbols owner)).map (·.symbol) =
        none :: (members symbols owner).map some ∧
      ∀ part ∈ classParts seg.first seg.last (members symbols owner), Holds n part := by
  obtain ⟨hfirst, hstart, hlast⟩ := hholds owner hseg
  have hapart := @members_apart symbols owner fun sym hsym => (hplaced sym hsym).start_le_end
  have hmem : ∀ m ∈ members symbols owner, owner.startLine < m.startLine ∧ m.endLine ≤ owner.endLine ∧
      m.startLine ≤ seg.last ∧ min m.endLine n ≤ seg.last := by
    intro m hm
    obtain ⟨hsym, hbehind, hend⟩ := mem_members hm
    have := (hplaced m hsym).start_le_end
    have := (hplaced m hsym).start_le
    omega
  generalize members symbols owner = ms at *
  obtain ⟨m, rest, rfl⟩ := List.exists_cons_of_ne_nil hne
  obtain ⟨hm, -, hml, -⟩ := hmem m List.mem_cons_self
  have hheader : max (((m :: rest).head?.map (·.startLine - 1)).getD 0) seg.first = m.startLine - 1 := by
    simp only [List.head?_cons, Option.map_some, Option.getD_some]
    omega
  obtain ⟨hparts, hsymbols, hholds'⟩ := memberParts_owned (n := n) hne
    (fun k hk => by cases hk; omega : ∀ k ∈ (m :: rest).head?, m.startLine - 1 + 1 ≤ k.startLine) hapart
    (fun k hk => (hmem k hk).2.1) fun k hk => (hmem k hk).2.2
  unfold classParts
  simp only [hheader]
  rw [if_neg (by omega)]
  refine ⟨⟨rfl, by simp only; omega, hparts⟩, by rw [List.map_cons, hsymbols], fun part hpart => ?_⟩
  rcases List.mem_cons.mp hpart with rfl | hpart
  · rintro sym ⟨⟩
  · exact hholds' part hpart

end Layout

namespace Job

/-- The chunks of one part of a class: its head where no member has the lines. -/
def classPart (j : Job) (owner : Symbol) (members : List Symbol) (part : Layout.Segment) :
    Except Source.Fault (List Draft) :=
  let classId := j.path ++ ":" ++ owner.name
  part.symbol.elim (j.headDrafts owner members classId part.first part.last) fun m =>
    j.symbolDrafts { m with kind := "method", parent := some owner.name } part.first part.last (some classId)

theorem flatten_mapM_cons {α ε : Type} {f : α → Except ε (List Draft)} (a : α) (as : List α) :
    ((a :: as).mapM f).map List.flatten =
      (f a).bind fun own => ((as.mapM f).map List.flatten).map (own ++ ·) := by
  rw [List.mapM_cons]
  cases f a with
  | error fault => rfl
  | ok own => cases as.mapM f <;> rfl

/-- The chunks of the members are those of their parts. -/
theorem memberDrafts_eq (j : Job) (owner : Symbol) (all : List Symbol) (last cursor : Nat)
    (members : List Symbol) :
    j.memberDrafts owner (j.path ++ ":" ++ owner.name) last cursor members =
      ((Layout.memberParts last cursor members).mapM (j.classPart owner all)).map List.flatten := by
  induction members generalizing cursor with
  | nil => rfl
  | cons m rest ih =>
    cases rest with
    | nil =>
      simp only [memberDrafts, Layout.memberParts, flatten_mapM_cons, classPart, Option.elim_some,
        Nat.lt_add_one, if_true]
      cases j.symbolDrafts { m with kind := "method", parent := some owner.name } cursor last _ with
      | error fault => rfl
      | ok own => simp [bind, Except.bind, pure, Except.pure, Except.map]
    | cons next rest =>
      rw [memberDrafts, Layout.memberParts]
      generalize min (max m.endLine cursor) (max (next.startLine - 1) cursor) = stop
      simp only [flatten_mapM_cons, ih]
      rw [show j.classPart owner all ⟨cursor, stop, some m⟩ = j.symbolDrafts
        { m with kind := "method", parent := some owner.name } cursor stop
        (some (j.path ++ ":" ++ owner.name)) from rfl]
      cases j.symbolDrafts { m with kind := "method", parent := some owner.name } cursor stop _ with
      | error fault => rfl
      | ok own =>
        simp only [bind, Except.bind]
        split
        · simp [pure, Except.pure, Except.map]
        · cases ((Layout.memberParts last (stop + 1) (next :: rest)).mapM (j.classPart owner all)) <;> rfl

/-- The chunks of a class are those of its head and of its members' parts. -/
theorem classDrafts_eq (j : Job) (owner : Symbol) (members : List Symbol) (first last : Nat) :
    j.classDrafts owner members first last =
      ((Layout.classParts first last members).mapM (j.classPart owner members)).map List.flatten := by
  unfold classDrafts Layout.classParts
  simp only [flatten_mapM_cons, memberDrafts_eq j owner members]
  generalize max ((members.head?.map (·.startLine - 1)).getD 0) first = headerEnd
  rw [show j.classPart owner members ⟨first, headerEnd, none⟩ = j.headDrafts owner members
    (j.path ++ ":" ++ owner.name) first headerEnd from rfl]
  cases j.headDrafts owner members (j.path ++ ":" ++ owner.name) first headerEnd with
  | error fault => rfl
  | ok head =>
    simp only [bind, Except.bind]
    split
    · simp [pure, Except.pure, Except.map]
    · cases (Layout.memberParts last (headerEnd + 1) members).mapM (j.classPart owner members) <;> rfl

end Job

namespace Layout

/-- Every line of a file has one owner: among the symbols, the gaps and, inside a class, its members. -/
theorem lines_owned (text : String) (symbols : List Symbol) (minSize : Nat) (hne : symbols ≠ [])
    (hplaced : ∀ sym ∈ symbols, sym.Placed (Source.ofString text).lineCount) :
    let s := Source.ofString text
    let top := outermost symbols s.lineCount
    Kept s.lineCount symbols top ∧
    ∃ segs, segments s top s.lineCount minSize = .ok segs ∧ Owned s minSize s.lineCount top segs ∧
      ∀ j : Job, j.settings.strategy = .hierarchical → ∀ seg ∈ segs, ∀ owner,
        seg.symbol = some owner → ChunkKind.ofSymbolKind owner.kind = .classLike →
        let direct := members symbols owner
        let parts := classParts seg.first seg.last direct
        direct ≠ [] →
        (∀ index, j.segmentDrafts symbols index seg =
          (parts.mapM (j.classPart owner direct)).map List.flatten) ∧
        Parts seg.first (seg.last + 1) parts ∧ parts.map (·.symbol) = none :: direct.map some ∧
        ∀ part ∈ parts, Holds s.lineCount part := by
  intro s top
  have hkept := outermost_kept hplaced
  obtain ⟨sym, hsym⟩ := List.exists_mem_of_ne_nil symbols hne
  have hn : 1 ≤ s.lineCount := Nat.le_trans (hplaced sym hsym).one_le (hplaced sym hsym).start_le
  have h0 : 0 < s.size := by
    refine Nat.pos_of_ne_zero fun h => ?_
    rw [Source.lineCount, if_pos h] at hn
    omega
  have htop : top ≠ [] := by
    intro htop
    obtain ⟨rest, hperm, hrest⟩ := hkept.others
    rw [show outermost symbols (Source.ofString text).lineCount = [] from htop] at hperm hrest
    obtain ⟨k, hk, -⟩ := hrest sym (hperm.mem_iff.mpr hsym)
    cases hk
  obtain ⟨segs, hsegs, howned⟩ := segments_owned (Source.intact_ofString text) h0 minSize
    (outermost_apart fun sym hsym => (hplaced sym hsym).start_le_end) htop
  refine ⟨hkept, segs, hsegs, howned, ?_⟩
  intro j hstrategy seg hseg owner howner hclass direct parts hdirect
  refine ⟨fun index => ?_, classParts_owned hplaced howner (howned.holds seg hseg) hdirect⟩
  rw [← Job.classDrafts_eq]
  unfold Job.segmentDrafts
  simp only [howner, hstrategy, hclass, decide_true, Bool.and_self, if_true]
  rw [if_neg (by simpa using hdirect)]

/-- A class with two members between module code, and a function that goes past the end of the file. -/
theorem lines_owned_class :
    let text := "import os\n\nclass A:\n  x = 1\n  def f(s): 1\n\n  def g(s):\n    2\n\ndef h(): 3\n"
    let s := Source.ofString text
    let a : Symbol := ⟨"A", "class", "a.py", 3, 8, none⟩
    let f : Symbol := ⟨"f", "method", "a.py", 5, 5, some "A"⟩
    let g : Symbol := ⟨"g", "method", "a.py", 7, 8, some "A"⟩
    let h : Symbol := ⟨"h", "function", "a.py", 10, 99, none⟩
    let segs : List Segment := [⟨1, 2, none⟩, ⟨3, 8, some a⟩, ⟨9, 10, some h⟩]
    outermost [a, f, g, h] s.lineCount = [a, h] ∧ segments s [a, h] s.lineCount 8 = .ok segs ∧
      members [a, f, g, h] a = [f, g] ∧
      classParts 3 8 [f, g] = [⟨3, 4, none⟩, ⟨5, 5, some f⟩, ⟨6, 8, some g⟩] ∧
      Kept s.lineCount [a, f, g, h] [a, h] ∧ Owned s 8 s.lineCount [a, h] segs ∧
      ∀ j : Job, j.settings.strategy = .hierarchical →
        j.segmentDrafts [a, f, g, h] 0 ⟨3, 8, some a⟩ =
          ((classParts 3 8 [f, g]).mapM (j.classPart a [f, g])).map List.flatten := by
  intro text s a f g h segs
  have hlines : s.lineCount = 10 := by decide +kernel
  have hplaced : ∀ sym ∈ [a, f, g, h], sym.Placed s.lineCount := by
    rw [hlines]
    intro sym hsym
    simp only [List.mem_cons, List.not_mem_nil, or_false] at hsym
    rcases hsym with rfl | rfl | rfl | rfl <;> exact ⟨by decide, by decide, by decide⟩
  have htop : outermost [a, f, g, h] s.lineCount = [a, h] := by
    rw [hlines]
    dsimp only [outermost]
    rw [List.mergeSort_of_pairwise] <;> decide
  have hmembers : members [a, f, g, h] a = [f, g] := by
    dsimp only [members, outermost]
    rw [List.mergeSort_of_pairwise] <;> decide
  have hsegs : segments s [a, h] s.lineCount 8 = .ok segs := by decide +kernel
  obtain ⟨hkept, segs', hsegs', howned, hclass⟩ := lines_owned text [a, f, g, h] 8 (List.cons_ne_nil _ _) hplaced
  rw [htop] at hkept hsegs' howned
  cases hsegs.symm.trans hsegs'
  refine ⟨htop, hsegs, hmembers, by decide, hkept, howned, fun j hj => ?_⟩
  have hparts := hclass j hj ⟨3, 8, some a⟩ (by decide) a rfl (by decide)
  rw [hmembers] at hparts
  exact (hparts (List.cons_ne_nil _ _)).1 0

end Layout

end CodeIndex
