import CodeIndex.Proofs.Chunk.Plan
import CodeIndex.Proofs.Except

/-!
# Symbols that go past the end of the file

The ends of outermost symbols are taken to lie in the file. Those of the members of a class are not: a member, or the
head before the first one, may get lines that the file does not have. Cut into windows, such lines end with the file.
As one chunk they are given with a last line that is not there, and a header or a body that starts behind the file
cannot be cut at all (`Job.Strays`). So all chunks lie on lines of the file exactly if every part of a class that goes
past its end is cut into windows from a line inside, and no window fails for its budget (`lines_inside_iff`).
-/

namespace CodeIndex

namespace Job

variable {j : Job}

/-! ## Parts that stray -/

/-- What fails, or gives a chunk with a last line behind the file. -/
def Strays (j : Job) (drafts : Except Source.Fault (List Draft)) : Prop :=
  ∀ ds, drafts = .ok ds → ∃ d ∈ ds, d.chunk.kind.isSummary = false ∧ j.source.lineCount < d.chunk.lineEnd

/-- A whole range of lines is given with its own last line, whether the file has it or not. -/
theorem wholeLines_lineEnd {id : String} {kind : ChunkKind} {first last : Nat} {d : Draft}
    (h : j.wholeLines id kind first last = .ok d) : d.chunk.lineEnd = max last first ∧ d.chunk.kind = kind := by
  obtain ⟨⟨start, stop⟩, -, hd⟩ := exists_of_bind_eq_ok h
  cases hd
  exact ⟨rfl, rfl⟩

theorem windowedLines_fault (h0 : 0 < j.source.size) {sym : Symbol} {lineCount : Nat} {id mark : String}
    {kind : ChunkKind} {first last : Nat} (hle : first ≤ last) (hn : j.source.lineCount < first) :
    j.windowedLines sym lineCount id mark kind first last = .error .outOfRange := by
  rw [windowedLines, if_pos hle, Source.span_of_lt h0 last hn]
  rfl

/-- A split symbol strays whose header does not end before the last line of the file. -/
theorem splitBody_strays (h0 : 0 < j.source.size) (sym : Symbol) (id : String) (parent : Option String)
    {first last : Nat} (hn : j.source.lineCount < last) (hhead : j.source.lineCount ≤ headerEnd sym first last) :
    j.Strays (j.splitBody sym id first last parent) := by
  intro ds hds
  unfold splitBody at hds
  rw [show min (max sym.startLine first) last = headerEnd sym first last from rfl] at hds
  have hstop : headerEnd sym first last ≤ last := Nat.min_le_right _ _
  generalize headerEnd sym first last = stop at hhead hstop hds
  obtain ⟨start, -, hds⟩ := exists_of_bind_eq_ok hds
  obtain ⟨lead, -, hds⟩ := exists_of_bind_eq_ok hds
  obtain ⟨header, hheader, hds⟩ := exists_of_bind_eq_ok hds
  obtain ⟨body, hbody, hds⟩ := exists_of_bind_eq_ok hds
  cases hds
  obtain ⟨hend, hkind⟩ := wholeLines_lineEnd hheader
  rcases Nat.eq_or_lt_of_le hhead with heq | hlt
  · -- the body would start right behind the file
    rw [windowedLines_fault h0 (by omega) (by omega)] at hbody
    cases hbody
  · have hmark := markOversized_place
      ⟨0, 0, decide (j.settings.maxChars < header.stop - header.start)⟩
      (dress sym (last - first + 1) parent header.chunk)
    have hdress := keeps_dress sym (last - first + 1) parent
    refine ⟨_, List.mem_append_left _ (List.mem_append_right _ List.mem_cons_self), ?_, ?_⟩
    · exact ((hmark.2.2.trans (hdress.kind _)).trans hkind) ▸ rfl
    · exact (by omega : j.source.lineCount < header.chunk.lineEnd).trans_eq
        (hmark.2.1.trans (hdress.lineEnd _)).symm

/-- Lines past the end of the file as one chunk. -/
theorem wholeLines_strays {id : String} {kind : ChunkKind} {first last : Nat} {f : Chunk → Chunk}
    (hkind : kind.isSummary = false) (hf : Chunk.Keeps f) (hn : j.source.lineCount < last) :
    j.Strays (do return [(← j.wholeLines id kind first last).map f]) := by
  intro ds hds
  obtain ⟨d, hd, hds⟩ := exists_of_bind_eq_ok hds
  cases hds
  obtain ⟨hend, rfl⟩ := wholeLines_lineEnd hd
  refine ⟨_, List.mem_cons_self, ?_, ?_⟩
  · simp only [Draft.map, hf.kind, hkind]
  · simp only [Draft.map, hf.lineEnd]
    omega

theorem symbolDrafts_strays (h0 : 0 < j.source.size) (sym : Symbol) (parent : Option String) {first last : Nat}
    (h1 : 1 ≤ first) (hfirst : first ≤ j.source.lineCount) (hn : j.source.lineCount < last)
    (hout : ¬j.Contained (some sym) first last) : j.Strays (j.symbolDrafts sym first last parent) := by
  rw [symbolDrafts_eq h0 sym parent last h1 hfirst]
  simp only [Contained] at hout
  cases hsplit : j.splits first last with
  | true =>
    rw [hsplit, if_pos rfl] at hout
    exact splitBody_strays h0 sym _ parent hn (Nat.le_of_not_lt hout)
  | false =>
    rw [hsplit, if_neg Bool.false_ne_true] at hout
    rw [if_neg Bool.false_ne_true, if_pos (Nat.le_of_not_lt hout)]
    exact wholeLines_strays (ChunkKind.isSummary_ofSymbolKind sym.kind)
      (keeps_dress sym (last - first + 1) parent) hn

theorem headDrafts_strays (h0 : 0 < j.source.size) (owner : Symbol) (members : List Symbol) (classId : String)
    {first last : Nat} (h1 : 1 ≤ first) (hfirst : first ≤ j.source.lineCount) (hn : j.source.lineCount < last)
    (hout : ¬j.Contained none first last) : j.Strays (j.headDrafts owner members classId first last) := by
  simp only [headDrafts, lineSize_extent h0 last h1 hfirst]
  simp only [bind, Except.bind]
  rw [if_pos (Nat.le_of_not_lt hout)]
  exact wholeLines_strays rfl (keeps_dressHead owner members) hn

theorem classPart_strays (h0 : 0 < j.source.size) (owner : Symbol) (members : List Symbol) {part : Layout.Segment}
    (h1 : 1 ≤ part.first) (hfirst : part.first ≤ j.source.lineCount) (hn : j.source.lineCount < part.last)
    (hout : ¬j.Contained part.symbol part.first part.last) : j.Strays (j.classPart owner members part) := by
  obtain ⟨first, last, sym⟩ := part
  cases sym with
  | none => exact headDrafts_strays h0 owner members _ h1 hfirst hn hout
  | some m =>
    exact symbolDrafts_strays h0 { m with kind := "method", parent := some owner.name } _ h1 hfirst hn hout

/-! ## One part strays, and so does the file -/

theorem strays_mapM {α : Type} {f : α → Except Source.Fault (List Draft)} {as : List α} {a : α} (ha : a ∈ as)
    (h : j.Strays (f a)) : j.Strays ((as.mapM f).map List.flatten) := by
  intro ds hds
  obtain ⟨dss, hdss, rfl⟩ := exists_of_map_eq_ok hds
  obtain ⟨own, hown, hfa⟩ := exists_result_of_mapM hdss ha
  obtain ⟨d, hd, hout⟩ := h own hfa
  exact ⟨d, List.mem_flatten.mpr ⟨own, hown, hd⟩, hout⟩

theorem segmentDrafts_strays (h0 : 0 < j.source.size) {symbols : List Symbol} {seg part : Layout.Segment}
    (index : Nat) (h1 : 1 ≤ seg.first) (hle : seg.first ≤ seg.last) (hn : seg.last ≤ j.source.lineCount)
    (hpart : part ∈ j.cutParts symbols seg)
    (hout : ¬(part.last ≤ j.source.lineCount ∨ j.Contained part.symbol part.first part.last)) :
    j.Strays (j.segmentDrafts symbols index seg) := by
  rw [not_or, Nat.not_le] at hout
  cases hsym : seg.symbol with
  | none =>
    rw [cutParts, hsym] at hpart
    cases hpart
  | some sym =>
    rcases @segmentDrafts_cases j symbols seg sym hsym with ⟨hparts, -⟩ | ⟨-, hparts, hdrafts⟩
    · rw [hparts] at hpart
      cases hpart
    · have hbounds := Layout.classParts_bounds hle (hparts ▸ hpart)
      rw [hdrafts]
      exact strays_mapM hpart (classPart_strays h0 sym _ (by omega) (by omega) hout.1 hout.2)

theorem segmentsDrafts_strays {symbols : List Symbol} {segs : List Layout.Segment} {seg : Layout.Segment}
    (hseg : seg ∈ segs) (h : ∀ index, j.Strays (j.segmentDrafts symbols index seg)) (index : Nat) :
    j.Strays (j.segmentsDrafts symbols index segs) := by
  induction segs generalizing index with
  | nil => cases hseg
  | cons first rest ih =>
    intro ds hds
    rw [segmentsDrafts] at hds
    obtain ⟨own, hown, hds⟩ := exists_of_bind_eq_ok hds
    obtain ⟨more, hmore, hds⟩ := exists_of_bind_eq_ok hds
    cases hds
    rcases List.mem_cons.mp hseg with rfl | hseg
    · obtain ⟨d, hd, hout⟩ := h index own hown
      exact ⟨d, List.mem_append_left _ hd, hout⟩
    · obtain ⟨d, hd, hout⟩ := ih hseg _ more hmore
      exact ⟨d, List.mem_append_right _ hd, hout⟩

/-- Cutting a draft gives a chunk of its kind on its lines. -/
theorem exists_chunk_of_draft {s : Source} {drafts : List Draft} {cut : List Chunk}
    (h : drafts.mapM (Draft.cut s) = .ok cut) {d : Draft} (hd : d ∈ drafts) :
    ∃ c ∈ cut, c.kind = d.chunk.kind ∧ c.lineEnd = d.chunk.lineEnd := by
  obtain ⟨c, hc, hcut⟩ := exists_result_of_mapM h hd
  obtain ⟨text, -, hcut⟩ := exists_of_bind_eq_ok hcut
  cases hcut
  exact ⟨_, hc, rfl, rfl⟩

end Job

/-! ## Inside the file -/

/-- A chunk on lines of a file with `n` lines. -/
structure Chunk.OnLinesOf (n : Nat) (c : Chunk) : Prop where
  one_le : 1 ≤ c.lineStart
  start_le_end : c.lineStart ≤ c.lineEnd
  end_le : c.lineEnd ≤ n

theorem Chunk.TakenFrom.onLinesOf {s : Source} (hs : s.Intact) {place : Nat × Nat} {c : Chunk}
    (h : c.TakenFrom s place) : c.OnLinesOf s.lineCount := by
  have hlt := h.nonempty
  have hstop := (Source.toByteArray_of_slice? h.content).2.2
  refine ⟨?_, ?_, ?_⟩
  · rw [h.lineStart]
    exact s.one_le_lineAt _
  · rw [h.lineStart, h.lineEnd]
    exact s.lineAt_mono (by omega)
  · rw [h.lineEnd]
    exact hs.lineAt_le (by omega) _

theorem Job.Planned.onLinesOf {j : Job} (hs : j.source.Intact) {plan : List Stretch} {chunks : List Chunk}
    (h : j.Planned plan chunks) {c : Chunk} (hc : c ∈ chunks) (hcut : c.kind.isSummary = false) :
    c.OnLinesOf j.source.lineCount := by
  obtain ⟨summaries, cut, rfl, hsum, htaken⟩ := h
  rcases List.mem_append.mp hc with hc | hc
  · rw [hsum c hc] at hcut
    cases hcut
  · obtain ⟨place, -, hplace⟩ := exists_of_forall₂ htaken hc
    exact hplace.onLinesOf hs

/-- Whether all chunks that are cut from a file lie on its lines: exactly if every part of a class that goes past the
end of the file is contained in it, and all sums of windows with the budget are words. -/
theorem lines_inside_iff (settings : ChunkSettings) (content path language : String) (symbols : List Symbol)
    (imports : List Import) (hsyms : ∀ sym ∈ symbols, 1 ≤ sym.startLine ∧ sym.startLine ≤ sym.endLine) :
    let j : Job := ⟨settings, .ofString content, path, language⟩
    let n := j.source.lineCount
    (∃ chunks, j.chunkSymbols symbols imports = .ok chunks ∧
      ∀ c ∈ chunks, c.kind.isSummary = false → c.OnLinesOf n) ↔
    (∀ seg ∈ j.segmentsOf symbols, ∀ part ∈ j.cutParts symbols seg,
      part.last ≤ n ∨ j.Contained part.symbol part.first part.last) ∧ j.SumsInRange (j.symbolsPlan symbols) := by
  intro j n
  have hs : j.source.Intact := Source.intact_ofString content
  have hends : ∀ sym ∈ symbols, sym.startLine ≤ sym.endLine := fun sym hsym => (hsyms sym hsym).2
  constructor
  · rintro ⟨chunks, hchunks, hlines⟩
    refine (and_iff_left_of_imp fun hin => ?_).mpr fun seg hseg part hpart => ?_
    · obtain ⟨planned, -, hplanned⟩ := Job.chunkSymbols_planned hs imports hends hin
      exact (Window.checked_eq_ok_iff.mp (hplanned.symm.trans hchunks)).1
    by_contra hout
    rcases Job.chunkSymbols_cases hs imports hends with ⟨hnone, -⟩ | ⟨h0, -, hbounds, summaries, -, hcases⟩
    · rw [hnone] at hseg
      cases hseg
    · obtain ⟨h1, hle, hn, -⟩ := hbounds seg hseg
      have hstrays := Job.segmentsDrafts_strays hseg
        (fun index => Job.segmentDrafts_strays h0 index h1 hle hn hpart hout) 0
      rw [hcases] at hchunks
      obtain ⟨drafts, hdrafts, hchunks⟩ := exists_of_bind_eq_ok hchunks
      obtain ⟨cut, hcut, hchunks⟩ := exists_of_bind_eq_ok hchunks
      cases hchunks
      obtain ⟨d, hd, hkind, hbehind⟩ := hstrays drafts hdrafts
      obtain ⟨c, hc, hckind, hcend⟩ := Job.exists_chunk_of_draft hcut hd
      have hinside := (hlines c (List.mem_append_right _ hc) (hckind ▸ hkind)).end_le
      omega
  · rintro ⟨hin, hsums⟩
    obtain ⟨chunks, hplanned, hchunks⟩ := Job.chunkSymbols_planned hs imports hends hin
    exact ⟨chunks, hchunks.trans (Window.checked_of hsums), fun c hc hcut => hplanned.onLinesOf hs hc hcut⟩

/-- A method that goes past the end of the file by a line is split, and its body ends with the file. -/
theorem lines_inside_iff_long_method :
    let settings : ChunkSettings := { strategy := .hierarchical, largeSymbol := 1 }
    let j : Job := ⟨settings, .ofString "class A:\n  def f():\n    1\n", "a.py", "python"⟩
    let a : Symbol := ⟨"A", "class", "a.py", 1, 9, none⟩
    let f : Symbol := ⟨"f", "function", "a.py", 2, 4, none⟩
    let g : Symbol := ⟨"g", "function", "a.py", 5, 6, none⟩
    (∀ sym ∈ [a, f, g], 1 ≤ sym.startLine ∧ sym.startLine ≤ sym.endLine) ∧ j.source.lineCount = 3 ∧
      j.segmentsOf [a, f, g] = [⟨1, 3, some a⟩] ∧
      j.cutParts [a, f, g] ⟨1, 3, some a⟩ = [⟨1, 1, none⟩, ⟨2, 4, some f⟩] ∧ j.SumsInRange (j.symbolsPlan [a, f, g]) ∧
      ∃ chunks, j.chunkSymbols [a, f, g] [] = .ok chunks ∧
        ∀ c ∈ chunks, c.kind.isSummary = false → c.OnLinesOf 3 := by
  intro settings j a f g
  have hsyms : ∀ sym ∈ [a, f, g], 1 ≤ sym.startLine ∧ sym.startLine ≤ sym.endLine := by decide
  have hlines : j.source.lineCount = 3 := by decide +kernel
  have htop : Layout.outermost [a, f, g] 3 = [a] := by
    dsimp only [Layout.outermost]
    rw [List.mergeSort_of_pairwise] <;> decide
  have hmembers : Layout.members [a, f, g] a = [f, g] := by
    dsimp only [Layout.members, Layout.outermost]
    rw [List.mergeSort_of_pairwise] <;> decide
  have hsegs : j.segmentsOf [a, f, g] = [⟨1, 3, some a⟩] := by
    unfold Job.segmentsOf
    rw [hlines, htop]
    decide +kernel
  have hparts : j.cutParts [a, f, g] ⟨1, 3, some a⟩ = [⟨1, 1, none⟩, ⟨2, 4, some f⟩] := by
    simp only [Job.cutParts, hmembers]
    decide
  have hsums : j.SumsInRange (j.symbolsPlan [a, f, g]) := by
    have hplan : j.symbolsPlan [a, f, g] = j.segmentPlan [a, f, g] ⟨1, 3, some a⟩ := by
      rw [Job.symbolsPlan, hlines, htop, if_neg (by decide), hsegs, List.flatMap_singleton]
    rw [hplan]
    simp only [Job.segmentPlan, hparts]
    decide +kernel
  refine ⟨hsyms, hlines, hsegs, hparts, hsums, ?_⟩
  have hinside := (lines_inside_iff settings "class A:\n  def f():\n    1\n" "a.py" "python" [a, f, g] [] hsyms).mpr
  rw [show (Source.ofString "class A:\n  def f():\n    1\n").lineCount = 3 from hlines] at hinside
  refine hinside ⟨fun seg hseg part hpart => ?_, hsums⟩
  obtain rfl := List.mem_singleton.mp (hsegs ▸ hseg)
  rw [show Job.cutParts _ [a, f, g] _ = _ from hparts] at hpart
  simp only [List.mem_cons, List.not_mem_nil, or_false] at hpart
  rcases hpart with rfl | rfl
  · exact .inl (by decide)
  · refine .inr ?_
    change if j.splits 2 4 then Job.headerEnd f 2 4 < j.source.lineCount else settings.maxChars < j.extent 2 4
    rw [hlines, if_pos (by decide)]
    decide

/-- Where the file ends with the first line of the method, a split method has a body behind the file, which cannot be
cut, and one that is not split is given with a last line that the file does not have. -/
theorem method_behind_file_strays :
    let j (largeSymbol : Nat) : Job :=
      ⟨{ strategy := .hierarchical, largeSymbol, fileSummary := false }, .ofString "class A:\n  def f(): 1\n", "a.py",
        "python"⟩
    let a : Symbol := ⟨"A", "class", "a.py", 1, 9, none⟩
    let f : Symbol := ⟨"f", "function", "a.py", 2, 4, none⟩
    let g : Symbol := ⟨"g", "function", "a.py", 5, 6, none⟩
    (j 1).chunkSymbols [a, f, g] [] = .error .outOfRange ∧ (j 30).source.lineCount = 2 ∧
      ((j 30).chunkSymbols [a, f, g] []).map (List.map fun c => (c.id, c.lineStart, c.lineEnd)) =
        .ok [("a.py:A", 1, 1), ("a.py:A.f", 2, 4)] := by
  intro j a f g
  have hlines : (Source.ofString "class A:\n  def f(): 1\n").lineCount = 2 := by decide +kernel
  have htop : Layout.outermost [a, f, g] 2 = [a] := by
    dsimp only [Layout.outermost]
    rw [List.mergeSort_of_pairwise] <;> decide
  have hmembers : Layout.members [a, f, g] a = [f, g] := by
    dsimp only [Layout.members, Layout.outermost]
    rw [List.mergeSort_of_pairwise] <;> decide
  have hclass : ∀ largeSymbol, (j largeSymbol).chunkSymbols [a, f, g] [] = (do
      let drafts ← (j largeSymbol).classDrafts a [f, g] 1 2
      drafts.mapM (Draft.cut (j largeSymbol).source)) := by
    intro largeSymbol
    have hdrafts : (j largeSymbol).segmentDrafts [a, f, g] 0 ⟨1, 2, some a⟩ =
        (j largeSymbol).classDrafts a [f, g] 1 2 := by
      simp only [Job.segmentDrafts, hmembers]
      rfl
    have hsegs : Layout.segments (j largeSymbol).source [a] 2 (j largeSymbol).settings.minSize =
        .ok [⟨1, 2, some a⟩] := by
      change Layout.segments (Source.ofString "class A:\n  def f(): 1\n") [a] 2 50 = _
      decide +kernel
    have hall : (j largeSymbol).segmentsDrafts [a, f, g] 0 [⟨1, 2, some a⟩] =
        (j largeSymbol).classDrafts a [f, g] 1 2 := by
      rw [Job.segmentsDrafts, hdrafts]
      cases (j largeSymbol).classDrafts a [f, g] 1 2 with
      | error fault => rfl
      | ok ds => simp [Job.segmentsDrafts, bind, Except.bind, pure, Except.pure]
    simp only [Job.chunkSymbols, show (j largeSymbol).source.lineCount = 2 from hlines, htop, hsegs, bind, Except.bind]
    rw [if_neg (by decide), if_neg (by decide), hall]
    cases (j largeSymbol).classDrafts a [f, g] 1 2 with
    | error fault => rfl
    | ok ds =>
      dsimp only
      cases ds.mapM (Draft.cut (j largeSymbol).source) <;> rfl
  refine ⟨?_, hlines, ?_⟩
  · rw [hclass]
    decide +kernel
  · rw [hclass]
    decide +kernel

end CodeIndex
