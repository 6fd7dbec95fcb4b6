import CodeIndex.Chunk.Symbols
import CodeIndex.Proofs.Chunk.Layout
import CodeIndex.Proofs.Chunk.Window
import CodeIndex.Proofs.Dict

/-!
# What the drafts of a file cut

A draft is sound (`Draft.Sound`) when it names a non-empty slice of the source with the lines of its
first and last octet, and the slice fits the budget, is a single character, or is flagged as one whole
line that is too long. Drafts are `Drafted` between two offsets when all are sound and, with enough
pieces allowed, they span the text in between. Each function that drafts chunks has one lemma: it
does not fail on lines of the file, and its drafts are `Drafted` between the ends of those lines.
-/

namespace CodeIndex

theorem ChunkKind.isSummary_ofSymbolKind (kind : String) : (ofSymbolKind kind).isSummary = false := by
  unfold ofSymbolKind
  split
  · rfl
  · split <;> rfl

/-! ## Flags -/

namespace Chunk

theorem isOversized_note (c : Chunk) (key value : String) :
    (c.note key value).isOversized =
      if "oversized" = key then decide (value = "true") else c.isOversized := by
  unfold isOversized note
  simp only [Dict.lookup_put]
  split <;> simp

/-- A change that leaves the lines, the kind and the flag alone. -/
structure Keeps (f : Chunk → Chunk) : Prop where
  lineStart : ∀ c, (f c).lineStart = c.lineStart
  lineEnd : ∀ c, (f c).lineEnd = c.lineEnd
  kind : ∀ c, (f c).kind = c.kind
  isOversized : ∀ c, (f c).isOversized = c.isOversized

theorem Keeps.comp {f g : Chunk → Chunk} (hf : Keeps f) (hg : Keeps g) : Keeps fun c => f (g c) where
  lineStart c := (hf.lineStart _).trans (hg.lineStart c)
  lineEnd c := (hf.lineEnd _).trans (hg.lineEnd c)
  kind c := (hf.kind _).trans (hg.kind c)
  isOversized c := (hf.isOversized _).trans (hg.isOversized c)

theorem keeps_id : Keeps fun c => c := ⟨fun _ => rfl, fun _ => rfl, fun _ => rfl, fun _ => rfl⟩

theorem keeps_note (key value : String) (h : "oversized" ≠ key) :
    Keeps (·.note key value) where
  lineStart _ := rfl
  lineEnd _ := rfl
  kind _ := rfl
  isOversized c := by rw [isOversized_note, if_neg h]

end Chunk

namespace Job

theorem keeps_dress (sym : Symbol) (lineCount : Nat) (parent : Option String) :
    Chunk.Keeps (dress sym lineCount parent) where
  lineStart _ := rfl
  lineEnd _ := rfl
  kind _ := rfl
  isOversized c := (Chunk.keeps_note "line_count" (toString lineCount) (by decide)).isOversized c

theorem keeps_dressHead (owner : Symbol) (members : List Symbol) : Chunk.Keeps (dressHead owner members) where
  lineStart _ := rfl
  lineEnd _ := rfl
  kind _ := rfl
  isOversized c := by
    have hcount := Chunk.keeps_note "method_count" (toString members.length) (by decide)
    have hnames := Chunk.keeps_note "methods" (", ".intercalate (members.map (·.name))) (by decide)
    exact (hcount.comp hnames).isOversized c

theorem isOversized_markOversized (p : Piece) (c : Chunk) :
    (markOversized p c).isOversized = (p.oversized || c.isOversized) := by
  unfold markOversized
  cases p.oversized with
  | true => simp [Chunk.isOversized_note]
  | false => simp

/-- A flag leaves the lines and the kind alone. -/
theorem markOversized_place (p : Piece) (c : Chunk) :
    (markOversized p c).lineStart = c.lineStart ∧ (markOversized p c).lineEnd = c.lineEnd ∧
      (markOversized p c).kind = c.kind := by
  unfold markOversized
  split <;> exact ⟨rfl, rfl, rfl⟩

/-! ## Sound pieces and drafts -/

/-- What a job relies on: a text with its own octets that is not empty, and a budget that does not leave the
range of offsets. -/
structure Ready (j : Job) : Prop where
  intact : j.source.Intact
  nonempty : 0 < j.source.size
  budget : j.source.size + j.settings.maxChars ≤ Window.wordSize

theorem maxChars_pos (settings : ChunkSettings) : 1 ≤ settings.maxChars :=
  Nat.le_max_right _ _

/-- A range is one whole line, longer than the budget. -/
def OverlongLine (j : Job) (start stop : Nat) : Prop :=
  ∃ line, 1 ≤ line ∧ line ≤ j.source.lineCount ∧ start = j.source.lineStart line ∧
    stop = j.source.lineStart (line + 1) ∧ j.settings.maxChars < stop - start

end Job

/-- A slice that fits, or is a single character, or is flagged; only an overlong line is flagged. -/
structure Piece.Sound (j : Job) (p : Piece) : Prop extends p.Cuts j.source where
  fits : p.stop - p.start ≤ j.settings.maxChars ∨ j.source.Solid p.start p.stop ∨ p.oversized = true
  flagged : p.oversized = true → j.OverlongLine p.start p.stop

/-- What a draft will cut, with its flag. -/
def Draft.piece (d : Draft) : Piece := ⟨d.start, d.stop, d.chunk.isOversized⟩

/-- What a draft will cut. -/
def Draft.range (d : Draft) : Nat × Nat := (d.start, d.stop)

/-- A draft of a slice, with the lines of its first and its last octet, that is no summary. -/
structure Draft.Located (s : Source) (d : Draft) : Prop where
  cuts : Piece.Cuts s ⟨d.start, d.stop, false⟩
  lineStart : d.chunk.lineStart = s.lineAt d.start
  lineEnd : d.chunk.lineEnd = s.lineAt (d.stop - 1)
  cut : d.chunk.kind.isSummary = false

/-- A draft of a sound piece, with the lines of its first and its last octet, that is no summary. -/
structure Draft.Sound (j : Job) (d : Draft) : Prop where
  piece : d.piece.Sound j
  lineStart : d.chunk.lineStart = j.source.lineAt d.start
  lineEnd : d.chunk.lineEnd = j.source.lineAt (d.stop - 1)
  cut : d.chunk.kind.isSummary = false

namespace Job

/-- More subchunks are allowed than there are octets. -/
def Unlimited (j : Job) : Prop := j.source.size < j.settings.maxSubchunks

/-- Sound drafts that, with enough pieces allowed, span the text between two offsets. -/
structure Drafted (j : Job) (lo hi : Nat) (drafts : List Draft) : Prop where
  sound : ∀ d ∈ drafts, d.Sound j
  spans : j.Unlimited → Spans lo hi (drafts.map fun d => (d.start, d.stop))

theorem Drafted.append {j : Job} {lo mid hi : Nat} {drafts more : List Draft} (h : j.Drafted lo mid drafts)
    (h' : j.Drafted mid hi more) : j.Drafted lo hi (drafts ++ more) where
  sound d hd := (List.mem_append.mp hd).elim (h.sound d) (h'.sound d)
  spans hlimit := by
    rw [List.map_append]
    exact (h.spans hlimit).append (h'.spans hlimit)

theorem Drafted.nil {j : Job} {lo : Nat} : j.Drafted lo lo [] := ⟨by simp, fun _ => rfl⟩

variable {j : Job}

/-- Drafting a slice, with changes that leave its place alone. -/
theorem draft_located {id : String} {kind : ChunkKind} {p : Piece} {f : Chunk → Chunk} (hp : p.Cuts j.source)
    (hkind : kind.isSummary = false) (hf : Chunk.Keeps f) :
    ((j.draft id kind p).map fun c => markOversized p (f c)).Located j.source := by
  have hmark := markOversized_place p
  refine ⟨⟨hp.lt, hp.start, hp.stop⟩, ?_, ?_, ?_⟩
  · exact ((hmark _).1.trans (hf.lineStart _))
  · refine ((hmark _).2.1.trans (hf.lineEnd _)).trans ?_
    exact Nat.max_eq_left (j.source.lineAt_mono (by have := hp.lt; omega))
  · simp only [Draft.map]
    rw [(hmark _).2.2, hf.kind]
    exact hkind

/-- Drafting a sound piece, with a flag as the piece says. -/
theorem draft_sound {id : String} {kind : ChunkKind} {p : Piece} {f : Chunk → Chunk} (hp : p.Sound j)
    (hkind : kind.isSummary = false) (hf : Chunk.Keeps f) :
    ((j.draft id kind p).map fun c => markOversized p (f c)).Sound j := by
  have hflag : (markOversized p (f (j.draft id kind p).chunk)).isOversized = p.oversized := by
    rw [isOversized_markOversized, hf.isOversized]
    have : (j.draft id kind p).chunk.isOversized = false := by
      change Chunk.isOversized (Chunk.note _ "language" j.language) = false
      rw [Chunk.isOversized_note, if_neg (by decide)]
      rfl
    simp [this]
  have hlocated := @draft_located j id kind p f hp.toCuts hkind hf
  refine ⟨?_, hlocated.lineStart, hlocated.lineEnd, hlocated.cut⟩
  unfold Draft.piece
  simp only [Draft.map]
  rw [hflag]
  exact hp

/-- Drafting a piece that carries no flag. -/
theorem plain_draft_sound {id : String} {kind : ChunkKind} {p : Piece} {f : Chunk → Chunk} (hp : p.Sound j)
    (hflag : p.oversized = false) (hkind : kind.isSummary = false) (hf : Chunk.Keeps f) :
    ((j.draft id kind p).map f).Sound j := by
  have h := @draft_sound j id kind p f hp hkind hf
  simpa only [markOversized, hflag, Bool.false_eq_true, if_false] using h

/-! ## Windows and whole lines -/

/-- The windows between two offsets, whether their sums are words or not. -/
def slide (j : Job) (start stop limit : Nat) : List Piece :=
  Window.slide j.source start stop j.settings.maxChars j.settings.overlapChars limit

theorem windows_eq (j : Job) (start stop limit : Nat) :
    j.windows start stop limit =
      Window.checked (Window.InRange j.settings.maxChars (j.slide start stop limit)) (j.slide start stop limit) :=
  Window.pieces_eq (maxChars_pos _) limit

/-- The windows between two offsets are sound and, when enough are allowed, span the text there. -/
theorem windows_spec (hj : j.Ready) {start stop : Nat} (limit : Nat)
    (hstart : j.source.isBoundary start = true) (hstop : j.source.isBoundary stop = true)
    (hle : start ≤ stop) :
    j.windows start stop limit = .ok (j.slide start stop limit) ∧
      (∀ p ∈ j.slide start stop limit, p.Sound j ∧ p.oversized = false) ∧
      (stop - start ≤ limit → Spans start stop ((j.slide start stop limit).map Piece.range)) := by
  have hbudget := Nat.le_trans (Nat.add_le_add_right (hj.intact.le_size hstop) _) hj.budget
  refine ⟨?_, fun p hp => ?_, Window.slide_spans hj.intact hstop hle⟩
  · rw [windows_eq]
    exact Window.checked_of (Window.inRange_slide hj.intact hstart hstop hbudget limit)
  · obtain ⟨hcuts, hflag, hfits⟩ := Window.mem_slide hj.intact hstart hstop hp
    exact ⟨⟨hcuts, hfits.imp_right .inl, fun h => by rw [hflag] at h; cases h⟩, hflag⟩

theorem pieces_spec (hj : j.Ready) {first last : Nat} (protect : Bool) (h1 : 1 ≤ first)
    (hle : first ≤ last) (hn : first ≤ j.source.lineCount) :
    ∃ ps, j.pieces first last protect = .ok ps ∧
      (∀ p ∈ ps, p.Sound j ∧ (protect = false → p.oversized = false)) ∧
      (j.Unlimited → Spans (j.source.lineStart first) (j.source.lineStart (last + 1))
        (ps.map Piece.range)) := by
  have hcut := hj.intact.lines_cut hj.nonempty h1 hle hn
  have hsize := hj.intact.le_size hcut.stop
  have hspan := Source.span_eq hj.nonempty last h1 hn
  have hhead := Source.span_eq hj.nonempty first h1 hn
  obtain ⟨hwindows, hsound, hwhole⟩ :=
    windows_spec hj j.settings.maxSubchunks hcut.start hcut.stop (Nat.le_of_lt hcut.lt)
  have hspans : j.Unlimited → Spans (j.source.lineStart first) (j.source.lineStart (last + 1))
      ((j.slide (j.source.lineStart first) (j.source.lineStart (last + 1))
        j.settings.maxSubchunks).map Piece.range) :=
    fun hlimit => hwhole (by unfold Unlimited at hlimit; omega)
  simp only [pieces, hspan, hhead, hwindows, bind, Except.bind, pure, Except.pure]
  cases protect with
  | false => exact ⟨_, rfl, fun p hp => ⟨(hsound p hp).1, fun _ => (hsound p hp).2⟩, hspans⟩
  | true =>
    simp only [if_true]
    split
    · next hlong =>
      -- the first line stays whole, and windows take the rest
      have hfirst := hj.intact.lines_cut hj.nonempty h1 (Nat.le_refl first) hn
      have hnext := hj.intact.lineStart_le hj.nonempty (by omega)
        (by omega : first + 1 ≤ last + 1) (by omega)
      obtain ⟨hrest, hrestSound, hrestSpans⟩ :=
        windows_spec hj (j.settings.maxSubchunks - 1) hfirst.stop hcut.stop hnext
      rw [hrest]
      refine ⟨_, rfl, fun p hp => ?_, fun hlimit => ?_⟩
      · rcases List.mem_cons.mp hp with rfl | hp
        · exact ⟨⟨⟨hfirst.lt, hfirst.start, hfirst.stop⟩, .inr (.inr rfl),
            fun _ => ⟨first, h1, hn, rfl, rfl, hlong⟩⟩, fun h => nomatch h⟩
        · exact ⟨(hrestSound p hp).1, fun h => nomatch h⟩
      · have := hfirst.lt
        unfold Unlimited at hlimit
        exact Spans.append Spans.single (hrestSpans (by simp only at this; omega))
    · exact ⟨_, rfl, fun p hp => ⟨(hsound p hp).1, fun h => nomatch h⟩, hspans⟩

theorem lineSize_eq (h0 : 0 < j.source.size) {first : Nat} (last : Nat) (h1 : 1 ≤ first)
    (hn : first ≤ j.source.lineCount) :
    j.lineSize first last = .ok (j.source.lineStart (last + 1) - j.source.lineStart first) := by
  simp only [lineSize, Source.span_eq h0 last h1 hn, bind, Except.bind, pure, Except.pure]

/-- Whole lines are drafted as the piece between their ends. -/
theorem wholeLines_eq (hs : j.source.Intact) (h0 : 0 < j.source.size) (id : String) (kind : ChunkKind)
    {first last : Nat} (h1 : 1 ≤ first) (hle : first ≤ last) (hn : last ≤ j.source.lineCount) :
    j.wholeLines id kind first last =
      .ok (j.draft id kind ⟨j.source.lineStart first, j.source.lineStart (last + 1), false⟩) := by
  have hfirst : j.source.lineAt (j.source.lineStart first) = first :=
    hs.lineAt_eq h0 h1 (by omega) (Nat.le_refl _)
      (hs.lineStart_lt h0 h1 (by omega) (by omega))
  have hlast : j.source.lineAt (j.source.lineStart (last + 1) - 1) = last := by
    have := hs.lineStart_lt h0 (i := last) (j := last + 1) (by omega) (by omega) hn
    exact hs.lineAt_eq h0 (by omega) hn (by omega) (by omega)
  simp only [wholeLines, Source.span_eq h0 last h1 (Nat.le_trans hle hn), bind, Except.bind, pure,
    Except.pure, Draft.map, draft, Chunk.onLines, hfirst, hlast]

/-- Whole lines as a piece are sound when the flag tells whether they are too long, and only a single
line is. -/
theorem lines_sound (hj : j.Ready) {first last : Nat} (flag : Bool) (h1 : 1 ≤ first) (hle : first ≤ last)
    (hn : last ≤ j.source.lineCount)
    (hflag : flag = true ↔ j.settings.maxChars < j.source.lineStart (last + 1) - j.source.lineStart first)
    (hline : flag = true → first = last) :
    Piece.Sound j ⟨j.source.lineStart first, j.source.lineStart (last + 1), flag⟩ := by
  have hcut := hj.intact.lines_cut hj.nonempty h1 hle (by omega)
  refine ⟨⟨hcut.lt, hcut.start, hcut.stop⟩, ?_, fun h => ?_⟩
  · cases flag with
    | true => exact .inr (.inr rfl)
    | false =>
      have := mt hflag.mpr (by simp)
      exact .inl (by simp only; omega)
  · have hsame := hline h
    exact ⟨first, h1, by omega, rfl, by rw [hsame], hflag.mp h⟩

/-- Lines that fit, drafted as one chunk. -/
theorem fitting_lines_spec (hj : j.Ready) (id : String) (kind : ChunkKind) {first last : Nat}
    {f : Chunk → Chunk} (h1 : 1 ≤ first) (hle : first ≤ last) (hn : last ≤ j.source.lineCount)
    (hkind : kind.isSummary = false) (hf : Chunk.Keeps f)
    (hfit : j.source.lineStart (last + 1) - j.source.lineStart first ≤ j.settings.maxChars) :
    ∃ d, j.wholeLines id kind first last = .ok d ∧
      j.Drafted (j.source.lineStart first) (j.source.lineStart (last + 1)) [d.map f] := by
  refine ⟨_, wholeLines_eq hj.intact hj.nonempty id kind h1 hle hn, ⟨fun d hd => ?_, fun _ => Spans.single⟩⟩
  rw [List.mem_singleton] at hd
  subst hd
  exact draft_sound (lines_sound hj false h1 hle hn (by simp; omega) (by simp)) hkind hf

/-! ## One symbol -/

/-- Numbering drafts leaves their places alone. -/
theorem map_range_zipIdx (ps : List Piece) {draftOf : Piece × Nat → Draft}
    (hrange : ∀ p i, (draftOf (p, i)).range = p.range) :
    (ps.zipIdx.map draftOf).map Draft.range = ps.map Piece.range := by
  rw [List.map_map]
  conv_rhs => rw [← List.zipIdx_map_fst 0 ps, List.map_map]
  exact List.map_congr_left fun pi _ => hrange pi.1 pi.2

/-- Numbered drafts of sound pieces. -/
theorem numbered_drafted {lo hi : Nat} {ps : List Piece} {draftOf : Piece × Nat → Draft}
    (hspans : j.Unlimited → Spans lo hi (ps.map Piece.range))
    (hsound : ∀ p ∈ ps, ∀ i, (draftOf (p, i)).Sound j)
    (hrange : ∀ p i, ((draftOf (p, i)).start, (draftOf (p, i)).stop) = p.range) :
    j.Drafted lo hi (ps.zipIdx.map draftOf) where
  sound d hd := by
    obtain ⟨⟨p, i⟩, hpi, rfl⟩ := List.mem_map.mp hd
    exact hsound p (List.fst_mem_of_mem_zipIdx hpi) i
  spans hlimit := by
    have hranges := map_range_zipIdx ps hrange
    unfold Draft.range at hranges
    rw [hranges]
    exact hspans hlimit

theorem numbered_spec {sym : Symbol} {lineCount : Nat} {id mark : String} {kind : ChunkKind} {lo hi : Nat}
    {ps : List Piece} (hkind : kind.isSummary = false) (h : ∀ p ∈ ps, p.Sound j)
    (hspans : j.Unlimited → Spans lo hi (ps.map Piece.range)) :
    j.Drafted lo hi (j.numbered sym lineCount id mark kind ps) := by
  refine numbered_drafted hspans (fun p hp i => ?_) fun _ _ => rfl
  exact draft_sound (h p hp) hkind
    ((Chunk.keeps_note "chunk_index" (toString i) (by decide)).comp
      (keeps_dress sym lineCount (some id)))

theorem windowedLines_spec (hj : j.Ready) (sym : Symbol) (lineCount : Nat) (id mark : String)
    (kind : ChunkKind) {first last : Nat} (hkind : kind.isSummary = false) (h1 : 1 ≤ first)
    (hle : first ≤ last + 1) (hn : last ≤ j.source.lineCount) :
    ∃ ds, j.windowedLines sym lineCount id mark kind first last = .ok ds ∧
      j.Drafted (j.source.lineStart first) (j.source.lineStart (last + 1)) ds := by
  unfold windowedLines
  split
  · next hlines =>
    have hcut := hj.intact.lines_cut hj.nonempty h1 hlines (by omega)
    have hsize := hj.intact.le_size hcut.stop
    obtain ⟨hwindows, hsound, hspans⟩ :=
      windows_spec hj j.settings.maxSubchunks hcut.start hcut.stop (Nat.le_of_lt hcut.lt)
    simp only [Source.span_eq hj.nonempty last h1 (by omega), hwindows, bind, Except.bind]
    exact ⟨_, rfl, numbered_spec hkind (fun p hp => (hsound p hp).1) fun hlimit =>
      hspans (by unfold Unlimited at hlimit; omega)⟩
  · rw [show first = last + 1 by omega]
    exact ⟨[], rfl, .nil⟩

/-- A header starts with the first line, or is the last line alone when all would be too long. -/
theorem headerStart_spec (hj : j.Ready) {first headerEnd : Nat} (h1 : 1 ≤ first) (hle : first ≤ headerEnd)
    (hn : headerEnd ≤ j.source.lineCount) :
    ∃ start, j.headerStart first headerEnd = .ok start ∧ first ≤ start ∧ start ≤ headerEnd ∧
      (start = headerEnd ∨
        j.source.lineStart (headerEnd + 1) - j.source.lineStart start ≤ j.settings.maxChars) := by
  unfold headerStart
  split
  · rw [lineSize_eq hj.nonempty headerEnd h1 (by omega)]
    refine ⟨_, rfl, ?_⟩
    dsimp only
    split
    · exact ⟨hle, Nat.le_refl _, .inl rfl⟩
    · exact ⟨Nat.le_refl _, hle, .inr (by omega)⟩
  · exact ⟨first, rfl, Nat.le_refl _, hle, .inl (by omega)⟩

theorem splitBody_spec (hj : j.Ready) (sym : Symbol) (id : String) (parent : Option String)
    {first last : Nat} (h1 : 1 ≤ first) (hle : first ≤ last) (hn : last ≤ j.source.lineCount) :
    ∃ ds, j.splitBody sym id first last parent = .ok ds ∧
      j.Drafted (j.source.lineStart first) (j.source.lineStart (last + 1)) ds := by
  generalize hend : min (max sym.startLine first) last = headerEnd
  obtain ⟨start, hstart, hfs, hse, hshort⟩ :=
    headerStart_spec hj h1 (by omega : first ≤ headerEnd) (by omega)
  obtain ⟨lead, hlead, hleads⟩ := windowedLines_spec hj sym (last - first + 1) id "lead" .methodHeader rfl h1
    (by omega : first ≤ start - 1 + 1) (by omega)
  obtain ⟨body, hbody, hbodys⟩ := windowedLines_spec hj sym (last - first + 1) id "body" .methodBody rfl
    (by omega : 1 ≤ headerEnd + 1) (by omega) hn
  rw [Nat.sub_add_cancel (by omega)] at hleads
  have hheader := wholeLines_eq hj.intact hj.nonempty id .methodHeader (by omega : 1 ≤ start) hse (by omega)
  simp only [splitBody, hend, hstart, hlead, hheader, hbody, bind, Except.bind, pure, Except.pure]
  refine ⟨_, rfl, (hleads.append ?_).append hbodys⟩
  refine ⟨fun d hd => ?_, fun _ => Spans.single⟩
  rw [List.mem_singleton] at hd
  subst hd
  have hsound := lines_sound hj (decide (j.settings.maxChars <
    j.source.lineStart (headerEnd + 1) - j.source.lineStart start)) (by omega) hse (by omega)
    decide_eq_true_iff fun h => hshort.resolve_right (Nat.not_le.mpr (of_decide_eq_true h))
  exact draft_sound hsound rfl (keeps_dress sym _ parent)

/-- The drafts of a symbol span the lines it owns. -/
theorem symbolDrafts_spec (hj : j.Ready) (sym : Symbol) (parent : Option String) {first last : Nat}
    (h1 : 1 ≤ first) (hle : first ≤ last) (hn : last ≤ j.source.lineCount) :
    ∃ ds, j.symbolDrafts sym first last parent = .ok ds ∧
      j.Drafted (j.source.lineStart first) (j.source.lineStart (last + 1)) ds := by
  simp only [symbolDrafts, lineSize_eq hj.nonempty last h1 (Nat.le_trans hle hn), bind, Except.bind, pure, Except.pure]
  split
  · exact splitBody_spec hj sym _ parent h1 hle hn
  · split
    · next hfit =>
      obtain ⟨d, hd, hdrafted⟩ := fitting_lines_spec hj (j.path ++ ":" ++ sym.qualifiedName)
        (ChunkKind.ofSymbolKind sym.kind) h1 hle hn (ChunkKind.isSummary_ofSymbolKind sym.kind)
        (keeps_dress sym (last - first + 1) parent) hfit
      rw [hd]
      exact ⟨_, rfl, hdrafted⟩
    · obtain ⟨ps, hps, hsound, hspans⟩ := pieces_spec hj true h1 hle (Nat.le_trans hle hn)
      rw [hps]
      exact ⟨_, rfl, numbered_spec rfl (fun p hp => (hsound p hp).1) hspans⟩

/-! ## One class -/

/-- The drafts of members span the lines from the cursor to the end of the class. -/
theorem memberDrafts_spec (hj : j.Ready) (owner : Symbol) (classId : String) {last bound prev cursor : Nat}
    {members : List Symbol} (hn : last ≤ j.source.lineCount) (hne : members ≠ []) (h1 : 1 ≤ cursor)
    (hcursor : ∀ m ∈ members.head?, cursor ≤ m.startLine) (hapart : Layout.Apart bound prev members)
    (hlast : ∀ m ∈ members, m.startLine ≤ last) :
    ∃ ds, j.memberDrafts owner classId last cursor members = .ok ds ∧
      j.Drafted (j.source.lineStart cursor) (j.source.lineStart (last + 1)) ds := by
  induction members generalizing cursor prev with
  | nil => exact absurd rfl hne
  | cons m rest ih =>
    have hm : cursor ≤ m.startLine := hcursor m rfl
    have hml := hlast m List.mem_cons_self
    obtain ⟨-, hstart, hend, hrest⟩ := hapart
    cases rest with
    | nil =>
      obtain ⟨ds, hds, hdrafted⟩ := symbolDrafts_spec hj { m with kind := "method", parent := some owner.name }
        (some classId) h1 (by omega : cursor ≤ last) hn
      simp only [memberDrafts, hds, bind, Except.bind, Nat.lt_add_one, if_true]
      exact ⟨ds, rfl, hdrafted⟩
    | cons next rest =>
      have hnext : m.startLine < next.startLine := by
        have := hrest.1
        omega
      have hnl := hlast next (by simp)
      -- the member reaches to its own end, but not into the next one
      generalize hstop : min (max m.endLine cursor) (max (next.startLine - 1) cursor) = stop
      obtain ⟨own, hown, hdrafted⟩ := symbolDrafts_spec hj { m with kind := "method", parent := some owner.name }
        (some classId) h1 (by omega : cursor ≤ stop) (by omega)
      obtain ⟨more, hmore, hdrafted'⟩ := @ih _ (stop + 1) (by simp) (by omega)
        (fun n h => by cases h; omega) hrest fun n h => hlast n (List.mem_cons_of_mem _ h)
      rw [memberDrafts]
      simp only [hstop, hown, hmore, bind, Except.bind, pure, Except.pure]
      rw [if_neg (by omega)]
      exact ⟨_, rfl, hdrafted.append hdrafted'⟩

/-- The drafts of a class's head span its lines. -/
theorem headDrafts_spec (hj : j.Ready) (owner : Symbol) (members : List Symbol) (classId : String)
    {first last : Nat} (h1 : 1 ≤ first) (hle : first ≤ last) (hn : last ≤ j.source.lineCount) :
    ∃ ds, j.headDrafts owner members classId first last = .ok ds ∧
      j.Drafted (j.source.lineStart first) (j.source.lineStart (last + 1)) ds := by
  simp only [headDrafts, lineSize_eq hj.nonempty last h1 (Nat.le_trans hle hn), bind, Except.bind, pure, Except.pure]
  split
  · next hfit =>
    obtain ⟨d, hd, hdrafted⟩ := fitting_lines_spec hj classId .classSummary h1 hle hn rfl
      (keeps_dressHead owner members) hfit
    rw [hd]
    exact ⟨_, rfl, hdrafted⟩
  · obtain ⟨ps, hps, hsound, hspans⟩ := pieces_spec hj true h1 hle (Nat.le_trans hle hn)
    rw [hps]
    refine ⟨_, rfl, numbered_drafted hspans (fun p hp i => ?_) fun _ _ => rfl⟩
    exact draft_sound (f := fun c => { dressHead owner members c with parentId := some classId })
      (hsound p hp).1 rfl
      { lineStart := fun _ => rfl, lineEnd := fun _ => rfl, kind := fun _ => rfl,
        isOversized := (keeps_dressHead owner members).isOversized }

theorem classDrafts_spec (hj : j.Ready) (owner : Symbol) {members : List Symbol} {first last bound : Nat}
    (hne : members ≠ []) (h1 : 1 ≤ first) (hn : last ≤ j.source.lineCount)
    (hapart : Layout.Apart bound 0 members) (hfirst : ∀ m ∈ members, first < m.startLine)
    (hlast : ∀ m ∈ members, m.startLine ≤ last) :
    ∃ ds, j.classDrafts owner members first last = .ok ds ∧
      j.Drafted (j.source.lineStart first) (j.source.lineStart (last + 1)) ds := by
  obtain ⟨m, rest, rfl⟩ := List.exists_cons_of_ne_nil hne
  have hmf := hfirst m List.mem_cons_self
  have hml := hlast m List.mem_cons_self
  have hend : max (((m :: rest).head?.map (·.startLine - 1)).getD 0) first = m.startLine - 1 := by
    simp only [List.head?_cons, Option.map_some, Option.getD_some]
    omega
  obtain ⟨head, hhead, hheads⟩ := headDrafts_spec hj owner (m :: rest) (j.path ++ ":" ++ owner.name) h1
    (by omega : first ≤ m.startLine - 1) (by omega)
  obtain ⟨more, hmore, hmores⟩ := memberDrafts_spec hj owner (j.path ++ ":" ++ owner.name) hn hne
    (by omega : 1 ≤ m.startLine - 1 + 1) (fun n h => by cases h; omega) hapart hlast
  simp only [classDrafts, hend, hhead, hmore, bind, Except.bind, pure, Except.pure]
  rw [if_neg (by omega)]
  exact ⟨_, rfl, hheads.append hmores⟩

/-! ## All segments -/

theorem segmentDrafts_spec (hj : j.Ready) {symbols : List Symbol} {seg : Layout.Segment} (index : Nat)
    (hsyms : ∀ sym ∈ symbols, sym.Placed j.source.lineCount) (h1 : 1 ≤ seg.first)
    (hle : seg.first ≤ seg.last) (hn : seg.last ≤ j.source.lineCount)
    (hholds : Layout.Holds j.source.lineCount seg) :
    ∃ ds, j.segmentDrafts symbols index seg = .ok ds ∧
      j.Drafted (j.source.lineStart seg.first) (j.source.lineStart (seg.last + 1)) ds := by
  unfold segmentDrafts
  split
  · obtain ⟨ps, hps, hsound, hspans⟩ := pieces_spec hj false h1 hle (Nat.le_trans hle hn)
    rw [hps]
    refine ⟨_, rfl, numbered_drafted hspans (fun p hp i => ?_) fun _ _ => rfl⟩
    exact plain_draft_sound (hsound p hp).1 ((hsound p hp).2 rfl) rfl Chunk.keeps_id
  · next sym hsym =>
    obtain ⟨hs1, hs2, hs3⟩ := hholds sym hsym
    have hwhole := symbolDrafts_spec hj sym none h1 hle hn
    dsimp only
    split
    · split
      · exact hwhole
      · next hmembers =>
        have hne : Layout.members symbols sym ≠ [] := by simpa using hmembers
        refine classDrafts_spec hj sym hne h1 hn
          (Layout.members_apart fun s h => (hsyms s h).start_le_end) (fun m hm => ?_) fun m hm => ?_
        · have := (Layout.mem_members hm).2.1
          omega
        · obtain ⟨hmem, -, hmend⟩ := Layout.mem_members hm
          have := (hsyms m hmem).start_le_end
          have := (hsyms m hmem).start_le
          omega
    · exact hwhole

theorem segmentsDrafts_spec (hj : j.Ready) {symbols : List Symbol} {segs : List Layout.Segment}
    (index : Nat) {lo next : Nat} (hsyms : ∀ sym ∈ symbols, sym.Placed j.source.lineCount) (h1 : 1 ≤ lo)
    (hparts : Layout.Parts lo next segs) (hn : next ≤ j.source.lineCount + 1)
    (hholds : ∀ seg ∈ segs, Layout.Holds j.source.lineCount seg) :
    ∃ ds, j.segmentsDrafts symbols index segs = .ok ds ∧
      j.Drafted (j.source.lineStart lo) (j.source.lineStart next) ds := by
  induction segs generalizing lo index with
  | nil =>
    obtain rfl := hparts
    exact ⟨[], rfl, .nil⟩
  | cons seg rest ih =>
    have hbounds := hparts.bounds List.mem_cons_self
    obtain ⟨rfl, hle, hrest⟩ := hparts
    obtain ⟨own, hown, hdrafted⟩ := segmentDrafts_spec hj index hsyms h1 hle (by omega)
      (hholds seg List.mem_cons_self)
    obtain ⟨more, hmore, hdrafted'⟩ := ih (if seg.symbol.isNone then index + own.length else index)
      (by omega) hrest fun s h => hholds s (List.mem_cons_of_mem _ h)
    simp only [segmentsDrafts, hown, hmore, bind, Except.bind, pure, Except.pure]
    exact ⟨_, rfl, hdrafted.append hdrafted'⟩

end Job

end CodeIndex
