import CodeIndex.Proofs.Chunk.Sections

/-!
# The chunks of a file

Along symbols, along sections or by windows, the chunks of a file are some summaries, which keep to the
budget, and then chunks cut from sound drafts. With room for all pieces these drafts span the file.
-/

namespace CodeIndex

/-! ## Summaries -/

theorem Source.size_ofString (text : String) : (Source.ofString text).size = text.utf8ByteSize :=
  String.size_toByteArray

theorem Job.utf8ByteSize_truncate (text : String) (budget : Nat) : (truncate text budget).utf8ByteSize ≤ budget := by
  unfold truncate
  simp only
  split
  · next h => rwa [Source.size_ofString] at h
  · cases hslice : (Source.ofString text).slice? 0 ((Source.ofString text).floorBoundary budget) with
    | none => simp
    | some front =>
      rw [Option.getD_some, Source.utf8ByteSize_of_slice? hslice]
      exact Source.floorBoundary_le _ _

/-- A slice can be cut. -/
theorem Draft.exists_cut {s : Source} (hs : s.Intact) {d : Draft} (h : Piece.Cuts s ⟨d.start, d.stop, false⟩) :
    ∃ text, s.slice? d.start d.stop = some text ∧ d.cut s = .ok { d.chunk with content := text } := by
  obtain ⟨text, htext⟩ := hs.exists_slice h.start h.stop (Nat.le_of_lt h.lt)
  refine ⟨text, htext, ?_⟩
  have hslice : s.slice d.start d.stop = .ok text := by
    unfold Source.slice
    rw [show s.slice? d.start d.stop = some text from htext]
  simp only [cut, hslice, bind, Except.bind, pure, Except.pure]

namespace Job

variable {j : Job}

/-- A summary that keeps to the budget and carries no flag. -/
structure IsSummary (j : Job) (c : Chunk) : Prop where
  kind : c.kind.isSummary = true
  fits : c.content.utf8ByteSize ≤ j.settings.maxChars
  plain : c.isOversized = false

theorem fileSummary_spec (j : Job) (names : List String) (chunking : String) :
    j.IsSummary (j.fileSummary names chunking) where
  kind := rfl
  fits := utf8ByteSize_truncate _ _
  plain := by
    unfold fileSummary
    dsimp only
    rw [(Chunk.keeps_note "chunking" chunking (by decide)).isOversized, Chunk.noteNat,
      (Chunk.keeps_note "symbol_count" _ (by decide)).isOversized,
      (Chunk.keeps_note "language" _ (by decide)).isOversized]
    rfl

theorem importBlock_spec (j : Job) (imports : List Import) : j.IsSummary (j.importBlock imports) where
  kind := rfl
  fits := utf8ByteSize_truncate _ _
  plain := by
    unfold importBlock
    dsimp only
    rw [Chunk.noteNat, (Chunk.keeps_note "import_count" _ (by decide)).isOversized,
      (Chunk.keeps_note "language" _ (by decide)).isOversized]
    rfl

theorem optionalSummary_spec (names : List String) (chunking : String) :
    ∀ c ∈ j.optionalSummary names chunking, j.IsSummary c := by
  intro c hc
  unfold optionalSummary at hc
  split at hc
  · rw [List.mem_singleton] at hc
    subst hc
    exact fileSummary_spec j names chunking
  · cases hc

/-! ## Cutting -/

/-- A chunk is a draft with the text that it names. -/
structure CutOf (j : Job) (d : Draft) (c : Chunk) : Prop where
  sound : d.Sound j
  chunk : c = { d.chunk with content := c.content }
  content : j.source.slice? d.start d.stop = some c.content

theorem exists_cut (hj : j.Ready) {drafts : List Draft} (h : ∀ d ∈ drafts, d.Sound j) :
    ∃ chunks, drafts.mapM (Draft.cut j.source) = .ok chunks ∧ List.Forall₂ j.CutOf drafts chunks := by
  refine exists_mapM fun d hd => ?_
  have hsound := h d hd
  obtain ⟨text, htext, hcut⟩ := Draft.exists_cut hj.intact
    ⟨hsound.piece.lt, hsound.piece.start, hsound.piece.stop⟩
  exact ⟨_, hcut, hsound, rfl, htext⟩

/-- More pieces are allowed than there are octets. -/
def Roomy (j : Job) : Prop :=
  j.source.size < j.settings.maxSubchunks ∧ j.source.size < j.settings.maxWindows

/-- Summaries, and chunks cut from sound drafts that span the whole text if there is room. -/
def Chunked (j : Job) (chunks : List Chunk) : Prop :=
  ∃ summaries drafts cut, chunks = summaries ++ cut ∧ (∀ c ∈ summaries, j.IsSummary c) ∧
    List.Forall₂ j.CutOf drafts cut ∧
    (j.Roomy → Spans 0 j.source.size (drafts.map fun d => (d.start, d.stop)))

/-! ## Routes -/

theorem chunkWindows_spec (hj : j.Ready) : ∃ chunks, j.chunkWindows = .ok chunks ∧ j.Chunked chunks := by
  have hn := hj.intact.lineCount_pos hj.nonempty
  obtain ⟨hwindows, hsound, hspans⟩ := windows_spec hj j.settings.maxWindows hj.intact.isBoundary_zero
    hj.intact.isBoundary_size (Nat.zero_le _)
  simp only [chunkWindows, hwindows, bind, Except.bind]
  rw [if_neg (by omega)]
  generalize hdrafts : ((j.slide 0 j.source.size j.settings.maxWindows).zipIdx.map _ : List Draft) = drafts
  have hdraftsSound : ∀ d ∈ drafts, d.Sound j := by
    intro d hd
    rw [← hdrafts] at hd
    obtain ⟨⟨p, i⟩, hpi, rfl⟩ := List.mem_map.mp hd
    have hp := hsound p (List.fst_mem_of_mem_zipIdx hpi)
    exact plain_draft_sound hp.1 hp.2 rfl ((Chunk.keeps_note "chunking" "sliding_window" (by decide)).comp
      (Chunk.keeps_note "chunk_index" (toString i) (by decide)))
  obtain ⟨cut, hcut, hcuts⟩ := exists_cut hj hdraftsSound
  rw [hcut]
  refine ⟨_, rfl, _, drafts, cut, rfl, optionalSummary_spec _ _, hcuts, fun hroom => ?_⟩
  have hranges : drafts.map (fun d => (d.start, d.stop)) =
      (j.slide 0 j.source.size j.settings.maxWindows).map Piece.range := by
    rw [← hdrafts]
    exact map_range_zipIdx _ fun _ _ => rfl
  rw [hranges]
  exact hspans (by have := hroom.2; omega)

theorem chunkSymbols_spec (hj : j.Ready) {symbols : List Symbol} (imports : List Import)
    (hsyms : ∀ sym ∈ symbols, sym.Placed j.source.lineCount) :
    ∃ chunks, j.chunkSymbols symbols imports = .ok chunks ∧ j.Chunked chunks := by
  have hn := hj.intact.lineCount_pos hj.nonempty
  simp only [chunkSymbols]
  rw [if_neg (by omega)]
  split
  · exact chunkWindows_spec hj
  · next hne =>
    have htop := Layout.outermost_apart (n := j.source.lineCount) fun s h => (hsyms s h).start_le_end
    obtain ⟨segs, hsegs, hparts, hholds⟩ :=
      Layout.segments_spec hj.intact hj.nonempty j.settings.minSize htop (by simpa using hne)
    obtain ⟨drafts, hdrafts, hdrafted⟩ := segmentsDrafts_spec hj 0 hsyms (Nat.le_refl 1) hparts
      (Nat.le_refl _) fun seg h => (hholds seg h).1
    obtain ⟨cut, hcut, hcuts⟩ := exists_cut hj hdrafted.sound
    simp only [hsegs, hdrafts, hcut, bind, Except.bind, pure, Except.pure]
    refine ⟨_, rfl, _, drafts, cut, rfl, fun c hc => ?_, hcuts, fun hroom => ?_⟩
    · rcases List.mem_append.mp hc with h | h
      · exact optionalSummary_spec _ _ c h
      · split at h
        · cases h
        · rw [List.mem_singleton] at h
          subst h
          exact importBlock_spec j imports
    · have := hdrafted.spans hroom.1
      rwa [hj.intact.lineStart_one, Source.lineStart_end hj.nonempty] at this

theorem chunkSections?_spec (hj : j.Ready) :
    ∃ found, j.chunkSections? = .ok found ∧ ∀ chunks, found = some chunks → j.Chunked chunks := by
  obtain ⟨secs, hsecs, hparts⟩ := Section.all_spec hj.intact hj.nonempty j.language
  simp only [chunkSections?, hsecs, bind, Except.bind]
  split
  · exact ⟨none, rfl, fun _ h => nomatch h⟩
  · next hne =>
    obtain ⟨dss, hdss, hdrafted⟩ := sectionsDrafts_spec hj (Nat.le_refl 1) (hparts (by simpa using hne))
      (Nat.le_refl _)
    obtain ⟨cut, hcut, hcuts⟩ := exists_cut hj hdrafted.sound
    simp only [hdss, hcut, pure, Except.pure]
    refine ⟨_, rfl, fun chunks h => ?_⟩
    obtain rfl := Option.some.inj h
    refine ⟨_, dss.flatten, cut, rfl, optionalSummary_spec _ _, hcuts, fun hroom => ?_⟩
    have := hdrafted.spans hroom.1
    rwa [hj.intact.lineStart_one, Source.lineStart_end hj.nonempty] at this

end Job

end CodeIndex
