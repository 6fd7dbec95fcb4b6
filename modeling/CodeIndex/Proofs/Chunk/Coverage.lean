import CodeIndex.Chunk.File
import CodeIndex.Proofs.Chunk.Routes

/-!
# Chunks cover their file

No octet of a file is lost: leaving the summaries aside, the chunks of a file are slices of it that start
at its beginning, follow each other without a gap and end at its end, each with the lines of its first and
last octet. This holds along symbols, along sections and by windows.
-/

namespace CodeIndex

/-- A chunk holds the octets from `start` to `stop` as they stand, and the lines of the first and the last of
them, counted by the line feeds in front. -/
structure Chunk.Copies (s : Source) (c : Chunk) (start stop : Nat) : Prop where
  nonempty : start < stop
  inside : stop ≤ s.size
  verbatim : c.content.toByteArray.data = s.octets.extract start stop
  lineStart : c.lineStart = s.row start + 1
  lineEnd : c.lineEnd = s.row (stop - 1) + 1

/-- Chunks that copy a source from its start to its end without a gap. -/
def CoverSource (s : Source) (chunks : List Chunk) : Prop :=
  ∃ cuts : List (Nat × Nat), List.Forall₂ (fun c cut => c.Copies s cut.1 cut.2) chunks cuts ∧
    cuts.head?.map (·.1) = some 0 ∧ cuts.getLast?.map (·.2) = some s.size ∧
    cuts.IsChain fun before after => after.1 ≤ before.2

namespace Job

variable {j : Job}

theorem CutOf.copies (hj : j.Ready) {d : Draft} {c : Chunk} (h : j.CutOf d c) :
    c.Copies j.source d.start d.stop := by
  obtain ⟨hverbatim, -, hsize⟩ := Source.toByteArray_of_slice? h.content
  have hlt : d.start < d.stop := h.sound.piece.lt
  refine ⟨hlt, hsize, hverbatim, ?_, ?_⟩
  · rw [h.chunk]
    exact h.sound.lineStart.trans (hj.intact.lineAt_eq_row (by omega))
  · rw [h.chunk]
    exact h.sound.lineEnd.trans (hj.intact.lineAt_eq_row (by omega))

theorem CutOf.not_isSummary {d : Draft} {c : Chunk} (h : j.CutOf d c) : c.kind.isSummary = false := by
  rw [h.chunk]
  exact h.sound.cut

/-- With room for all pieces, what is no summary covers the source. -/
theorem Chunked.covers (hj : j.Ready) (hroom : j.Roomy) {chunks : List Chunk} (h : j.Chunked chunks) :
    CoverSource j.source (chunks.filter (!·.kind.isSummary)) := by
  obtain ⟨summaries, drafts, cut, rfl, hsummaries, hcuts, hspans⟩ := h
  have hspans := hspans hroom
  have hfilter : (summaries ++ cut).filter (!·.kind.isSummary) = cut := by
    rw [List.filter_append, List.filter_eq_nil_iff.mpr, List.nil_append, List.filter_eq_self]
    · intro c hc
      obtain ⟨d, -, hd⟩ := exists_of_forall₂ hcuts hc
      simp [hd.not_isSummary]
    · intro c hc
      simp [(hsummaries c hc).kind]
  have hne : drafts.map (fun d => (d.start, d.stop)) ≠ [] := by
    intro hnil
    rw [hnil] at hspans
    exact absurd hspans.symm (Nat.ne_of_gt hj.nonempty)
  rw [hfilter]
  refine ⟨drafts.map fun d => (d.start, d.stop), ?_, ?_, hspans.linked.getLast? hne, hspans.linked.isChain⟩
  · rw [List.forall₂_map_right_iff]
    exact (hcuts.imp fun d c h => h.copies hj).flip
  · cases drafts with
    | nil => exact absurd rfl hne
    | cons d rest => exact congrArg some hspans.1

end Job

/-- A text with a character in it, within the word size, is ready to be cut. -/
theorem Job.ready_ofString {settings : ChunkSettings} {content : String} {c : Char} (hc : c ∈ content.toList)
    (hbudget : content.utf8ByteSize + settings.maxChars ≤ Window.wordSize) (path language : String) :
    Job.Ready { settings, source := .ofString content, path, language } where
  intact := Source.intact_ofString content
  nonempty := by
    rw [Source.size_ofString, Nat.pos_iff_ne_zero]
    intro hsize
    rw [String.utf8ByteSize_eq_zero_iff.mp hsize] at hc
    cases hc
  budget := by rwa [Source.size_ofString]

/-- The chunks of a file come by one of the three routes. -/
theorem chunkFile_chunked {r : Registry} {g : Grammars} {settings : ChunkSettings} {path content : String}
    {language firstLine : Option String} (hvisible : Text.isBlankText content = false)
    (hready : ∀ lang, Job.Ready { settings, source := .ofString content, path, language := lang })
    (hsyms : ∀ lang, language.or ((r.detect? path firstLine).map (·.name)) = some lang →
      ∀ sym ∈ (extract r g path lang content).symbols, sym.Placed (Source.ofString content).lineCount) :
    ∃ chunks lang, chunkFile r g settings path language firstLine content = .ok chunks ∧
      Job.Chunked { settings, source := .ofString content, path, language := lang } chunks := by
  unfold chunkFile
  simp only [hvisible, Bool.false_eq_true, if_false]
  cases hlang : language.or ((r.detect? path firstLine).map (·.name)) with
  | none =>
    obtain ⟨chunks, hchunks, h⟩ := Job.chunkWindows_spec (hready "text")
    exact ⟨chunks, "text", hchunks, h⟩
  | some lang =>
    obtain ⟨chunks, hchunks, hwindows⟩ := Job.chunkWindows_spec (hready lang)
    obtain ⟨found, hfound, hsections⟩ := Job.chunkSections?_spec (hready lang)
    dsimp only
    generalize hextracted : (if r.supports lang then extract r g path lang content else {}) = e
    have hplaced : ∀ sym ∈ e.symbols, sym.Placed (Source.ofString content).lineCount := by
      intro sym hsym
      rw [← hextracted] at hsym
      split at hsym
      · exact hsyms lang hlang sym hsym
      · cases hsym
    split
    · obtain ⟨chunks, hchunks, h⟩ := Job.chunkSymbols_spec (hready lang) e.imports hplaced
      exact ⟨chunks, lang, hchunks, h⟩
    · cases r.isConfig lang with
      | false => exact ⟨chunks, lang, hchunks, hwindows⟩
      | true =>
        simp only [if_true, hfound, bind, Except.bind]
        cases found with
        | none => exact ⟨chunks, lang, hchunks, hwindows⟩
        | some cs => exact ⟨cs, lang, rfl, hsections cs rfl⟩

/-- Leaving summaries aside, the chunks of a text that is not blank cover it: those of a file, whatever well
placed symbols its language finds, and those of each route by itself. -/
theorem chunks_cover_source (settings : ChunkSettings) (content : String)
    (hvisible : ∃ c ∈ content.toList, Text.isBlank c = false)
    (hsubchunks : content.utf8ByteSize < settings.maxSubchunks)
    (hwindows : content.utf8ByteSize < settings.maxWindows)
    (hbudget : content.utf8ByteSize + settings.maxChars ≤ Window.wordSize) (path : String) :
    (∀ (r : Registry) (g : Grammars) (language firstLine : Option String),
      (∀ lang, language.or ((r.detect? path firstLine).map (·.name)) = some lang →
        ∀ sym ∈ (extract r g path lang content).symbols, sym.Placed (Source.ofString content).lineCount) →
      ∃ chunks, chunkFile r g settings path language firstLine content = .ok chunks ∧
        CoverSource (.ofString content) (chunks.filter (!·.kind.isSummary))) ∧
    ∀ language : String, let j : Job := { settings, source := .ofString content, path, language }
      (∀ symbols imports, (∀ sym ∈ symbols, sym.Placed j.source.lineCount) →
        ∃ chunks, j.chunkSymbols symbols imports = .ok chunks ∧
          CoverSource j.source (chunks.filter (!·.kind.isSummary))) ∧
      (∃ found, j.chunkSections? = .ok found ∧
        ∀ chunks ∈ found, CoverSource j.source (chunks.filter (!·.kind.isSummary))) ∧
      ∃ chunks, j.chunkWindows = .ok chunks ∧ CoverSource j.source (chunks.filter (!·.kind.isSummary)) := by
  obtain ⟨c, hc, hblank⟩ := hvisible
  have hready := Job.ready_ofString hc hbudget path
  have hroom (language : String) :
      Job.Roomy { settings, source := .ofString content, path, language } := by
    rw [Job.Roomy, Source.size_ofString]
    exact ⟨hsubchunks, hwindows⟩
  refine ⟨fun r g language firstLine hsyms => ?_, fun language => ⟨fun symbols imports hsyms => ?_, ?_, ?_⟩⟩
  · have hblankText : Text.isBlankText content = false :=
      List.all_eq_false.mpr ⟨c, hc, by simp [hblank]⟩
    obtain ⟨chunks, lang, hchunks, h⟩ := chunkFile_chunked hblankText hready hsyms
    exact ⟨chunks, hchunks, h.covers (hready lang) (hroom lang)⟩
  · obtain ⟨chunks, hchunks, h⟩ := Job.chunkSymbols_spec (hready language) imports hsyms
    exact ⟨chunks, hchunks, h.covers (hready language) (hroom language)⟩
  · obtain ⟨found, hfound, h⟩ := Job.chunkSections?_spec (hready language)
    exact ⟨found, hfound, fun chunks hc => (h chunks hc).covers (hready language) (hroom language)⟩
  · obtain ⟨chunks, hchunks, h⟩ := Job.chunkWindows_spec (hready language)
    exact ⟨chunks, hchunks, h.covers (hready language) (hroom language)⟩

/-- A class around a method, cut by a budget that not even the two octets of a letter fit. -/
theorem chunks_cover_source_class :
    let content := "é = 1\nclass A:\n  def f(s): π\n\n  x = 2"
    let settings : ChunkSettings := { strategy := .hierarchical, maxTokens := 1, overlapTokens := 0
                                      charsPerToken := ⟨0x3ff0000000000000⟩, minSize := 1, largeSymbol := 1
                                      maxSubchunks := 50, maxWindows := 50 }
    let symbols : List Symbol := [⟨"A", "class", "a.py", 2, 5, none⟩, ⟨"f", "method", "a.py", 3, 9, some "A"⟩]
    let j : Job := { settings, source := .ofString content, path := "a.py", language := "python" }
    settings.maxChars = 1 ∧ (∀ sym ∈ symbols, sym.Placed j.source.lineCount) ∧
      (∃ chunks, chunkFile {} { parse := fun _ _ => none } settings "a.py" none none content = .ok chunks ∧
        CoverSource j.source (chunks.filter (!·.kind.isSummary))) ∧
      ∃ chunks, j.chunkSymbols symbols [] = .ok chunks ∧
        CoverSource j.source (chunks.filter (!·.kind.isSummary)) := by
  intro content settings symbols j
  have hplaced : ∀ sym ∈ symbols, sym.Placed j.source.lineCount := by
    have hlines : j.source.lineCount = 5 := by decide +kernel
    rw [hlines]
    intro sym hsym
    simp only [symbols, List.mem_cons, List.not_mem_nil, or_false] at hsym
    rcases hsym with rfl | rfl <;> exact ⟨by decide, by decide, by decide⟩
  have hcover := chunks_cover_source settings content ⟨'é', by decide, by decide⟩ (by decide)
    (by decide) (by decide) "a.py"
  exact ⟨by decide, hplaced, hcover.1 {} { parse := fun _ _ => none } none none (fun lang h => nomatch h),
    (hcover.2 "python").1 symbols [] hplaced⟩

end CodeIndex
