import CodeIndex.Proofs.Chunk.Routes

/-!
# Chunks keep to the budget

Every chunk, summaries included, fits the budget of its settings, or is a single character that does not
fit, or is flagged. A flagged chunk is one whole line that is longer than the budget.
-/

namespace CodeIndex

/-- The octets from `start` to `stop` are all those with a certain number of line feeds in front. -/
def Source.IsLine (s : Source) (start stop : Nat) : Prop :=
  start < stop ∧ stop ≤ s.size ∧ ∃ row, ∀ x < s.size, s.row x = row ↔ start ≤ x ∧ x < stop

structure Chunk.WithinBudget (s : Source) (budget : Nat) (c : Chunk) : Prop where
  fits : c.content.utf8ByteSize ≤ budget ∨
    (c.content.length = 1 ∧ budget < c.content.utf8ByteSize) ∨ c.isOversized = true
  flagged : c.isOversized = true → budget < c.content.utf8ByteSize ∧
    ∃ start stop, s.IsLine start stop ∧ c.content.toByteArray.data = s.octets.extract start stop

/-- The octets of a line of the line table are a line. -/
theorem Source.Intact.isLine {s : Source} (hs : s.Intact) (h0 : 0 < s.size) {line : Nat} (h1 : 1 ≤ line)
    (hl : line ≤ s.lineCount) : s.IsLine (s.lineStart line) (s.lineStart (line + 1)) := by
  refine ⟨hs.lineStart_lt h0 h1 (Nat.lt_add_one line) hl, hs.le_size (hs.isBoundary_lineStart _), line - 1,
    fun x hx => ?_⟩
  rw [← hs.lineAt_eq_iff h0 h1 hl hx, hs.lineAt_eq_row hx]
  omega

namespace Job

variable {j : Job}

theorem IsSummary.withinBudget {c : Chunk} (h : j.IsSummary c) :
    c.WithinBudget j.source j.settings.maxChars where
  fits := .inl h.fits
  flagged hflag := absurd hflag (by simp [h.plain])

theorem CutOf.withinBudget (hj : j.Ready) {d : Draft} {c : Chunk} (h : j.CutOf d c) :
    c.WithinBudget j.source j.settings.maxChars := by
  have hpiece := h.sound.piece
  have hsize : c.content.utf8ByteSize = d.stop - d.start := Source.utf8ByteSize_of_slice? h.content
  have hflag : c.isOversized = d.chunk.isOversized := by rw [h.chunk]; rfl
  refine ⟨?_, fun hover => ?_⟩
  · rw [hsize, hflag]
    rcases hpiece.fits with hfits | hsolid | hover
    · exact .inl hfits
    · rcases Nat.lt_or_ge j.settings.maxChars (d.stop - d.start) with hlt | hge
      · exact .inr (.inl ⟨hj.intact.length_slice hpiece.start hpiece.stop hpiece.lt hsolid h.content, hlt⟩)
      · exact .inl hge
    · exact .inr (.inr hover)
  · rw [hflag] at hover
    obtain ⟨line, h1, hl, hstart, hstop, hlong⟩ := hpiece.flagged hover
    rw [hsize]
    refine ⟨hlong, _, _, hj.intact.isLine hj.nonempty h1 hl, ?_⟩
    rw [← hstart, ← hstop]
    exact (Source.toByteArray_of_slice? h.content).1

theorem Chunked.withinBudget (hj : j.Ready) {chunks : List Chunk} (h : j.Chunked chunks) :
    ∀ c ∈ chunks, c.WithinBudget j.source j.settings.maxChars := by
  obtain ⟨summaries, drafts, cut, rfl, hsummaries, hcuts, -⟩ := h
  intro c hc
  rcases List.mem_append.mp hc with hc | hc
  · exact (hsummaries c hc).withinBudget
  · obtain ⟨d, -, hd⟩ := exists_of_forall₂ hcuts hc
    exact hd.withinBudget hj

/-- An empty text has no sections. -/
theorem all_of_lineCount (h : j.source.lineCount = 0) : Section.all j.language j.source = .ok [] := by
  have hlines : Section.numberedLines j.source = .ok [] := by
    unfold Section.numberedLines
    rw [h]
    rfl
  unfold Section.all
  split
  · rw [hlines]; rfl
  · split
    · rw [hlines]; rfl
    · rfl

theorem chunkSections?_of_lineCount (h : j.source.lineCount = 0) : j.chunkSections? = .ok none := by
  unfold chunkSections?
  rw [all_of_lineCount h]
  rfl

end Job

/-- On each route and at every budget, chunks of a text are within the budget. -/
theorem chunks_within_budget (settings : ChunkSettings) (content path language : String)
    (hbudget : content.utf8ByteSize + settings.maxChars ≤ Window.wordSize) :
    let j : Job := { settings, source := .ofString content, path, language }
    (∀ symbols imports, (∀ sym ∈ symbols, sym.Placed j.source.lineCount) →
      ∃ chunks, j.chunkSymbols symbols imports = .ok chunks ∧
        ∀ c ∈ chunks, c.WithinBudget j.source settings.maxChars) ∧
    (∃ found, j.chunkSections? = .ok found ∧
      ∀ chunks ∈ found, ∀ c ∈ chunks, c.WithinBudget j.source settings.maxChars) ∧
    ∃ chunks, j.chunkWindows = .ok chunks ∧ ∀ c ∈ chunks, c.WithinBudget j.source settings.maxChars := by
  intro j
  rcases Nat.eq_zero_or_pos j.source.size with hempty | hpos
  · have hlines : j.source.lineCount = 0 := by rw [Source.lineCount, if_pos hempty]
    refine ⟨fun symbols imports _ => ⟨[], ?_, by simp⟩,
      ⟨none, Job.chunkSections?_of_lineCount hlines, by simp⟩, ⟨[], ?_, by simp⟩⟩
    · simp only [Job.chunkSymbols, hlines, if_true]; rfl
    · simp only [Job.chunkWindows, hlines, if_true]; rfl
  · have hj : j.Ready := ⟨Source.intact_ofString content, hpos, by rwa [Source.size_ofString]⟩
    refine ⟨fun symbols imports hsyms => ?_, ?_, ?_⟩
    · obtain ⟨chunks, hchunks, h⟩ := Job.chunkSymbols_spec hj imports hsyms
      exact ⟨chunks, hchunks, h.withinBudget hj⟩
    · obtain ⟨found, hfound, h⟩ := Job.chunkSections?_spec hj
      exact ⟨found, hfound, fun chunks hc => (h chunks hc).withinBudget hj⟩
    · obtain ⟨chunks, hchunks, h⟩ := Job.chunkWindows_spec hj
      exact ⟨chunks, hchunks, h.withinBudget hj⟩

/-- A budget of one octet, with letters of two octets and a long first line of a function. -/
theorem chunks_within_budget_one_octet :
    let settings : ChunkSettings := { maxTokens := 1, charsPerToken := ⟨0x3ff0000000000000⟩, largeSymbol := 1 }
    let symbols : List Symbol := [⟨"f", "function", "a.py", 2, 7, none⟩]
    let j : Job := ⟨settings, .ofString "é = 1\ndef f(x):\n  π\n", "a.py", "python"⟩
    settings.maxChars = 1 ∧ (∀ sym ∈ symbols, sym.Placed j.source.lineCount) ∧
      ∃ chunks, j.chunkSymbols symbols [⟨"os", 1⟩] = .ok chunks ∧
        ∀ c ∈ chunks, c.WithinBudget j.source 1 := by
  intro settings symbols j
  have hplaced : ∀ sym ∈ symbols, sym.Placed j.source.lineCount := by
    have hlines : j.source.lineCount = 3 := by decide +kernel
    rw [hlines]
    intro sym hsym
    obtain rfl := List.mem_singleton.mp hsym
    exact ⟨by decide, by decide, by decide⟩
  have hmax : settings.maxChars = 1 := by decide
  have hchunks := (chunks_within_budget settings "é = 1\ndef f(x):\n  π\n" "a.py" "python" (by decide)).1
    symbols [⟨"os", 1⟩] hplaced
  rw [hmax] at hchunks
  exact ⟨hmax, hplaced, hchunks⟩

end CodeIndex
