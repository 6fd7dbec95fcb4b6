import CodeIndex.Proofs.Chunk.Plan
import CodeIndex.Proofs.Chunk.Sliding

/-!
# Sums of offsets and budgets

A window adds its budget to its offset, and fails if the sum is no word. Offsets lie in a text of fewer than 2^63 octets,
so that happens only if the budget is larger than the text and the window starts at least as far from its front as the
budget is from 2^64. If it does not happen, a budget for the whole text takes all that the window is given at once
(`Window.pieceEnd_of_le`). The step to the next window is half of the budget or small, and its sum is always a word.

A window over the whole file starts at 0, and those over sections that are too long have a small budget, so they do not
fail. Those over bodies and module code may (`window_sums_iff`).
-/

namespace CodeIndex

theorem Source.floorBoundary_eq {s : Source} {i : Nat} (hi : s.isBoundary i = true) : s.floorBoundary i = i :=
  Nat.le_antisymm (s.floorBoundary_le i) (le_floorBoundary hi (Nat.le_refl i))

namespace Window

variable {s : Source} {budget overlap start stop limit : Nat}

/-! ## One window -/

/-- A budget that reaches to the end takes all the text. -/
theorem pieceEnd_of_le (hlt : start < stop) (hstop : s.isBoundary stop = true) (hle : stop ≤ start + budget) :
    pieceEnd s budget start stop = stop := by
  have hreach : budgetEnd s budget start stop = stop := by
    unfold budgetEnd
    rw [Nat.min_eq_right hle, Source.floorBoundary_eq hstop]
    simp only
    rw [if_neg (by omega)]
  unfold pieceEnd
  simp only [hreach, Nat.lt_irrefl, if_false]

section Slide

variable (hlt : start < stop) (hlimit : 0 < limit)

include hlt hlimit

/-- The first piece of a window that is not idle starts where the window does. -/
theorem slide_cons : ∃ rest,
    slide s start stop budget overlap limit = ⟨start, pieceEnd s budget start stop, false⟩ :: rest ∧
      (pieceEnd s budget start stop = stop → rest = []) := by
  obtain ⟨limit, rfl⟩ : ∃ k, limit = k + 1 := ⟨limit - 1, by omega⟩
  rw [slide, if_neg (by omega), slideFrom]
  refine ⟨_, rfl, fun hend => ?_⟩
  rw [if_pos (Nat.le_of_eq hend.symm)]

/-- A budget that reaches to the end makes one piece. -/
theorem slide_eq_single (hstop : s.isBoundary stop = true) (hle : stop ≤ start + budget) :
    slide s start stop budget overlap limit = [⟨start, stop, false⟩] := by
  obtain ⟨rest, hcons, hlast⟩ := @slide_cons s budget overlap start stop limit hlt hlimit
  have hend := @pieceEnd_of_le s budget start stop hlt hstop hle
  rw [hcons, hlast hend, hend]

end Slide

end Window

theorem ChunkSettings.maxChars_lt (settings : ChunkSettings) : settings.maxChars < Window.wordSize := by
  have hoctets : settings.octets settings.maxTokens < 2 ^ 64 := UInt64.toNat_lt _
  have hword : Window.wordSize = 2 ^ 64 := rfl
  unfold maxChars
  omega

namespace Job

variable {j : Job} {start stop limit : Nat}

/-- What a window that is not idle makes of a stretch of text: which of its sums are words, and what it takes with a
budget for the whole file. -/
structure Slides (j : Job) (start stop limit : Nat) : Prop where
  /-- The sum for the step to the next piece is a word. -/
  step : ∀ p ∈ j.slide start stop limit, p.start + max (j.settings.maxChars / 2) Window.minStep < Window.wordSize
  /-- The sums of all pieces with the budget are words if the first one's is. -/
  reach : Window.InRange j.settings.maxChars (j.slide start stop limit) ↔
    start + j.settings.maxChars < Window.wordSize
  /-- The window gives its pieces then, and fails otherwise. -/
  result : j.windows start stop limit =
    Window.checked (start + j.settings.maxChars < Window.wordSize) (j.slide start stop limit)
  /-- With a budget for the whole file there is one piece, if the window does not fail. -/
  whole : j.source.size ≤ j.settings.maxChars →
    (j.windows start stop limit = .ok [⟨start, stop, false⟩] ↔ start + j.settings.maxChars < Window.wordSize)

theorem windows_slide (hs : j.source.Intact) (hsize : j.source.size < 2 ^ 63)
    (hstart : j.source.isBoundary start = true) (hstop : j.source.isBoundary stop = true) (hlt : start < stop)
    (hlimit : 0 < limit) : j.Slides start stop limit := by
  have hbudget := j.settings.maxChars_lt
  have hword : Window.wordSize = 2 ^ 64 := rfl
  have hend := hs.le_size hstop
  have hpiece : ∀ p ∈ j.slide start stop limit, start ≤ p.start ∧ p.start < stop := by
    intro p hp
    obtain ⟨pos, rfl, hle, hlt, -⟩ := Window.exists_of_mem_slide hs hstart hstop hp
    exact ⟨hle, hlt⟩
  have hsingle : stop ≤ start + j.settings.maxChars → j.slide start stop limit = [⟨start, stop, false⟩] :=
    Window.slide_eq_single hlt hlimit hstop
  have hreach : Window.InRange j.settings.maxChars (j.slide start stop limit) ↔
      start + j.settings.maxChars < Window.wordSize := by
    constructor
    · intro h
      obtain ⟨rest, hcons, -⟩ := @Window.slide_cons j.source j.settings.maxChars j.settings.overlapChars start stop
        limit hlt hlimit
      exact h ⟨start, _, false⟩ (by rw [slide, hcons]; exact List.mem_cons_self)
    · -- a budget that does not reach to the end is small, and one that does needs no second piece
      intro hsum p hp
      rcases Nat.lt_or_ge (start + j.settings.maxChars) stop with hshort | hlong
      · have := hpiece p hp
        omega
      · rw [hsingle hlong, List.mem_singleton] at hp
        subst hp
        exact hsum
  have hresult := (windows_eq j start stop limit).trans (Window.checked_congr hreach)
  refine ⟨fun p hp => ?_, hreach, hresult, fun hroom => ?_⟩
  · have := hpiece p hp
    simp only [Window.minStep]
    omega
  · rw [hresult, Window.checked_eq_ok_iff, hsingle (by omega)]
    exact and_iff_left rfl

/-! ## All windows of a plan -/

/-- Windows of a plan slide between characters. -/
def Bounded (j : Job) (plan : List Stretch) : Prop :=
  ∀ start stop limit, .slid start stop limit ∈ plan →
    j.source.isBoundary start = true ∧ j.source.isBoundary stop = true

/-- Every window of a plan that is not idle starts where the budget has a sum among the words. -/
def StartsInRange (j : Job) (plan : List Stretch) : Prop :=
  ∀ start stop limit, .slid start stop limit ∈ plan → start < stop → 0 < limit →
    start + j.settings.maxChars < Window.wordSize

/-- What comes of a plan: its chunks exactly if all sums of its windows are words. -/
structure Windowed (j : Job) (plan : List Stretch) (result : Except Source.Fault (List Chunk)) : Prop where
  slides : ∀ start stop limit, .slid start stop limit ∈ plan → start < stop → 0 < limit → j.Slides start stop limit
  sums : j.SumsInRange plan ↔ j.StartsInRange plan
  returns : j.SumsInRange plan → ∃ chunks, result = .ok chunks ∧ j.Planned plan chunks
  fails : ¬j.SumsInRange plan → result = .error .overflow

/-- A window over nothing, or without a piece to take, is idle. -/
theorem slide_idle (h : ¬(start < stop ∧ 0 < limit)) : j.slide start stop limit = [] := by
  unfold slide Window.slide
  split
  · rfl
  · obtain rfl : limit = 0 := by omega
    rfl

theorem sumsInRange_iff_forall {plan : List Stretch} : j.SumsInRange plan ↔
    ∀ start stop limit, .slid start stop limit ∈ plan →
      Window.InRange j.settings.maxChars (j.slide start stop limit) := by
  constructor
  · intro h start stop limit hslid p hp
    exact h p (List.mem_flatMap.mpr ⟨_, hslid, hp⟩)
  · intro h p hp
    obtain ⟨stretch, hstretch, hp⟩ := List.mem_flatMap.mp hp
    cases stretch with
    | whole => cases hp
    | slid start stop limit => exact h start stop limit hstretch p hp

section Sums

variable {plan : List Stretch} (hs : j.source.Intact) (hsize : j.source.size < 2 ^ 63) (hplan : j.Bounded plan)

include hs hsize hplan

theorem sumsInRange_iff : j.SumsInRange plan ↔ j.StartsInRange plan := by
  rw [sumsInRange_iff_forall]
  constructor
  · intro hsums start stop limit hslid hlt hlimit
    obtain ⟨hstart, hstop⟩ := hplan start stop limit hslid
    exact (windows_slide hs hsize hstart hstop hlt hlimit).reach.mp (hsums start stop limit hslid)
  · intro hstarts start stop limit hslid
    obtain ⟨hstart, hstop⟩ := hplan start stop limit hslid
    by_cases hactive : start < stop ∧ 0 < limit
    · exact (windows_slide hs hsize hstart hstop hactive.1 hactive.2).reach.mpr
        (hstarts start stop limit hslid hactive.1 hactive.2)
    · rw [slide_idle hactive]
      exact List.forall_mem_nil _

theorem Planned.windowed {chunks : List Chunk} (h : j.Planned plan chunks) :
    j.Windowed plan (Window.checked (j.SumsInRange plan) chunks) where
  slides start stop limit hslid hlt hlimit :=
    windows_slide hs hsize (hplan start stop limit hslid).1 (hplan start stop limit hslid).2 hlt hlimit
  sums := sumsInRange_iff hs hsize hplan
  returns hsums := ⟨chunks, Window.checked_of hsums, h⟩
  fails hsums := if_neg hsums

end Sums

/-! ## The plans are bounded -/

section Plans

theorem Bounded.append {plan plan' : List Stretch} (h : j.Bounded plan) (h' : j.Bounded plan') :
    j.Bounded (plan ++ plan') :=
  fun start stop limit hslid => (List.mem_append.mp hslid).elim (h start stop limit) (h' start stop limit)

theorem bounded_flatMap {α : Type} {planOf : α → List Stretch} {as : List α} (h : ∀ a ∈ as, j.Bounded (planOf a)) :
    j.Bounded (as.flatMap planOf) := by
  intro start stop limit hslid
  obtain ⟨a, ha, hslid⟩ := List.mem_flatMap.mp hslid
  exact h a ha start stop limit hslid

theorem bounded_whole : j.Bounded [.whole start stop] := by
  intro _ _ _ hslid
  cases List.mem_singleton.mp hslid

variable (hs : j.source.Intact)

include hs

theorem linePlan_bounded (first last : Nat) : j.Bounded (j.linePlan first last) := by
  intro start stop limit hslid
  unfold linePlan at hslid
  split at hslid
  · cases List.mem_singleton.mp hslid
    exact ⟨hs.isBoundary_lineStart _, hs.isBoundary_lineStart _⟩
  · cases hslid

theorem piecePlan_bounded (first last : Nat) (protect : Bool) : j.Bounded (j.piecePlan first last protect) := by
  intro start stop limit hslid
  unfold piecePlan at hslid
  split at hslid
  · simp only [List.mem_cons, List.not_mem_nil, or_false, reduceCtorEq, false_or] at hslid
    cases hslid
    exact ⟨hs.isBoundary_lineStart _, hs.isBoundary_lineStart _⟩
  · cases List.mem_singleton.mp hslid
    exact ⟨hs.isBoundary_lineStart _, hs.isBoundary_lineStart _⟩

theorem fitPlan_bounded (first last : Nat) : j.Bounded (j.fitPlan first last) := by
  unfold fitPlan
  split
  · exact bounded_whole
  · exact piecePlan_bounded hs first last true

theorem symbolPlan_bounded (sym : Symbol) (first last : Nat) : j.Bounded (j.symbolPlan sym first last) := by
  unfold symbolPlan
  split
  · exact ((linePlan_bounded hs _ _).append bounded_whole).append (linePlan_bounded hs _ _)
  · exact fitPlan_bounded hs first last

theorem segmentPlan_bounded (symbols : List Symbol) (seg : Layout.Segment) : j.Bounded (j.segmentPlan symbols seg) := by
  unfold segmentPlan
  split
  · exact piecePlan_bounded hs _ _ false
  · split
    · exact symbolPlan_bounded hs _ _ _
    · refine bounded_flatMap fun part _ => ?_
      unfold partPlan
      cases part.symbol with
      | none => exact fitPlan_bounded hs _ _
      | some m => exact symbolPlan_bounded hs m _ _

theorem windowPlan_bounded : j.Bounded j.windowPlan := by
  intro start stop limit hslid
  unfold windowPlan at hslid
  split at hslid
  · cases hslid
  · cases List.mem_singleton.mp hslid
    exact ⟨hs.isBoundary_zero, hs.isBoundary_size⟩

theorem symbolsPlan_bounded (symbols : List Symbol) : j.Bounded (j.symbolsPlan symbols) := by
  unfold symbolsPlan
  split
  · exact windowPlan_bounded hs
  · exact bounded_flatMap fun seg _ => segmentPlan_bounded hs symbols seg

theorem sectionsPlan_bounded : j.Bounded j.sectionsPlan := by
  unfold sectionsPlan
  split
  · exact bounded_flatMap fun sec _ => fitPlan_bounded hs _ _
  · intro _ _ _ hslid
    cases hslid

/-- Windows over sections have a budget that is smaller than the section. -/
theorem sectionsPlan_startsInRange (hsize : j.source.size < 2 ^ 63) : j.StartsInRange j.sectionsPlan := by
  intro start stop limit hslid hlt _
  have hend := hs.le_size (sectionsPlan_bounded hs start stop limit hslid).2
  have hword : Window.wordSize = 2 ^ 64 := rfl
  unfold sectionsPlan at hslid
  split at hslid
  · obtain ⟨sec, -, hslid⟩ := List.mem_flatMap.mp hslid
    unfold fitPlan at hslid
    split at hslid
    · cases List.mem_singleton.mp hslid
    · next hlong =>
      have := hs.le_size (hs.isBoundary_lineStart (sec.last + 1))
      unfold extent at hlong
      omega
  · cases hslid

omit hs in
theorem windowPlan_startsInRange : j.StartsInRange j.windowPlan := by
  intro start stop limit hslid _ _
  have hbudget := j.settings.maxChars_lt
  unfold windowPlan at hslid
  split at hslid
  · cases hslid
  · cases List.mem_singleton.mp hslid
    omega

end Plans

end Job

/-- What the windows over a file take at every budget. Along sections and over the whole file every sum is a word; along
symbols all are exactly if no window starts so far behind that its sum with the budget is none, and otherwise chunking
fails. -/
theorem window_sums_iff (settings : ChunkSettings) (content path language : String)
    (hsize : content.utf8ByteSize < 2 ^ 63) :
    let j : Job := ⟨settings, .ofString content, path, language⟩
    (∀ symbols imports, (∀ sym ∈ symbols, sym.Placed j.source.lineCount) →
      j.Windowed (j.symbolsPlan symbols) (j.chunkSymbols symbols imports)) ∧
    (j.SumsInRange j.sectionsPlan ∧ ∃ found, j.chunkSections? = .ok found ∧ ∀ chunks, found = some chunks →
      j.Windowed j.sectionsPlan (.ok chunks)) ∧
    j.SumsInRange j.windowPlan ∧ j.Windowed j.windowPlan j.chunkWindows := by
  intro j
  have hs : j.source.Intact := Source.intact_ofString content
  have hsize : j.source.size < 2 ^ 63 := by rwa [← Source.size_ofString] at hsize
  refine ⟨fun symbols imports hsyms => ?_, ?_, ?_⟩
  · obtain ⟨chunks, hplanned, hchunks⟩ := Job.chunkSymbols_planned hs imports
      (fun sym hsym => (hsyms sym hsym).start_le_end)
      fun seg hseg part hpart => .inl (Job.cutParts_inside hs hsyms seg hseg part hpart)
    rw [hchunks]
    exact hplanned.windowed hs hsize (Job.symbolsPlan_bounded hs symbols)
  · have hplan := Job.sectionsPlan_bounded hs
    have hsums := (Job.sumsInRange_iff hs hsize hplan).mpr (Job.sectionsPlan_startsInRange hs hsize)
    obtain ⟨found, hplanned, hfound⟩ := Job.chunkSections?_planned hs
    refine ⟨hsums, found, hfound.trans (Window.checked_of hsums), fun chunks h => ?_⟩
    rw [← Window.checked_of (a := chunks) hsums]
    exact (hplanned chunks h).windowed hs hsize hplan
  · have hplan := Job.windowPlan_bounded hs
    obtain ⟨chunks, hplanned, hchunks⟩ := Job.chunkWindows_planned hs
    rw [hchunks]
    exact ⟨(Job.sumsInRange_iff hs hsize hplan).mpr Job.windowPlan_startsInRange, hplanned.windowed hs hsize hplan⟩

/-- The largest budget that is less than the largest word: the body of a function is one piece. -/
theorem window_sums_iff_large_budget :
    let settings : ChunkSettings :=
      { maxTokens := 2 ^ 64 - 2048, charsPerToken := ⟨0x3ff0000000000000⟩, largeSymbol := 1 }
    let content := "def f():\n  x\n  y\n"
    let f : Symbol := ⟨"f", "function", "a.py", 1, 3, none⟩
    let j : Job := ⟨settings, .ofString content, "a.py", "python"⟩
    settings.maxChars = 2 ^ 64 - 2048 ∧ content.utf8ByteSize < 2 ^ 63 ∧ f.Placed j.source.lineCount ∧
      j.symbolsPlan [f] = [.whole 0 9, .slid 9 17 10] ∧ j.SumsInRange (j.symbolsPlan [f]) ∧
      j.windows 9 17 10 = .ok [⟨9, 17, false⟩] ∧
      ∃ chunks, j.chunkSymbols [f] [] = .ok chunks ∧ j.Planned [.whole 0 9, .slid 9 17 10] chunks := by
  intro settings content f j
  have hmax : settings.maxChars = 2 ^ 64 - 2048 := by decide
  have hcontent : content.utf8ByteSize < 2 ^ 63 := by decide
  have hlines : j.source.lineCount = 3 := by decide +kernel
  have hplaced : f.Placed j.source.lineCount := by
    rw [hlines]
    exact ⟨by decide, by decide, by decide⟩
  have htop : Layout.outermost [f] 3 = [f] := by
    dsimp only [Layout.outermost]
    rw [List.mergeSort_of_pairwise] <;> decide
  have hplan : j.symbolsPlan [f] = [.whole 0 9, .slid 9 17 10] := by
    simp only [Job.symbolsPlan, Job.segmentsOf, hlines, htop]
    decide +kernel
  have hwindowed := (window_sums_iff settings content "a.py" "python" hcontent).1 [f] []
    fun sym hsym => List.mem_singleton.mp hsym ▸ hplaced
  rw [show Job.symbolsPlan _ [f] = _ from hplan] at hwindowed
  have hslides := hwindowed.slides 9 17 10 (by decide) (by decide) (by decide)
  have hstart : 9 + settings.maxChars < Window.wordSize := by
    rw [hmax]
    decide
  have hsums : j.SumsInRange [.whole 0 9, .slid 9 17 10] := by
    refine hwindowed.sums.mpr fun start stop limit hslid _ _ => ?_
    simp only [List.mem_cons, List.not_mem_nil, or_false, reduceCtorEq, false_or] at hslid
    cases hslid
    exact hstart
  exact ⟨hmax, hcontent, hplaced, hplan, by rw [hplan]; exact hsums, (hslides.whole (by decide +kernel)).mpr hstart,
    hwindowed.returns hsums⟩

/-- With the largest word as budget the window over the body of the same function fails. -/
theorem body_sum_overflows :
    let settings : ChunkSettings := { maxTokens := 2 ^ 64 - 1, largeSymbol := 1, fileSummary := false }
    let f : Symbol := ⟨"f", "function", "a.py", 1, 3, none⟩
    let j : Job := ⟨settings, .ofString "def f():\n  x\n  y\n", "a.py", "python"⟩
    j.source.size = 17 ∧ settings.maxChars = 2 ^ 64 - 1 ∧ j.symbolsPlan [f] = [.whole 0 9, .slid 9 17 10] ∧
      Window.wordSize ≤ 9 + settings.maxChars ∧ j.windows 9 17 10 = .error .overflow ∧
      j.chunkSymbols [f] [] = .error .overflow := by
  intro settings f j
  have hlines : j.source.lineCount = 3 := by decide +kernel
  have htop : Layout.outermost [f] 3 = [f] := by
    dsimp only [Layout.outermost]
    rw [List.mergeSort_of_pairwise] <;> decide
  refine ⟨by decide +kernel, by decide, ?_, by decide, by decide +kernel, ?_⟩
  · simp only [Job.symbolsPlan, Job.segmentsOf, hlines, htop]
    decide +kernel
  · simp only [Job.chunkSymbols, hlines, htop]
    decide +kernel

end CodeIndex
