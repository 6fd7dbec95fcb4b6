import CodeIndex.Proofs.Chunk.Budget
import CodeIndex.Proofs.Chunk.Ownership

/-!
# Which text is cut and which is slid over

The lines of a file, of a symbol or of a section are parted into stretches: some are one chunk each, and over the
others a window slides. A plan lists the stretches in order. Each function that drafts chunks has its plan and one
lemma: on lines that the file has it fails only if a sum of its windows is no word, and otherwise its drafts name slices
of the text in the places that the plan gives (`Job.KeepsTo`). Windows are called for the slid stretches of a plan and
for no others.
-/

namespace CodeIndex

/-- A stretch of text that is one chunk, or that a window slides over in at most `limit` pieces. -/
inductive Stretch where
  | whole (start stop : Nat)
  | slid (start stop limit : Nat)
  deriving DecidableEq, Repr

namespace Job

/-! ## Plans -/

/-- The places of the chunks of a stretch. -/
def places (j : Job) : Stretch → List (Nat × Nat)
  | .whole start stop => [(start, stop)]
  | .slid start stop limit => (j.slide start stop limit).map Piece.range

/-- The pieces that a window takes of a stretch. -/
def slidOver (j : Job) : Stretch → List Piece
  | .whole _ _ => []
  | .slid start stop limit => j.slide start stop limit

/-- All windows of a plan start where the budget has a sum among the words. -/
def SumsInRange (j : Job) (plan : List Stretch) : Prop :=
  Window.InRange j.settings.maxChars (plan.flatMap j.slidOver)

instance (j : Job) (plan : List Stretch) : Decidable (j.SumsInRange plan) :=
  inferInstanceAs (Decidable (Window.InRange _ _))

/-- The octets that lines take, in the file or as far as it goes. -/
def extent (j : Job) (first last : Nat) : Nat :=
  j.source.lineStart (last + 1) - j.source.lineStart first

/-- Windows over lines, if there are any. -/
def linePlan (j : Job) (first last : Nat) : List Stretch :=
  if first ≤ last then
    [.slid (j.source.lineStart first) (j.source.lineStart (last + 1)) j.settings.maxSubchunks]
  else []

/-- Windows over lines. A first line that is too long stays whole where `protect` says so. -/
def piecePlan (j : Job) (first last : Nat) (protect : Bool) : List Stretch :=
  let stop := j.source.lineStart (last + 1)
  if protect = true ∧ j.settings.maxChars < j.extent first first then
    let next := j.source.lineStart (first + 1)
    [.whole (j.source.lineStart first) next, .slid next stop (j.settings.maxSubchunks - 1)]
  else [.slid (j.source.lineStart first) stop j.settings.maxSubchunks]

/-- Lines that are one chunk if they fit. -/
def fitPlan (j : Job) (first last : Nat) : List Stretch :=
  if j.extent first last ≤ j.settings.maxChars then
    [.whole (j.source.lineStart first) (j.source.lineStart (last + 1))]
  else j.piecePlan first last true

/-- The last line of a symbol's header. -/
def headerEnd (sym : Symbol) (first last : Nat) : Nat := min (max sym.startLine first) last

/-- A header, after windows over lines that would make it too long, and windows over the body. -/
def splitPlan (j : Job) (sym : Symbol) (first last : Nat) : List Stretch :=
  let stop := headerEnd sym first last
  let start := if first < stop ∧ j.settings.maxChars < j.extent first stop then stop else first
  j.linePlan first (start - 1) ++ [.whole (j.source.lineStart start) (j.source.lineStart (stop + 1))] ++
    j.linePlan (stop + 1) last

/-- Whether a symbol is split into its header and its body. -/
def splits (j : Job) (first last : Nat) : Bool :=
  j.settings.strategy ≠ .symbolOnly && j.settings.largeSymbol < last - first + 1

def symbolPlan (j : Job) (sym : Symbol) (first last : Nat) : List Stretch :=
  if j.splits first last then j.splitPlan sym first last else j.fitPlan first last

/-- The plan of a part of a class: its head where no member has the lines. -/
def partPlan (j : Job) (part : Layout.Segment) : List Stretch :=
  part.symbol.elim (j.fitPlan part.first part.last) (j.symbolPlan · part.first part.last)

/-- The parts into which the segment of a class is cut up; none where a segment is not. -/
def cutParts (j : Job) (symbols : List Symbol) (seg : Layout.Segment) : List Layout.Segment :=
  match seg.symbol with
  | none => []
  | some sym =>
    let members :=
      if j.settings.strategy = .hierarchical && ChunkKind.ofSymbolKind sym.kind = .classLike then
        Layout.members symbols sym
      else []
    if members.isEmpty then [] else Layout.classParts seg.first seg.last members

def segmentPlan (j : Job) (symbols : List Symbol) (seg : Layout.Segment) : List Stretch :=
  match seg.symbol with
  | none => j.piecePlan seg.first seg.last false
  | some sym =>
    if (j.cutParts symbols seg).isEmpty then j.symbolPlan sym seg.first seg.last
    else (j.cutParts symbols seg).flatMap j.partPlan

def windowPlan (j : Job) : List Stretch :=
  if j.source.lineCount = 0 then [] else [.slid 0 j.source.size j.settings.maxWindows]

/-- The segments of a file along symbols; none where no symbol lies in the file. -/
def segmentsOf (j : Job) (symbols : List Symbol) : List Layout.Segment :=
  let top := Layout.outermost symbols j.source.lineCount
  if top.isEmpty then []
  else match Layout.segments j.source top j.source.lineCount j.settings.minSize with
    | .ok segs => segs
    | .error _ => []

/-- The plan of a file along symbols, which is slid over whole where none lies in it. -/
def symbolsPlan (j : Job) (symbols : List Symbol) : List Stretch :=
  if (Layout.outermost symbols j.source.lineCount).isEmpty then j.windowPlan
  else (j.segmentsOf symbols).flatMap (j.segmentPlan symbols)

/-- The plan of a file along its sections. -/
def sectionsPlan (j : Job) : List Stretch :=
  match Section.all j.language j.source with
  | .ok secs => secs.flatMap fun sec => j.fitPlan sec.first sec.last
  | .error _ => []

/-! ## Drafts that follow a plan -/

/-- Drafts of slices in the places of a plan. -/
structure OnPlan (j : Job) (plan : List Stretch) (drafts : List Draft) : Prop where
  located : ∀ d ∈ drafts, d.Located j.source
  places : drafts.map Draft.range = plan.flatMap j.places

/-- Drafts that follow a plan, or a fault where one of its sums is no word. -/
def KeepsTo (j : Job) (plan : List Stretch) (result : Except Source.Fault (List Draft)) : Prop :=
  ∃ drafts, j.OnPlan plan drafts ∧ result = Window.checked (j.SumsInRange plan) drafts

variable {j : Job}

theorem sumsInRange_append {plan plan' : List Stretch} :
    j.SumsInRange (plan ++ plan') ↔ j.SumsInRange plan ∧ j.SumsInRange plan' := by
  rw [SumsInRange, List.flatMap_append]
  exact List.forall_mem_append

theorem sumsInRange_whole (start stop : Nat) : j.SumsInRange [.whole start stop] := by
  intro p hp
  cases hp

theorem windows_eq_checked (start stop limit : Nat) :
    j.windows start stop limit = Window.checked (j.SumsInRange [.slid start stop limit]) (j.slide start stop limit) := by
  rw [windows_eq]
  exact Window.checked_congr (by rw [SumsInRange, List.flatMap_singleton, slidOver])

theorem OnPlan.nil : j.OnPlan [] [] := ⟨by simp, rfl⟩

theorem OnPlan.append {plan plan' : List Stretch} {drafts more : List Draft} (h : j.OnPlan plan drafts)
    (h' : j.OnPlan plan' more) : j.OnPlan (plan ++ plan') (drafts ++ more) where
  located d hd := (List.mem_append.mp hd).elim (h.located d) (h'.located d)
  places := by rw [List.map_append, h.places, h'.places, List.flatMap_append]

theorem KeepsTo.nil : j.KeepsTo [] (.ok []) :=
  ⟨[], .nil, (Window.checked_of (List.forall_mem_nil _)).symm⟩

/-- Two steps, the second of which may depend on the first, follow one plan and then the other. -/
theorem KeepsTo.append {plan plan' : List Stretch} {result : Except Source.Fault (List Draft)}
    {more : List Draft → Except Source.Fault (List Draft)} (h : j.KeepsTo plan result)
    (h' : ∀ drafts, j.KeepsTo plan' (more drafts)) :
    j.KeepsTo (plan ++ plan') (result >>= fun own => (more own).map (own ++ ·)) := by
  obtain ⟨own, hown, rfl⟩ := h
  obtain ⟨rest, hrest, hmore⟩ := h' own
  refine ⟨own ++ rest, hown.append hrest, ?_⟩
  rw [Window.checked_bind (q := j.SumsInRange plan') (b := own ++ rest) (by rw [hmore, Window.checked_map])]
  exact Window.checked_congr sumsInRange_append.symm

/-- Numbered drafts of pieces that lie in the places of a plan. -/
theorem onPlan_zipIdx {plan : List Stretch} {ps : List Piece} {draftOf : Piece × Nat → Draft}
    (hplaces : ps.map Piece.range = plan.flatMap j.places)
    (hlocated : ∀ p ∈ ps, ∀ i, (draftOf (p, i)).Located j.source)
    (hrange : ∀ p i, (draftOf (p, i)).range = p.range) : j.OnPlan plan (ps.zipIdx.map draftOf) where
  located d hd := by
    obtain ⟨⟨p, i⟩, hpi, rfl⟩ := List.mem_map.mp hd
    exact hlocated p (List.fst_mem_of_mem_zipIdx hpi) i
  places := (map_range_zipIdx ps hrange).trans hplaces

variable (hs : j.source.Intact) (h0 : 0 < j.source.size)

include hs

/-- Windows cut slices at every budget. -/
theorem slide_cut {start stop limit : Nat} (hstart : j.source.isBoundary start = true)
    (hstop : j.source.isBoundary stop = true) : ∀ p ∈ j.slide start stop limit, p.Cuts j.source :=
  fun _ hp => (Window.mem_slide hs hstart hstop hp).1

include h0

theorem pieces_onPlan {first last : Nat} (protect : Bool) (h1 : 1 ≤ first) (hle : first ≤ last)
    (hn : first ≤ j.source.lineCount) :
    ∃ ps, j.pieces first last protect = Window.checked (j.SumsInRange (j.piecePlan first last protect)) ps ∧
      (∀ p ∈ ps, p.Cuts j.source) ∧ ps.map Piece.range = (j.piecePlan first last protect).flatMap j.places := by
  have hcut := hs.lines_cut h0 h1 hle hn
  have hfirst := hs.lines_cut h0 h1 (Nat.le_refl first) hn
  simp only [pieces, piecePlan, Source.span_eq h0 _ h1 hn, bind, Except.bind, pure, Except.pure]
  rw [show j.source.lineStart (first + 1) - j.source.lineStart first = j.extent first first from rfl]
  cases protect with
  | false => exact ⟨_, windows_eq_checked _ _ _, slide_cut hs hcut.start hcut.stop, by simp [places]⟩
  | true =>
    simp only [if_true, true_and]
    split
    · -- the first line stays whole, and windows take the rest
      refine ⟨⟨j.source.lineStart first, j.source.lineStart (first + 1), true⟩ ::
        j.slide (j.source.lineStart (first + 1)) (j.source.lineStart (last + 1)) (j.settings.maxSubchunks - 1), ?_,
        fun p hp => ?_, by simp [places, Piece.range]⟩
      · rw [windows_eq_checked]
        exact (Window.checked_map _).trans (Window.checked_congr (and_iff_right (sumsInRange_whole _ _)).symm |>.trans
          (Window.checked_congr sumsInRange_append.symm))
      · rcases List.mem_cons.mp hp with rfl | hp
        · exact ⟨hfirst.lt, hfirst.start, hfirst.stop⟩
        · exact slide_cut hs hfirst.stop hcut.stop p hp
    · exact ⟨_, windows_eq_checked _ _ _, slide_cut hs hcut.start hcut.stop, by simp [places]⟩

/-- Lines of the file as one chunk. -/
theorem wholeLines_onPlan (id : String) {kind : ChunkKind} {first last : Nat} {f : Chunk → Chunk}
    (h1 : 1 ≤ first) (hle : first ≤ last) (hn : last ≤ j.source.lineCount) (hkind : kind.isSummary = false)
    (hf : Chunk.Keeps f) :
    ∃ d, j.wholeLines id kind first last = .ok d ∧ ∀ flag,
      j.OnPlan [.whole (j.source.lineStart first) (j.source.lineStart (last + 1))]
        [d.map fun c => markOversized ⟨0, 0, flag⟩ (f c)] := by
  have hcut := hs.lines_cut h0 h1 hle (Nat.le_trans hle hn)
  refine ⟨_, wholeLines_eq hs h0 id kind h1 hle hn, fun flag => ⟨fun d hd => ?_, rfl⟩⟩
  obtain rfl := List.mem_singleton.mp hd
  exact draft_located (p := ⟨j.source.lineStart first, j.source.lineStart (last + 1), flag⟩)
    ⟨hcut.lt, hcut.start, hcut.stop⟩ hkind hf

theorem windowedLines_keepsTo (sym : Symbol) (lineCount : Nat) (id mark : String) {kind : ChunkKind}
    {first last : Nat} (hkind : kind.isSummary = false) (h1 : 1 ≤ first)
    (hn : first ≤ last → first ≤ j.source.lineCount) :
    j.KeepsTo (j.linePlan first last) (j.windowedLines sym lineCount id mark kind first last) := by
  unfold windowedLines linePlan
  split
  · next hle =>
    have hcut := hs.lines_cut h0 h1 hle (hn hle)
    simp only [Source.span_eq h0 last h1 (hn hle), windows_eq_checked]
    refine ⟨j.numbered sym lineCount id mark kind
      (j.slide (j.source.lineStart first) (j.source.lineStart (last + 1)) j.settings.maxSubchunks),
      onPlan_zipIdx (by simp [places]) (fun p hp i => ?_) fun _ _ => rfl, ?_⟩
    · exact draft_located (slide_cut hs hcut.start hcut.stop p hp) hkind
        ((Chunk.keeps_note "chunk_index" (toString i) (by decide)).comp (keeps_dress sym lineCount (some id)))
    · exact Window.checked_map _
  · exact .nil

/-- Lines as one chunk if they fit, and in numbered pieces if they do not. Only in pieces may they go past the file. -/
theorem fit_keepsTo {id : String} {kind : ChunkKind} {first last : Nat} {f : Chunk → Chunk}
    {draftOf : Piece × Nat → Draft} (h1 : 1 ≤ first) (hle : first ≤ last) (hn : first ≤ j.source.lineCount)
    (hin : last ≤ j.source.lineCount ∨ j.settings.maxChars < j.extent first last) (hkind : kind.isSummary = false)
    (hf : Chunk.Keeps f) (hlocated : ∀ p, p.Cuts j.source → ∀ i, (draftOf (p, i)).Located j.source)
    (hrange : ∀ p i, (draftOf (p, i)).range = p.range) :
    j.KeepsTo (j.fitPlan first last) (if j.extent first last ≤ j.settings.maxChars then do
        return [(← j.wholeLines id kind first last).map f]
      else do
        return (← j.pieces first last true).zipIdx.map draftOf) := by
  unfold fitPlan
  split
  · obtain ⟨d, hd, hon⟩ := wholeLines_onPlan hs h0 id h1 hle (by omega) hkind hf
    rw [hd]
    exact ⟨_, hon false, (Window.checked_of (sumsInRange_whole _ _)).symm⟩
  · obtain ⟨ps, hps, hcuts, hplaces⟩ := pieces_onPlan hs h0 true h1 hle hn
    rw [hps]
    exact ⟨_, onPlan_zipIdx hplaces (fun p hp i => hlocated p (hcuts p hp) i) hrange, Window.checked_map _⟩

omit hs in
theorem lineSize_extent {first : Nat} (last : Nat) (h1 : 1 ≤ first) (hn : first ≤ j.source.lineCount) :
    j.lineSize first last = .ok (j.extent first last) :=
  lineSize_eq h0 last h1 hn

/-! ## One symbol -/

omit hs in
theorem headerStart_eq {first stop : Nat} (h1 : 1 ≤ first) (hn : first ≤ j.source.lineCount) :
    j.headerStart first stop =
      .ok (if first < stop ∧ j.settings.maxChars < j.extent first stop then stop else first) := by
  unfold headerStart
  rw [lineSize_extent h0 stop h1 hn]
  by_cases hlt : first < stop
  · rw [if_pos hlt]
    simp only [hlt, true_and]
    rfl
  · rw [if_neg hlt, if_neg fun h => hlt h.1]

/-- A split symbol follows its plan where its header, and a line of the body if there is one, are in the file. -/
theorem splitBody_keepsTo (sym : Symbol) (id : String) (parent : Option String) {first last : Nat}
    (h1 : 1 ≤ first) (hle : first ≤ last) (hn : first ≤ j.source.lineCount)
    (hin : last ≤ j.source.lineCount ∨ headerEnd sym first last < j.source.lineCount) :
    j.KeepsTo (j.splitPlan sym first last) (j.splitBody sym id first last parent) := by
  unfold splitBody splitPlan
  rw [show min (max sym.startLine first) last = headerEnd sym first last from rfl]
  have hstop : first ≤ headerEnd sym first last ∧ headerEnd sym first last ≤ last := by
    unfold headerEnd
    omega
  generalize headerEnd sym first last = stop at hin hstop ⊢
  simp only [headerStart_eq h0 h1 hn]
  generalize hstart : (if first < stop ∧ j.settings.maxChars < j.extent first stop then stop else first) = start
  have hbounds : first ≤ start ∧ start ≤ stop := by
    rw [← hstart]
    split <;> omega
  obtain ⟨lead, hleads, hlead⟩ := windowedLines_keepsTo hs h0 sym (last - first + 1) id "lead" (rfl :
    ChunkKind.methodHeader.isSummary = false) h1 (by omega : first ≤ start - 1 → first ≤ j.source.lineCount)
  obtain ⟨body, hbodys, hbody⟩ := windowedLines_keepsTo hs h0 sym (last - first + 1) id "body" (rfl :
    ChunkKind.methodBody.isSummary = false) (Nat.le_add_left 1 stop)
    (by omega : stop + 1 ≤ last → stop + 1 ≤ j.source.lineCount)
  obtain ⟨header, hheader, hheaders⟩ := wholeLines_onPlan hs h0 id (by omega) hbounds.2 (by omega) (rfl :
    ChunkKind.methodHeader.isSummary = false) (keeps_dress sym (last - first + 1) parent)
  refine ⟨_, (hleads.append (hheaders (decide (j.settings.maxChars < header.stop - header.start)))).append hbodys, ?_⟩
  rw [show (Except.ok start : Except Source.Fault Nat) = pure start from rfl, pure_bind, hlead, hheader, hbody]
  refine (Window.checked_bind (p := j.SumsInRange (j.linePlan first (start - 1)))
    (q := j.SumsInRange (j.linePlan (stop + 1) last)) ?_).trans (Window.checked_congr ?_)
  · exact Window.checked_map _
  · rw [sumsInRange_append, sumsInRange_append, and_iff_left (sumsInRange_whole _ _)]

/-- Whether all chunks of lines that go past the end of the file stay inside it: those of a split symbol when the
header ends before the last line of the file, and otherwise those of lines that are too long for one chunk. -/
def Contained (j : Job) (sym : Option Symbol) (first last : Nat) : Prop :=
  match sym with
  | some sym =>
    if j.splits first last then headerEnd sym first last < j.source.lineCount
    else j.settings.maxChars < j.extent first last
  | none => j.settings.maxChars < j.extent first last

omit hs in
theorem symbolDrafts_eq (sym : Symbol) (parent : Option String) {first : Nat} (last : Nat) (h1 : 1 ≤ first)
    (hn : first ≤ j.source.lineCount) :
    let id := j.path ++ ":" ++ sym.qualifiedName
    let kind := ChunkKind.ofSymbolKind sym.kind
    j.symbolDrafts sym first last parent =
      if j.splits first last then j.splitBody sym id first last parent
      else if j.extent first last ≤ j.settings.maxChars then do
        return [(← j.wholeLines id kind first last).map (dress sym (last - first + 1) parent)]
      else do
        return j.numbered sym (last - first + 1) id "part" (.part kind) (← j.pieces first last true) := by
  simp only [symbolDrafts, lineSize_extent h0 last h1 hn]
  rfl

theorem symbolDrafts_keepsTo (sym : Symbol) (parent : Option String) {first last : Nat} (h1 : 1 ≤ first)
    (hle : first ≤ last) (hn : first ≤ j.source.lineCount)
    (hin : last ≤ j.source.lineCount ∨ j.Contained (some sym) first last) :
    j.KeepsTo (j.symbolPlan sym first last) (j.symbolDrafts sym first last parent) := by
  simp only [symbolDrafts_eq h0 sym parent last h1 hn, symbolPlan]
  simp only [Contained] at hin
  split
  · next hsplit =>
    rw [if_pos hsplit] at hin
    exact splitBody_keepsTo hs h0 sym _ parent h1 hle hn hin
  · next hsplit =>
    rw [if_neg hsplit] at hin
    exact fit_keepsTo hs h0 h1 hle hn hin (ChunkKind.isSummary_ofSymbolKind sym.kind)
      (keeps_dress sym (last - first + 1) parent)
      (fun p hp i => draft_located hp rfl ((Chunk.keeps_note "chunk_index" (toString i) (by decide)).comp
        (keeps_dress sym (last - first + 1) (some (j.path ++ ":" ++ sym.qualifiedName)))))
      fun _ _ => rfl

/-! ## Classes and segments -/

theorem headDrafts_keepsTo (owner : Symbol) (members : List Symbol) (classId : String) {first last : Nat}
    (h1 : 1 ≤ first) (hle : first ≤ last) (hn : first ≤ j.source.lineCount)
    (hin : last ≤ j.source.lineCount ∨ j.Contained none first last) :
    j.KeepsTo (j.fitPlan first last) (j.headDrafts owner members classId first last) := by
  have hkeeps := keeps_dressHead owner members
  simp only [headDrafts, lineSize_extent h0 last h1 hn]
  exact fit_keepsTo hs h0 h1 hle hn hin rfl hkeeps
    (fun p hp i => draft_located (f := fun c => { dressHead owner members c with parentId := some classId }) hp rfl
      ⟨fun _ => rfl, fun _ => rfl, fun _ => rfl, hkeeps.isOversized⟩)
    fun _ _ => rfl

theorem classPart_keepsTo (owner : Symbol) (members : List Symbol) {part : Layout.Segment} (h1 : 1 ≤ part.first)
    (hle : part.first ≤ part.last) (hn : part.first ≤ j.source.lineCount)
    (hin : part.last ≤ j.source.lineCount ∨ j.Contained part.symbol part.first part.last) :
    j.KeepsTo (j.partPlan part) (j.classPart owner members part) := by
  obtain ⟨first, last, sym⟩ := part
  cases sym with
  | none => exact headDrafts_keepsTo hs h0 owner members _ h1 hle hn hin
  | some m =>
    exact symbolDrafts_keepsTo hs h0 { m with kind := "method", parent := some owner.name } _ h1 hle hn hin

omit hs h0 in
/-- Drafts of a list, each with its plan. -/
theorem keepsTo_mapM {α : Type} {f : α → Except Source.Fault (List Draft)} (planOf : α → List Stretch)
    {as : List α} (h : ∀ a ∈ as, j.KeepsTo (planOf a) (f a)) :
    j.KeepsTo (as.flatMap planOf) ((as.mapM f).map List.flatten) := by
  induction as with
  | nil => exact .nil
  | cons a as ih =>
    rw [flatten_mapM_cons, List.flatMap_cons]
    exact (h a List.mem_cons_self).append fun _ => ih fun b hb => h b (List.mem_cons_of_mem a hb)

omit hs h0 in
/-- The segment of a symbol is cut up into parts or drafted as the symbol. -/
theorem segmentDrafts_cases (symbols : List Symbol) {seg : Layout.Segment} {sym : Symbol}
    (hsym : seg.symbol = some sym) :
    (j.cutParts symbols seg = [] ∧
      ∀ index, j.segmentDrafts symbols index seg = j.symbolDrafts sym seg.first seg.last none) ∨
    Layout.members symbols sym ≠ [] ∧
      j.cutParts symbols seg = Layout.classParts seg.first seg.last (Layout.members symbols sym) ∧
      ∀ index, j.segmentDrafts symbols index seg =
        ((j.cutParts symbols seg).mapM (j.classPart sym (Layout.members symbols sym))).map List.flatten := by
  unfold cutParts segmentDrafts
  simp only [hsym]
  split
  · cases Layout.members symbols sym with
    | nil => exact .inl ⟨rfl, fun _ => rfl⟩
    | cons m rest =>
      exact .inr ⟨List.cons_ne_nil _ _, rfl, fun _ => classDrafts_eq j sym (m :: rest) _ _⟩
  · exact .inl ⟨rfl, fun _ => rfl⟩

end Job

/-- No symbol lies in an empty file. -/
theorem Layout.outermost_of_lineCount (symbols : List Symbol) : outermost symbols 0 = [] := by
  have hnone : (symbols.filter fun s => 1 ≤ s.startLine && s.startLine ≤ 0) = [] := by
    rw [List.filter_eq_nil_iff]
    intro s _
    simp only [Bool.and_eq_true, decide_eq_true_eq]
    omega
  unfold outermost
  simp only [hnone, List.mergeSort_nil]
  rfl

theorem Layout.memberParts_bounds {last cursor : Nat} {members : List Symbol} (hle : cursor ≤ last)
    {part : Segment} (h : part ∈ memberParts last cursor members) :
    cursor ≤ part.first ∧ part.first ≤ part.last ∧ part.first ≤ last := by
  fun_induction memberParts last cursor members with
  | case1 => cases h
  | case2 cursor m =>
    obtain rfl := List.mem_singleton.mp h
    exact ⟨Nat.le_refl _, hle, hle⟩
  | case3 cursor m next rest stop ih =>
    have hstop : cursor ≤ stop := by omega
    rcases List.mem_cons.mp h with rfl | h
    · exact ⟨Nat.le_refl _, hstop, hle⟩
    · split at h
      · cases h
      · have := ih (by omega) h
        omega

/-- Every part of a class starts in its segment, though it may end behind it. -/
theorem Layout.classParts_bounds {first last : Nat} {members : List Symbol} (hle : first ≤ last) {part : Segment}
    (h : part ∈ classParts first last members) :
    first ≤ part.first ∧ part.first ≤ part.last ∧ part.first ≤ last := by
  unfold classParts at h
  simp only at h
  generalize hend : max ((members.head?.map (·.startLine - 1)).getD 0) first = headerEnd at h
  rcases List.mem_cons.mp h with rfl | h
  · exact ⟨Nat.le_refl _, by simp only; omega, hle⟩
  · split at h
    · cases h
    · have := memberParts_bounds (by omega) h
      omega

namespace Job

variable {j : Job} (hs : j.source.Intact) (h0 : 0 < j.source.size)

include hs h0

/-- A segment follows its plan where the parts into which it is cut up stay inside the file. -/
theorem segmentDrafts_keepsTo {symbols : List Symbol} {seg : Layout.Segment} (index : Nat) (h1 : 1 ≤ seg.first)
    (hle : seg.first ≤ seg.last) (hn : seg.last ≤ j.source.lineCount)
    (hin : ∀ part ∈ j.cutParts symbols seg, part.last ≤ j.source.lineCount ∨
      j.Contained part.symbol part.first part.last) :
    j.KeepsTo (j.segmentPlan symbols seg) (j.segmentDrafts symbols index seg) := by
  unfold segmentPlan
  cases hsym : seg.symbol with
  | none =>
    obtain ⟨ps, hps, hcuts, hplaces⟩ := pieces_onPlan hs h0 false h1 hle (by omega)
    simp only [segmentDrafts, hsym, hps]
    refine ⟨_, onPlan_zipIdx hplaces (fun p hp i => ?_) fun _ _ => rfl, Window.checked_map _⟩
    have hcut := hcuts p hp
    exact draft_located (p := ⟨p.start, p.stop, false⟩) ⟨hcut.lt, hcut.start, hcut.stop⟩ rfl Chunk.keeps_id
  | some sym =>
    rcases @segmentDrafts_cases j symbols seg sym hsym with ⟨hparts, hdrafts⟩ | ⟨-, hparts, hdrafts⟩
    · simp only [hdrafts, hparts, List.isEmpty_nil, if_true]
      exact symbolDrafts_keepsTo hs h0 sym none h1 hle (by omega) (.inl hn)
    · have hcut : (j.cutParts symbols seg).isEmpty = false := by rw [hparts]; rfl
      simp only [hdrafts, hcut, Bool.false_eq_true, if_false]
      refine keepsTo_mapM j.partPlan fun part hpart => ?_
      obtain ⟨hfirst, hlast, hbelow⟩ := Layout.classParts_bounds hle (hparts ▸ hpart)
      exact classPart_keepsTo hs h0 sym _ (by omega) hlast (by omega) (hin part hpart)

theorem segmentsDrafts_keepsTo {symbols : List Symbol} {segs : List Layout.Segment} (index : Nat)
    (hsegs : ∀ seg ∈ segs, 1 ≤ seg.first ∧ seg.first ≤ seg.last ∧ seg.last ≤ j.source.lineCount)
    (hin : ∀ seg ∈ segs, ∀ part ∈ j.cutParts symbols seg, part.last ≤ j.source.lineCount ∨
      j.Contained part.symbol part.first part.last) :
    j.KeepsTo (segs.flatMap (j.segmentPlan symbols)) (j.segmentsDrafts symbols index segs) := by
  induction segs generalizing index with
  | nil => exact .nil
  | cons seg rest ih =>
    obtain ⟨h1, hle, hn⟩ := hsegs seg List.mem_cons_self
    rw [segmentsDrafts, List.flatMap_cons]
    exact (segmentDrafts_keepsTo hs h0 index h1 hle hn (hin seg List.mem_cons_self)).append fun own =>
      ih (if seg.symbol.isNone then index + own.length else index)
        (fun s h => hsegs s (List.mem_cons_of_mem _ h)) fun s h => hin s (List.mem_cons_of_mem _ h)

theorem sectionDrafts_keepsTo (sec : Section) (h1 : 1 ≤ sec.first) (hle : sec.first ≤ sec.last)
    (hn : sec.last ≤ j.source.lineCount) :
    j.KeepsTo (j.fitPlan sec.first sec.last) (j.sectionDrafts sec) := by
  have hkeeps : Chunk.Keeps fun c =>
      { c with symbolName := some sec.name, symbolType := some "config_section" } :=
    ⟨fun _ => rfl, fun _ => rfl, fun _ => rfl, fun _ => rfl⟩
  simp only [sectionDrafts, lineSize_extent h0 sec.last h1 (Nat.le_trans hle hn)]
  exact fit_keepsTo hs h0 h1 hle (Nat.le_trans hle hn) (.inl hn) rfl hkeeps
    (fun p hp i => draft_located hp rfl hkeeps) fun _ _ => rfl

end Job

/-! ## Whole files -/

/-- A chunk that is the text in a place, which is not empty, with the lines of its first and its last octet, and no summary. -/
structure Chunk.TakenFrom (s : Source) (place : Nat × Nat) (c : Chunk) : Prop where
  nonempty : place.1 < place.2
  content : s.slice? place.1 place.2 = some c.content
  lineStart : c.lineStart = s.lineAt place.1
  lineEnd : c.lineEnd = s.lineAt (place.2 - 1)
  cut : c.kind.isSummary = false

namespace Job

/-- Summaries, and then the chunks of a plan. -/
def Planned (j : Job) (plan : List Stretch) (chunks : List Chunk) : Prop :=
  ∃ summaries cut, chunks = summaries ++ cut ∧ (∀ c ∈ summaries, c.kind.isSummary = true) ∧
    List.Forall₂ (Chunk.TakenFrom j.source) (plan.flatMap j.places) cut

variable {j : Job}

theorem Planned.nil : j.Planned [] [] := ⟨[], [], rfl, by simp, .nil⟩

/-- Drafts that follow a plan are cut into its chunks. -/
theorem OnPlan.exists_cut (hs : j.source.Intact) {plan : List Stretch} {drafts : List Draft}
    (h : j.OnPlan plan drafts) :
    ∃ cut, drafts.mapM (Draft.cut j.source) = .ok cut ∧
      List.Forall₂ (Chunk.TakenFrom j.source) (plan.flatMap j.places) cut := by
  obtain ⟨cut, hcut, htaken⟩ := exists_mapM (f := Draft.cut j.source)
    (R := fun d c => Chunk.TakenFrom j.source d.range c) fun d hd => by
      have hd := h.located d hd
      obtain ⟨text, htext, hcut⟩ := Draft.exists_cut hs hd.cuts
      exact ⟨_, hcut, hd.cuts.lt, htext, hd.lineStart, hd.lineEnd, hd.cut⟩
  refine ⟨cut, hcut, ?_⟩
  rw [← h.places, List.forall₂_map_left_iff]
  exact htaken

theorem lineCount_eq_zero (h : ¬0 < j.source.size) : j.source.lineCount = 0 := by
  rw [Source.lineCount, if_pos (by omega)]

/-- The chunks of a plan, or a fault where one of its sums is no word, as drafts that keep to the plan are cut. -/
theorem KeepsTo.planned (hs : j.source.Intact) {plan : List Stretch} {result : Except Source.Fault (List Draft)}
    (h : j.KeepsTo plan result) {summaries : List Chunk} (hsum : ∀ c ∈ summaries, c.kind.isSummary = true) :
    ∃ chunks, j.Planned plan chunks ∧
      (do let drafts ← result
          return summaries ++ (← drafts.mapM (Draft.cut j.source))) = Window.checked (j.SumsInRange plan) chunks := by
  obtain ⟨drafts, hon, rfl⟩ := h
  obtain ⟨cut, hcut, htaken⟩ := hon.exists_cut hs
  refine Window.exists_checked_bind ⟨summaries ++ cut, ⟨summaries, cut, rfl, hsum, htaken⟩, ?_⟩
  rw [hcut]
  rfl

theorem chunkWindows_planned (hs : j.source.Intact) :
    ∃ chunks, j.Planned j.windowPlan chunks ∧
      j.chunkWindows = Window.checked (j.SumsInRange j.windowPlan) chunks := by
  unfold chunkWindows windowPlan
  by_cases hlines : j.source.lineCount = 0
  · rw [if_pos hlines, if_pos hlines]
    exact ⟨[], .nil, (Window.checked_of (List.forall_mem_nil _)).symm⟩
  rw [if_neg hlines, if_neg hlines]
  rw [windows_eq_checked]
  refine Window.exists_checked_bind ?_
  generalize hdrafts : ((j.slide 0 j.source.size j.settings.maxWindows).zipIdx.map _ : List Draft) = drafts
  have hon : j.OnPlan [.slid 0 j.source.size j.settings.maxWindows] drafts := by
    rw [← hdrafts]
    refine onPlan_zipIdx (by simp [places]) (fun p hp i => ?_) fun _ _ => rfl
    have hcut := slide_cut hs hs.isBoundary_zero hs.isBoundary_size p hp
    exact draft_located (p := ⟨p.start, p.stop, false⟩) ⟨hcut.lt, hcut.start, hcut.stop⟩ rfl
      ((Chunk.keeps_note "chunking" "sliding_window" (by decide)).comp
        (Chunk.keeps_note "chunk_index" (toString i) (by decide)))
  obtain ⟨cut, hcut, htaken⟩ := hon.exists_cut hs
  simp only [hcut]
  exact ⟨_, ⟨_, cut, rfl, fun c hc => (optionalSummary_spec _ _ c hc).kind, htaken⟩, rfl⟩

theorem chunkSections?_planned (hs : j.source.Intact) :
    ∃ found, (∀ chunks, found = some chunks → j.Planned j.sectionsPlan chunks) ∧
      j.chunkSections? = Window.checked (j.SumsInRange j.sectionsPlan) found := by
  by_cases h0 : 0 < j.source.size
  · obtain ⟨secs, hsecs, hparts⟩ := Section.all_spec hs h0 j.language
    simp only [chunkSections?, sectionsPlan, hsecs, bind, Except.bind]
    split
    · next hnone =>
      rw [List.isEmpty_iff.mp hnone]
      exact ⟨none, by rintro _ ⟨⟩, (Window.checked_of (List.forall_mem_nil _)).symm⟩
    · next hne =>
      have hkeeps := keepsTo_mapM (j := j) (f := j.sectionDrafts) (fun sec : Section => j.fitPlan sec.first sec.last)
        fun sec hsec => by
          obtain ⟨h1, hle, hn⟩ := (hparts (by simpa using hne)).bounds hsec
          exact sectionDrafts_keepsTo hs h0 sec h1 hle (by omega)
      obtain ⟨chunks, hplanned, hchunks⟩ := hkeeps.planned hs fun c hc =>
        (optionalSummary_spec (j := j) (secs.map (·.name)) "config_aware" c hc).kind
      refine ⟨some chunks, by rintro _ ⟨⟩; exact hplanned, ?_⟩
      rw [← Window.checked_map, ← hchunks]
      cases secs.mapM j.sectionDrafts with
      | error fault => rfl
      | ok dss => cases hcut : dss.flatten.mapM (Draft.cut j.source) <;> simp [hcut, Except.map, bind, Except.bind, pure, Except.pure]
  · have hlines := lineCount_eq_zero h0
    have hplan : j.sectionsPlan = [] := by
      simp only [sectionsPlan, all_of_lineCount hlines, List.flatMap_nil]
    rw [hplan]
    exact ⟨none, by rintro _ ⟨⟩, (chunkSections?_of_lineCount hlines).trans
      (Window.checked_of (List.forall_mem_nil _)).symm⟩

/-- Along symbols a file is cut by its segments, or by windows where no symbol lies in it. -/
theorem chunkSymbols_cases (hs : j.source.Intact) {symbols : List Symbol} (imports : List Import)
    (hsyms : ∀ sym ∈ symbols, sym.startLine ≤ sym.endLine) :
    (j.segmentsOf symbols = [] ∧ j.symbolsPlan symbols = j.windowPlan ∧
      j.chunkSymbols symbols imports = j.chunkWindows) ∨
    0 < j.source.size ∧ j.symbolsPlan symbols = (j.segmentsOf symbols).flatMap (j.segmentPlan symbols) ∧
      (∀ seg ∈ j.segmentsOf symbols, 1 ≤ seg.first ∧ seg.first ≤ seg.last ∧ seg.last ≤ j.source.lineCount ∧
        Layout.Holds j.source.lineCount seg) ∧
      ∃ summaries, (∀ c ∈ summaries, c.kind.isSummary = true) ∧
        j.chunkSymbols symbols imports = (do
          let drafts ← j.segmentsDrafts symbols 0 (j.segmentsOf symbols)
          return summaries ++ (← drafts.mapM (Draft.cut j.source))) := by
  by_cases htop : (Layout.outermost symbols j.source.lineCount).isEmpty
  · refine .inl ⟨by simp only [segmentsOf, htop, if_true], by rw [symbolsPlan, if_pos htop], ?_⟩
    simp only [chunkSymbols, htop, if_true]
    split
    · next hlines => rw [chunkWindows, if_pos hlines]
    · rfl
  · have h0 : 0 < j.source.size := by
      refine Nat.pos_of_ne_zero fun hempty => htop ?_
      have hlines : j.source.lineCount = 0 := by rw [Source.lineCount, if_pos hempty]
      exact List.isEmpty_iff.mpr (hlines ▸ Layout.outermost_of_lineCount symbols)
    have hpos := hs.lineCount_pos h0
    obtain ⟨segs, hsegs, hparts, hholds⟩ := Layout.segments_spec hs h0 j.settings.minSize
      (Layout.outermost_apart hsyms) (by simpa using htop)
    have hof : j.segmentsOf symbols = segs := by
      simp only [segmentsOf, htop, hsegs]
      rfl
    refine .inr ⟨h0, by rw [symbolsPlan, if_neg htop], fun seg hseg => ?_,
      j.optionalSummary ((Layout.outermost symbols j.source.lineCount).map (·.qualifiedName)) "boundary_aware" ++
        if imports.isEmpty then [] else [j.importBlock imports], fun c hc => ?_, ?_⟩
    · rw [hof] at hseg
      have := hparts.bounds hseg
      exact ⟨by omega, by omega, by omega, (hholds seg hseg).1⟩
    · rcases List.mem_append.mp hc with h | h
      · exact (optionalSummary_spec _ _ c h).kind
      · split at h
        · cases h
        · obtain rfl := List.mem_singleton.mp h
          rfl
    · simp only [chunkSymbols, hof, hsegs, htop, if_neg (by omega : ¬j.source.lineCount = 0), bind, Except.bind]
      rfl

/-- The chunks along symbols are those of the plan if every part of a class that is cut up stays inside the file. -/
theorem chunkSymbols_planned (hs : j.source.Intact) {symbols : List Symbol} (imports : List Import)
    (hsyms : ∀ sym ∈ symbols, sym.startLine ≤ sym.endLine)
    (hin : ∀ seg ∈ j.segmentsOf symbols, ∀ part ∈ j.cutParts symbols seg,
      part.last ≤ j.source.lineCount ∨ j.Contained part.symbol part.first part.last) :
    ∃ chunks, j.Planned (j.symbolsPlan symbols) chunks ∧
      j.chunkSymbols symbols imports = Window.checked (j.SumsInRange (j.symbolsPlan symbols)) chunks := by
  rcases chunkSymbols_cases hs imports hsyms with
    ⟨-, hplan, hwindows⟩ | ⟨h0, hplan, hbounds, summaries, hsum, hchunks⟩
  · rw [hplan, hwindows]
    exact chunkWindows_planned hs
  · rw [hplan, hchunks]
    exact (segmentsDrafts_keepsTo hs h0 0 (fun seg hseg => ⟨(hbounds seg hseg).1, (hbounds seg hseg).2.1,
      (hbounds seg hseg).2.2.1⟩) hin).planned hs hsum

/-- Where all symbols start in the file, the parts of a class end in it. -/
theorem cutParts_inside (hs : j.source.Intact) {symbols : List Symbol}
    (hsyms : ∀ sym ∈ symbols, sym.Placed j.source.lineCount) :
    ∀ seg ∈ j.segmentsOf symbols, ∀ part ∈ j.cutParts symbols seg, part.last ≤ j.source.lineCount := by
  intro seg hseg part hpart
  rcases chunkSymbols_cases hs [] fun sym hsym => (hsyms sym hsym).start_le_end with
    ⟨hnone, -⟩ | ⟨-, -, hbounds, -⟩
  · rw [hnone] at hseg
    cases hseg
  · obtain ⟨-, -, hn, hholds⟩ := hbounds seg hseg
    cases hsym : seg.symbol with
    | none =>
      rw [cutParts, hsym] at hpart
      cases hpart
    | some sym =>
      rcases @segmentDrafts_cases j symbols seg sym hsym with ⟨hparts, -⟩ | ⟨hne, hparts, -⟩
      · rw [hparts] at hpart
        cases hpart
      · have := (Layout.classParts_owned hsyms hsym hholds hne).1.bounds (hparts ▸ hpart)
        omega

end Job

end CodeIndex
