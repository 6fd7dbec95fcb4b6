import CodeIndex.Chunk.File
import CodeIndex.Proofs.Chunk.Identity

/-!
# Chunks by their files

Every chunk bears the path of its file, and its id is that path, a colon and a label. So ids tell files apart
whose paths have no colon.
-/

namespace CodeIndex

/-- An id below a path. -/
def IsBelow (path id : String) : Prop := ∃ label, id = path ++ ":" ++ label

theorem IsBelow.append {path id : String} (h : IsBelow path id) (rest : String) : IsBelow path (id ++ rest) := by
  obtain ⟨label, rfl⟩ := h
  exact ⟨label ++ rest, String.append_assoc⟩

theorem isBelow_label (path label : String) : IsBelow path (path ++ ":" ++ label) := ⟨label, rfl⟩

theorem isBelow_mark (path label : String) {mark : String} (h : mark = ":" ++ label) : IsBelow path (path ++ mark) := by
  rw [h, ← String.append_assoc]
  exact isBelow_label path label

/-- An id whose path has no colon gives the path away. -/
theorem IsBelow.path_eq {path path' id : String} (h : IsBelow path id) (h' : IsBelow path' id)
    (hpath : ':' ∉ path.toList) (hpath' : ':' ∉ path'.toList) : path = path' := by
  have hfront : ∀ {path : String}, IsBelow path id → ':' ∉ path.toList →
      id.toList.takeWhile (· != ':') = path.toList := by
    rintro path ⟨label, rfl⟩ hcolon
    have hclear : ∀ c ∈ path.toList, (c != ':') = true := fun c hc => bne_iff_ne.mpr fun heq => hcolon (heq ▸ hc)
    have hlist : (path ++ ":" ++ label).toList = path.toList ++ ':' :: label.toList := by simp
    rw [hlist, List.takeWhile_append_of_pos hclear]
    simp
  exact String.ext ((hfront h hpath).symm.trans (hfront h' hpath'))

namespace Chunk

/-- A chunk of the file with a path. -/
structure From (path : String) (c : Chunk) : Prop where
  path_eq : c.path = path
  id_below : IsBelow path c.id

end Chunk

/-- Drafts of chunks of the file with a path. -/
def DraftsFrom (path : String) (ds : List Draft) : Prop := ∀ d ∈ ds, d.chunk.From path

theorem DraftsFrom.append {path : String} {ds ds' : List Draft} (h : DraftsFrom path ds) (h' : DraftsFrom path ds') :
    DraftsFrom path (ds ++ ds') := fun d hd => (List.mem_append.mp hd).elim (h d) (h' d)

theorem draftsFrom_singleton {path : String} {d : Draft} (h : d.chunk.From path) : DraftsFrom path [d] :=
  List.forall_mem_singleton.mpr h

namespace Job

variable {j : Job}

theorem path_markOversized (p : Piece) (c : Chunk) : (markOversized p c).path = c.path := by
  unfold markOversized
  split <;> rfl

/-- A draft of a piece, with changes that leave its path and its id alone. -/
theorem from_draft {id : String} (hid : IsBelow j.path id) (kind : ChunkKind) (p : Piece) {f : Chunk → Chunk}
    (hpath : ∀ c, (f c).path = c.path) (hf : ∀ c, (f c).id = c.id) :
    ((j.draft id kind p).map f).chunk.From j.path where
  path_eq := hpath _
  id_below := by
    rw [Draft.map, hf]
    exact hid

theorem from_wholeLines {id : String} (hid : IsBelow j.path id) {kind : ChunkKind} {first last : Nat} {d : Draft}
    (h : j.wholeLines id kind first last = .ok d) : d.chunk.From j.path := by
  unfold wholeLines at h
  obtain ⟨span, -, h⟩ := exists_of_bind_eq_ok h
  cases h
  exact from_draft hid kind _ (fun _ => rfl) fun _ => rfl

/-- Pieces that are numbered below an id. -/
theorem from_zipIdx {ps : List Piece} {draftOf : Piece × Nat → Draft}
    (h : ∀ p i, (draftOf (p, i)).chunk.From j.path) : DraftsFrom j.path (ps.zipIdx.map draftOf) := by
  intro d hd
  obtain ⟨pi, -, rfl⟩ := List.mem_map.mp hd
  exact h pi.1 pi.2

theorem from_numbered {sym : Symbol} {lineCount : Nat} {id mark : String} {kind : ChunkKind} {ps : List Piece}
    (hid : IsBelow j.path id) : DraftsFrom j.path (j.numbered sym lineCount id mark kind ps) :=
  from_zipIdx fun p i => from_draft ((((hid.append ":").append mark).append ":").append (toString i)) kind p
    (fun _ => path_markOversized p _) fun _ => id_markOversized p _

/-- Lines cut into windows are numbered parts, none where there are no lines. -/
theorem numbered_of_windowedLines {sym : Symbol} {lineCount first last : Nat} {id mark : String} {kind : ChunkKind}
    {ds : List Draft} (h : j.windowedLines sym lineCount id mark kind first last = .ok ds) :
    ∃ ps, ds = j.numbered sym lineCount id mark kind ps := by
  unfold windowedLines at h
  split at h
  · obtain ⟨span, -, h⟩ := exists_of_bind_eq_ok h
    obtain ⟨ps, -, h⟩ := exists_of_bind_eq_ok h
    cases h
    exact ⟨ps, rfl⟩
  · cases h
    exact ⟨[], rfl⟩

theorem from_windowedLines {sym : Symbol} {lineCount first last : Nat} {id mark : String} {kind : ChunkKind}
    {ds : List Draft} (hid : IsBelow j.path id)
    (h : j.windowedLines sym lineCount id mark kind first last = .ok ds) : DraftsFrom j.path ds := by
  obtain ⟨ps, rfl⟩ := numbered_of_windowedLines h
  exact from_numbered hid

/-! ## Symbols and classes -/

theorem from_splitBody {sym : Symbol} {id : String} {first last : Nat} {parent : Option String} {ds : List Draft}
    (hid : IsBelow j.path id) (h : j.splitBody sym id first last parent = .ok ds) : DraftsFrom j.path ds := by
  unfold splitBody at h
  obtain ⟨start, -, h⟩ := exists_of_bind_eq_ok h
  obtain ⟨lead, hlead, h⟩ := exists_of_bind_eq_ok h
  obtain ⟨header, hheader, h⟩ := exists_of_bind_eq_ok h
  obtain ⟨body, hbody, h⟩ := exists_of_bind_eq_ok h
  cases h
  have hfrom := from_wholeLines hid hheader
  refine ((from_windowedLines hid hlead).append (draftsFrom_singleton ⟨?_, ?_⟩)).append (from_windowedLines hid hbody)
  · exact (path_markOversized _ _).trans hfrom.path_eq
  · exact (id_markOversized _ _).symm ▸ hfrom.id_below

/-- Lines that are drafted whole, or in numbered parts. -/
theorem from_whole_or_parts {id : String} {kind : ChunkKind} {first last size : Nat} {f : Chunk → Chunk}
    {partsOf : List Piece → List Draft} {ds : List Draft} (hid : IsBelow j.path id)
    (hpath : ∀ c, (f c).path = c.path) (hf : ∀ c, (f c).id = c.id) (hparts : ∀ ps, DraftsFrom j.path (partsOf ps))
    (h : (if size ≤ j.settings.maxChars then do return [(← j.wholeLines id kind first last).map f]
      else do return partsOf (← j.pieces first last true)) = Except.ok ds) : DraftsFrom j.path ds := by
  split at h
  · obtain ⟨d, hd, h⟩ := exists_of_bind_eq_ok h
    cases h
    have hfrom := from_wholeLines hid hd
    exact draftsFrom_singleton ⟨(hpath _).trans hfrom.path_eq, (hf d.chunk).symm ▸ hfrom.id_below⟩
  · obtain ⟨ps, -, h⟩ := exists_of_bind_eq_ok h
    cases h
    exact hparts ps

theorem from_symbolDrafts {sym : Symbol} {first last : Nat} {parent : Option String} {ds : List Draft}
    (h : j.symbolDrafts sym first last parent = .ok ds) : DraftsFrom j.path ds := by
  have hid := isBelow_label j.path sym.qualifiedName
  unfold symbolDrafts at h
  obtain ⟨size, -, h⟩ := exists_of_bind_eq_ok h
  split at h
  · exact from_splitBody hid h
  · exact from_whole_or_parts (f := dress sym (last - first + 1) parent) hid (fun _ => rfl) (fun _ => rfl)
      (fun ps => from_numbered hid) h

theorem from_memberDrafts {owner : Symbol} {classId : String} {last cursor : Nat} {members : List Symbol}
    {ds : List Draft} (h : j.memberDrafts owner classId last cursor members = .ok ds) : DraftsFrom j.path ds := by
  induction members generalizing cursor ds with
  | nil =>
    cases h
    exact List.forall_mem_nil _
  | cons m rest ih =>
    rw [memberDrafts_cons] at h
    obtain ⟨own, hown, h⟩ := exists_of_bind_eq_ok h
    split at h
    · cases h
      exact from_symbolDrafts hown
    · obtain ⟨more, hmore, h⟩ := exists_of_bind_eq_ok h
      cases h
      exact (from_symbolDrafts hown).append (ih hmore)

theorem from_headDrafts {owner : Symbol} {members : List Symbol} {classId : String} {first last : Nat}
    {ds : List Draft} (hid : IsBelow j.path classId) (h : j.headDrafts owner members classId first last = .ok ds) :
    DraftsFrom j.path ds := by
  unfold headDrafts at h
  obtain ⟨size, -, h⟩ := exists_of_bind_eq_ok h
  refine from_whole_or_parts (f := dressHead owner members) hid (fun _ => rfl) (fun _ => rfl) (fun ps => ?_) h
  exact from_zipIdx fun p i => from_draft ((hid.append ":part:").append (toString i)) _ p
    (fun _ => path_markOversized p _) fun _ => id_markOversized p _

theorem from_classDrafts {owner : Symbol} {members : List Symbol} {first last : Nat} {ds : List Draft}
    (h : j.classDrafts owner members first last = .ok ds) : DraftsFrom j.path ds := by
  have hid := isBelow_label j.path owner.name
  unfold classDrafts at h
  obtain ⟨head, hhead, h⟩ := exists_of_bind_eq_ok h
  split at h
  · cases h
    exact from_headDrafts hid hhead
  · obtain ⟨more, hmore, h⟩ := exists_of_bind_eq_ok h
    cases h
    exact (from_headDrafts hid hhead).append (from_memberDrafts hmore)

theorem from_segmentDrafts {symbols : List Symbol} {index : Nat} {seg : Layout.Segment} {ds : List Draft}
    (h : j.segmentDrafts symbols index seg = .ok ds) : DraftsFrom j.path ds := by
  unfold segmentDrafts at h
  cases hsym : seg.symbol with
  | none =>
    rw [hsym] at h
    obtain ⟨ps, -, h⟩ := exists_of_bind_eq_ok h
    cases h
    have hid : IsBelow j.path (j.path ++ ":__module__:") := isBelow_mark j.path "__module__:" rfl
    exact from_zipIdx fun p i => ⟨rfl, hid.append (toString (index + i))⟩
  | some sym =>
    rw [hsym] at h
    dsimp only at h
    generalize (if j.settings.strategy = .hierarchical && ChunkKind.ofSymbolKind sym.kind = .classLike then
      Layout.members symbols sym else []) = members at h
    split at h
    · exact from_symbolDrafts h
    · exact from_classDrafts h

theorem from_segmentsDrafts {symbols : List Symbol} {index : Nat} {segs : List Layout.Segment} {ds : List Draft}
    (h : j.segmentsDrafts symbols index segs = .ok ds) : DraftsFrom j.path ds := by
  induction segs generalizing index ds with
  | nil =>
    cases h
    exact List.forall_mem_nil _
  | cons seg rest ih =>
    unfold segmentsDrafts at h
    obtain ⟨own, hown, h⟩ := exists_of_bind_eq_ok h
    obtain ⟨more, hmore, h⟩ := exists_of_bind_eq_ok h
    cases h
    exact (from_segmentDrafts hown).append (ih hmore)

theorem from_sectionDrafts {sec : Section} {ds : List Draft} (h : j.sectionDrafts sec = .ok ds) :
    DraftsFrom j.path ds := by
  have hmark : IsBelow j.path (j.path ++ ":section:") := isBelow_mark j.path "section:" rfl
  have hid := hmark.append sec.name
  unfold sectionDrafts at h
  obtain ⟨size, -, h⟩ := exists_of_bind_eq_ok h
  refine from_whole_or_parts (f := fun c => { c with symbolName := some sec.name, symbolType := some "config_section" })
    hid (fun _ => rfl) (fun _ => rfl) (fun ps => ?_) h
  exact from_zipIdx fun p i => from_draft ((hid.append ":part:").append (toString i)) _ p
    (fun _ => path_markOversized p _) fun _ => id_markOversized p _

/-! ## Routes -/

/-- Cutting leaves the path and the id alone. -/
theorem from_cut {s : Source} {path : String} {ds : List Draft} {cs : List Chunk} (hds : DraftsFrom path ds)
    (h : ds.mapM (Draft.cut s) = .ok cs) : ∀ c ∈ cs, c.From path := by
  intro c hc
  obtain ⟨d, hd, hcut⟩ := exists_of_mapM h c hc
  obtain ⟨content, -, hcut⟩ := exists_of_bind_eq_ok hcut
  cases hcut
  exact ⟨(hds d hd).path_eq, (hds d hd).id_below⟩

theorem from_optionalSummary {names : List String} {chunking : String} {c : Chunk}
    (h : c ∈ j.optionalSummary names chunking) : c.From j.path := by
  unfold optionalSummary at h
  split at h
  · obtain rfl := List.mem_singleton.mp h
    exact ⟨rfl, isBelow_mark j.path "__file__" rfl⟩
  · cases h

theorem from_chunkWindows {chunks : List Chunk} (h : j.chunkWindows = .ok chunks) : ∀ c ∈ chunks, c.From j.path := by
  unfold chunkWindows at h
  split at h
  · cases h
    exact List.forall_mem_nil _
  · obtain ⟨ps, -, h⟩ := exists_of_bind_eq_ok h
    obtain ⟨cut, hcut, h⟩ := exists_of_bind_eq_ok h
    cases h
    intro c hc
    rcases List.mem_append.mp hc with hsummary | hwindow
    · exact from_optionalSummary hsummary
    · refine from_cut (from_zipIdx fun p i => ?_) hcut c hwindow
      have hmark : IsBelow j.path (j.path ++ ":window:") := isBelow_mark j.path "window:" rfl
      have hid := (hmark.append (toString i)).append ":L"
      exact from_draft (((hid.append _).append "-L").append _) .window p (fun _ => rfl) fun _ => rfl

theorem from_chunkSymbols {symbols : List Symbol} {imports : List Import} {chunks : List Chunk}
    (h : j.chunkSymbols symbols imports = .ok chunks) : ∀ c ∈ chunks, c.From j.path := by
  unfold chunkSymbols at h
  dsimp only at h
  split at h
  · cases h
    exact List.forall_mem_nil _
  split at h
  · exact from_chunkWindows h
  obtain ⟨segs, -, h⟩ := exists_of_bind_eq_ok h
  obtain ⟨drafts, hdrafts, h⟩ := exists_of_bind_eq_ok h
  obtain ⟨cut, hcut, h⟩ := exists_of_bind_eq_ok h
  cases h
  intro c hc
  rcases List.mem_append.mp hc with hfront | hcuts
  · rcases List.mem_append.mp hfront with hsummary | himports
    · exact from_optionalSummary hsummary
    · split at himports
      · cases himports
      · obtain rfl := List.mem_singleton.mp himports
        exact ⟨rfl, isBelow_mark j.path "__imports__" rfl⟩
  · exact from_cut (from_segmentsDrafts hdrafts) hcut c hcuts

theorem from_chunkSections? {chunks : List Chunk} (h : j.chunkSections? = .ok (some chunks)) :
    ∀ c ∈ chunks, c.From j.path := by
  unfold chunkSections? at h
  obtain ⟨sections, -, h⟩ := exists_of_bind_eq_ok h
  split at h
  · cases h
  obtain ⟨drafts, hdrafts, h⟩ := exists_of_bind_eq_ok h
  obtain ⟨cut, hcut, h⟩ := exists_of_bind_eq_ok h
  cases h
  have hfrom : DraftsFrom j.path drafts.flatten := by
    intro d hd
    obtain ⟨ds, hds, hd⟩ := List.mem_flatten.mp hd
    obtain ⟨sec, -, hsec⟩ := exists_of_mapM hdrafts ds hds
    exact from_sectionDrafts hsec d hd
  intro c hc
  rcases List.mem_append.mp hc with hsummary | hcuts
  · exact from_optionalSummary hsummary
  · exact from_cut hfrom hcut c hcuts

end Job

/-- The chunks of a file are from the file. -/
theorem from_chunkFile {r : Registry} {g : Grammars} {settings : ChunkSettings} {path content : String}
    {language firstLine : Option String} {chunks : List Chunk}
    (h : chunkFile r g settings path language firstLine content = .ok chunks) : ∀ c ∈ chunks, c.From path := by
  unfold chunkFile at h
  dsimp only at h
  split at h
  · cases h
    exact List.forall_mem_nil _
  cases hlang : language.or ((r.detect? path firstLine).map (·.name)) with
  | none =>
    rw [hlang] at h
    exact Job.from_chunkWindows h
  | some lang =>
    rw [hlang] at h
    dsimp only at h
    generalize (if r.supports lang then extract r g path lang content else {}) = found at h
    split at h
    · exact Job.from_chunkSymbols h
    obtain ⟨sections, hsections, h⟩ := exists_of_bind_eq_ok h
    cases sections with
    | none => exact Job.from_chunkWindows h
    | some cs =>
      cases h
      split at hsections
      · exact Job.from_chunkSections? hsections
      · cases hsections

/-- The id of a chunk is below its path. -/
theorem below_of_chunkCodebase {r : Registry} {g : Grammars} {settings : ChunkSettings} {policy : IgnorePolicy}
    {d : Disk} {root : String} {firstLine : String → Option String} {chunks : List Chunk}
    (h : chunkCodebase r g settings policy d root firstLine = .ok chunks) : ∀ c ∈ chunks, IsBelow c.path c.id := by
  unfold chunkCodebase at h
  obtain ⟨parts, hparts, h⟩ := exists_of_bind_eq_ok h
  cases h
  intro c hc
  obtain ⟨part, hpart, hc⟩ := List.mem_flatten.mp hc
  obtain ⟨file, -, hfile⟩ := exists_of_mapM hparts part hpart
  have hfrom := from_chunkFile hfile c hc
  exact hfrom.path_eq.symm ▸ hfrom.id_below

end CodeIndex
