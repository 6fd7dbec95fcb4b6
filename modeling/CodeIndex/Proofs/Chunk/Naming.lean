import CodeIndex.Proofs.Chunk.Layout
import CodeIndex.Proofs.Chunk.Origin

/-!
# The symbol of a chunk

A chunk is cut for a symbol as a whole or in parts, as a member of a class, or from the head of a class with its
members (`Chunk.CutFor`). It then bears the bare name of the symbol and the path of its file. Other chunks along
symbols bear no name (`cutFor_of_chunkSymbols`).
-/

namespace CodeIndex

/-- Drafts that bear a name. -/
def DraftsNamed (name : String) (ds : List Draft) : Prop := ∀ d ∈ ds, d.chunk.symbolName = some name

theorem DraftsNamed.append {name : String} {ds ds' : List Draft} (h : DraftsNamed name ds) (h' : DraftsNamed name ds') :
    DraftsNamed name (ds ++ ds') := fun d hd => (List.mem_append.mp hd).elim (h d) (h' d)

namespace Job

variable {j : Job}

theorem symbolName_markOversized (p : Piece) (c : Chunk) : (markOversized p c).symbolName = c.symbolName := by
  unfold markOversized
  split <;> rfl

theorem named_zipIdx {name : String} {ps : List Piece} {draftOf : Piece × Nat → Draft}
    (h : ∀ p i, (draftOf (p, i)).chunk.symbolName = some name) : DraftsNamed name (ps.zipIdx.map draftOf) := by
  intro d hd
  obtain ⟨pi, -, rfl⟩ := List.mem_map.mp hd
  exact h pi.1 pi.2

theorem named_numbered {sym : Symbol} {lineCount : Nat} {id mark : String} {kind : ChunkKind} {ps : List Piece} :
    DraftsNamed sym.name (j.numbered sym lineCount id mark kind ps) :=
  named_zipIdx fun p _ => symbolName_markOversized p _

theorem named_windowedLines {sym : Symbol} {lineCount first last : Nat} {id mark : String} {kind : ChunkKind}
    {ds : List Draft} (h : j.windowedLines sym lineCount id mark kind first last = .ok ds) :
    DraftsNamed sym.name ds := by
  obtain ⟨ps, rfl⟩ := numbered_of_windowedLines h
  exact named_numbered

theorem named_splitBody {sym : Symbol} {id : String} {first last : Nat} {parent : Option String} {ds : List Draft}
    (h : j.splitBody sym id first last parent = .ok ds) : DraftsNamed sym.name ds := by
  unfold splitBody at h
  obtain ⟨start, -, h⟩ := exists_of_bind_eq_ok h
  obtain ⟨lead, hlead, h⟩ := exists_of_bind_eq_ok h
  obtain ⟨header, -, h⟩ := exists_of_bind_eq_ok h
  obtain ⟨body, hbody, h⟩ := exists_of_bind_eq_ok h
  cases h
  refine ((named_windowedLines hlead).append (List.forall_mem_singleton.mpr ?_)).append (named_windowedLines hbody)
  exact symbolName_markOversized _ _

theorem named_symbolDrafts {sym : Symbol} {first last : Nat} {parent : Option String} {ds : List Draft}
    (h : j.symbolDrafts sym first last parent = .ok ds) : DraftsNamed sym.name ds := by
  unfold symbolDrafts at h
  obtain ⟨size, -, h⟩ := exists_of_bind_eq_ok h
  split at h
  · exact named_splitBody h
  split at h
  · obtain ⟨d, -, h⟩ := exists_of_bind_eq_ok h
    cases h
    exact List.forall_mem_singleton.mpr rfl
  · obtain ⟨ps, -, h⟩ := exists_of_bind_eq_ok h
    cases h
    exact named_numbered

theorem named_headDrafts {owner : Symbol} {members : List Symbol} {classId : String} {first last : Nat}
    {ds : List Draft} (h : j.headDrafts owner members classId first last = .ok ds) : DraftsNamed owner.name ds := by
  unfold headDrafts at h
  obtain ⟨size, -, h⟩ := exists_of_bind_eq_ok h
  split at h
  · obtain ⟨d, -, h⟩ := exists_of_bind_eq_ok h
    cases h
    exact List.forall_mem_singleton.mpr rfl
  · obtain ⟨ps, -, h⟩ := exists_of_bind_eq_ok h
    cases h
    exact named_zipIdx fun p _ => symbolName_markOversized p _

/-- A draft for a symbol. -/
inductive DraftFor (j : Job) (s : Symbol) (d : Draft) : Prop where
  | symbol {first last : Nat} {parent : Option String} {ds : List Draft}
      (h : j.symbolDrafts s first last parent = .ok ds) (hd : d ∈ ds)
  | member {owner : Symbol} {first last : Nat} {parent : Option String} {ds : List Draft}
      (h : j.symbolDrafts { s with kind := "method", parent := some owner.name } first last parent = .ok ds)
      (hd : d ∈ ds)
  | head {members : List Symbol} {first last : Nat} {ds : List Draft}
      (h : j.headDrafts s members (j.path ++ ":" ++ s.name) first last = .ok ds) (hd : d ∈ ds)

variable {s : Symbol} {d : Draft}

theorem DraftFor.symbolName_eq (h : j.DraftFor s d) : d.chunk.symbolName = some s.name := by
  cases h with
  | symbol h hd => exact named_symbolDrafts h d hd
  | member h hd => exact named_symbolDrafts h d hd
  | head h hd => exact named_headDrafts h d hd

theorem DraftFor.path_eq (h : j.DraftFor s d) : d.chunk.path = j.path := by
  cases h with
  | symbol h hd => exact (from_symbolDrafts h d hd).path_eq
  | member h hd => exact (from_symbolDrafts h d hd).path_eq
  | head h hd => exact (from_headDrafts (isBelow_label j.path s.name) h d hd).path_eq

end Job

/-- A chunk that is cut from the file with a path for a symbol. -/
def Chunk.CutFor (path : String) (s : Symbol) (c : Chunk) : Prop :=
  ∃ j d, Job.path j = path ∧ j.DraftFor s d ∧ d.cut j.source = .ok c

theorem Chunk.CutFor.path_and_name {path : String} {s : Symbol} {c : Chunk} (h : c.CutFor path s) :
    c.path = path ∧ c.symbolName = some s.name := by
  obtain ⟨j, d, hpath, hd, hcut⟩ := h
  obtain ⟨content, -, hcut⟩ := exists_of_bind_eq_ok hcut
  cases hcut
  exact ⟨hd.path_eq.trans hpath, hd.symbolName_eq⟩

/-! ## Every chunk along symbols -/

namespace Layout

theorem symbol_of_mem_leading {s : Source} {minSize last cursor : Nat} {sym other : Symbol} {front : List Segment}
    (h : leading s minSize last cursor sym = .ok front) {seg : Segment} (hseg : seg ∈ front)
    (hother : seg.symbol = some other) : other = sym := by
  unfold leading at h
  dsimp only at h
  split at h
  · obtain ⟨large, -, h⟩ := exists_of_bind_eq_ok h
    split at h
    · cases h
      rcases List.mem_pair.mp hseg with rfl | rfl
      · cases hother
      · exact (Option.some.inj hother).symm
    · cases h
      obtain rfl := List.mem_singleton.mp hseg
      exact (Option.some.inj hother).symm
  · cases h
    obtain rfl := List.mem_singleton.mp hseg
    exact (Option.some.inj hother).symm

theorem symbol_of_mem_segmentsFrom {s : Source} {minSize last cursor after : Nat} {top : List Symbol}
    {segs : List Segment} (h : segmentsFrom s minSize last cursor top = .ok (segs, after)) {seg : Segment}
    (hseg : seg ∈ segs) {sym : Symbol} (hsym : seg.symbol = some sym) : sym ∈ top := by
  induction top generalizing cursor segs with
  | nil =>
    cases h
    cases hseg
  | cons first rest ih =>
    unfold segmentsFrom at h
    obtain ⟨front, hfront, h⟩ := exists_of_bind_eq_ok h
    obtain ⟨more, hmore, h⟩ := exists_of_bind_eq_ok h
    cases h
    rcases List.mem_append.mp hseg with hseg | hseg
    · exact symbol_of_mem_leading hfront hseg hsym ▸ List.mem_cons_self
    · exact List.mem_cons_of_mem first (ih hmore hseg)

theorem exists_of_mem_extendLast {last : Nat} {segs : List Segment} {seg : Segment} (h : seg ∈ extendLast last segs) :
    ∃ old ∈ segs, old.symbol = seg.symbol := by
  induction segs with
  | nil => cases h
  | cons first rest ih =>
    cases rest with
    | nil =>
      obtain rfl := List.mem_singleton.mp h
      exact ⟨first, List.mem_cons_self, rfl⟩
    | cons second rest =>
      rcases List.mem_cons.mp h with rfl | h
      · exact ⟨seg, List.mem_cons_self, rfl⟩
      · obtain ⟨old, hold, hsymbol⟩ := ih h
        exact ⟨old, List.mem_cons_of_mem first hold, hsymbol⟩

theorem symbol_of_mem_segments {s : Source} {top : List Symbol} {last minSize : Nat} {segs : List Segment}
    (h : segments s top last minSize = .ok segs) {seg : Segment} (hseg : seg ∈ segs) {sym : Symbol}
    (hsym : seg.symbol = some sym) : sym ∈ top := by
  unfold segments at h
  obtain ⟨found, hfound, h⟩ := exists_of_bind_eq_ok h
  dsimp only at h
  split at h
  · obtain ⟨large, -, h⟩ := exists_of_bind_eq_ok h
    split at h
    · cases h
      obtain ⟨old, hold, hsymbol⟩ := exists_of_mem_extendLast hseg
      exact symbol_of_mem_segmentsFrom hfound hold (hsymbol.trans hsym)
    · cases h
      rcases List.mem_append.mp hseg with hseg | hseg
      · exact symbol_of_mem_segmentsFrom hfound hseg hsym
      · obtain rfl := List.mem_singleton.mp hseg
        cases hsym
  · cases h
    exact symbol_of_mem_segmentsFrom hfound hseg hsym

end Layout

namespace Job

variable {j : Job} {symbols : List Symbol} {d : Draft}

theorem draftFor_memberDrafts {owner : Symbol} {classId : String} {last cursor : Nat} {members : List Symbol}
    {ds : List Draft} (h : j.memberDrafts owner classId last cursor members = .ok ds) (hd : d ∈ ds) :
    ∃ m ∈ members, j.DraftFor m d := by
  induction members generalizing cursor ds with
  | nil =>
    cases h
    cases hd
  | cons m rest ih =>
    rw [memberDrafts_cons] at h
    obtain ⟨own, hown, h⟩ := exists_of_bind_eq_ok h
    split at h
    · cases h
      exact ⟨m, List.mem_cons_self, .member hown hd⟩
    · obtain ⟨more, hmore, h⟩ := exists_of_bind_eq_ok h
      cases h
      rcases List.mem_append.mp hd with hd | hd
      · exact ⟨m, List.mem_cons_self, .member hown hd⟩
      · obtain ⟨m', hm', hdraft⟩ := ih hmore hd
        exact ⟨m', List.mem_cons_of_mem m hm', hdraft⟩

theorem draftFor_classDrafts {owner : Symbol} {members : List Symbol} {first last : Nat} {ds : List Draft}
    (h : j.classDrafts owner members first last = .ok ds) (hd : d ∈ ds) :
    ∃ s, (s = owner ∨ s ∈ members) ∧ j.DraftFor s d := by
  unfold classDrafts at h
  obtain ⟨head, hhead, h⟩ := exists_of_bind_eq_ok h
  split at h
  · cases h
    exact ⟨owner, .inl rfl, .head hhead hd⟩
  · obtain ⟨more, hmore, h⟩ := exists_of_bind_eq_ok h
    cases h
    rcases List.mem_append.mp hd with hd | hd
    · exact ⟨owner, .inl rfl, .head hhead hd⟩
    · obtain ⟨m, hm, hdraft⟩ := draftFor_memberDrafts hmore hd
      exact ⟨m, .inr hm, hdraft⟩

/-- The drafts of a segment are for its symbol or for members of that, or bear no name. -/
theorem draftFor_segmentDrafts {index : Nat} {seg : Layout.Segment} {ds : List Draft}
    (hseg : ∀ sym, seg.symbol = some sym → sym ∈ symbols) (h : j.segmentDrafts symbols index seg = .ok ds)
    (hd : d ∈ ds) : d.chunk.symbolName = none ∨ ∃ s ∈ symbols, j.DraftFor s d := by
  unfold segmentDrafts at h
  cases hsym : seg.symbol with
  | none =>
    rw [hsym] at h
    obtain ⟨ps, -, h⟩ := exists_of_bind_eq_ok h
    cases h
    obtain ⟨pi, -, rfl⟩ := List.mem_map.mp hd
    exact .inl rfl
  | some sym =>
    rw [hsym] at h
    dsimp only at h
    have hmembers : ∀ m ∈ (if j.settings.strategy = .hierarchical && ChunkKind.ofSymbolKind sym.kind = .classLike then
        Layout.members symbols sym else []), m ∈ symbols := by
      intro m hm
      split at hm
      · exact (Layout.mem_members hm).1
      · cases hm
    generalize (if j.settings.strategy = .hierarchical && ChunkKind.ofSymbolKind sym.kind = .classLike then
      Layout.members symbols sym else []) = members at h hmembers
    split at h
    · exact .inr ⟨sym, hseg sym hsym, .symbol h hd⟩
    · obtain ⟨s, hs, hdraft⟩ := draftFor_classDrafts h hd
      exact .inr ⟨s, hs.elim (fun heq => heq ▸ hseg sym hsym) (hmembers s), hdraft⟩

theorem draftFor_segmentsDrafts {index : Nat} {segs : List Layout.Segment} {ds : List Draft}
    (hsegs : ∀ seg ∈ segs, ∀ sym, seg.symbol = some sym → sym ∈ symbols)
    (h : j.segmentsDrafts symbols index segs = .ok ds) (hd : d ∈ ds) :
    d.chunk.symbolName = none ∨ ∃ s ∈ symbols, j.DraftFor s d := by
  induction segs generalizing index ds with
  | nil =>
    cases h
    cases hd
  | cons seg rest ih =>
    obtain ⟨hseg, hrest⟩ := List.forall_mem_cons.mp hsegs
    unfold segmentsDrafts at h
    obtain ⟨own, hown, h⟩ := exists_of_bind_eq_ok h
    obtain ⟨more, hmore, h⟩ := exists_of_bind_eq_ok h
    cases h
    rcases List.mem_append.mp hd with hd | hd
    · exact draftFor_segmentDrafts hseg hown hd
    · exact ih hrest hmore hd

theorem symbolName_of_optionalSummary {names : List String} {chunking : String} {c : Chunk}
    (h : c ∈ j.optionalSummary names chunking) : c.symbolName = none := by
  unfold optionalSummary at h
  split at h
  · obtain rfl := List.mem_singleton.mp h
    rfl
  · cases h

theorem symbolName_of_chunkWindows {chunks : List Chunk} (h : j.chunkWindows = .ok chunks) :
    ∀ c ∈ chunks, c.symbolName = none := by
  unfold chunkWindows at h
  split at h
  · cases h
    exact List.forall_mem_nil _
  · obtain ⟨ps, -, h⟩ := exists_of_bind_eq_ok h
    obtain ⟨cut, hcut, h⟩ := exists_of_bind_eq_ok h
    cases h
    intro c hc
    rcases List.mem_append.mp hc with hsummary | hwindow
    · exact symbolName_of_optionalSummary hsummary
    · obtain ⟨d, hd, hcut⟩ := exists_of_mapM hcut c hwindow
      obtain ⟨pi, -, rfl⟩ := List.mem_map.mp hd
      obtain ⟨content, -, hcut⟩ := exists_of_bind_eq_ok hcut
      cases hcut
      rfl

/-- A chunk along symbols bears no name, or it is cut for one of the symbols and bears the name of that. -/
theorem cutFor_of_chunkSymbols {imports : List Import} {chunks : List Chunk}
    (h : j.chunkSymbols symbols imports = .ok chunks) {c : Chunk} (hc : c ∈ chunks) :
    c.symbolName = none ∨ ∃ s ∈ symbols, c.CutFor j.path s ∧ c.symbolName = some s.name := by
  unfold chunkSymbols at h
  dsimp only at h
  split at h
  · cases h
    cases hc
  split at h
  · exact .inl (symbolName_of_chunkWindows h c hc)
  obtain ⟨segs, hsegs, h⟩ := exists_of_bind_eq_ok h
  obtain ⟨drafts, hdrafts, h⟩ := exists_of_bind_eq_ok h
  obtain ⟨cut, hcut, h⟩ := exists_of_bind_eq_ok h
  cases h
  rcases List.mem_append.mp hc with hfront | hcuts
  · rcases List.mem_append.mp hfront with hsummary | himports
    · exact .inl (symbolName_of_optionalSummary hsummary)
    · split at himports
      · cases himports
      · obtain rfl := List.mem_singleton.mp himports
        exact .inl rfl
  · obtain ⟨d, hd, hcut⟩ := exists_of_mapM hcut c hcuts
    have howned : ∀ seg ∈ segs, ∀ sym, seg.symbol = some sym → sym ∈ symbols := fun seg hseg sym hsym =>
      Layout.mem_of_mem_outermost (Layout.symbol_of_mem_segments hsegs hseg hsym)
    rcases draftFor_segmentsDrafts howned hdrafts hd with hname | ⟨s, hs, hdraft⟩
    · obtain ⟨content, -, hcut⟩ := exists_of_bind_eq_ok hcut
      cases hcut
      exact .inl hname
    · have hfor : c.CutFor j.path s := ⟨j, d, rfl, hdraft, hcut⟩
      exact .inr ⟨s, hs, hfor, hfor.path_and_name.2⟩

end Job

end CodeIndex
