import Mathlib.Data.List.Nodup
import CodeIndex.Proofs.Chunk.Coverage
import CodeIndex.Proofs.Except
import CodeIndex.Vectors.Memory

/-!
# Ids of chunks

A chunk bears the name of what it is cut from or a number below such a name. `Outline` lists both for a file: the
names that stand alone, and how many chunks are numbered below which names. The ids of a file are pairwise distinct
exactly if the names in each list are, and no name that stands alone reads like a numbered one.
-/

namespace CodeIndex

/-- Names with a chunk of their own, and names below which chunks are numbered. -/
structure Outline where
  owns : List String := []
  series : List (String × Nat) := []
  deriving DecidableEq, Repr

namespace Outline

/-- A kind of pieces of what has a name. -/
def below (name word : String) : String := name ++ ":" ++ word

/-- The place of a number below a name. -/
def nth (name : String) (i : Nat) : String := name ++ ":" ++ toString i

/-- The last stop parts a list in one way. -/
theorem append_stop_inj {c : Char} {front front' rest rest' : List Char} (h : front ++ c :: rest = front' ++ c :: rest')
    (hrest : c ∉ rest) (hrest' : c ∉ rest') : front = front' ∧ rest = rest' := by
  rcases List.append_eq_append_iff.mp h with ⟨more, rfl, hmore⟩ | ⟨more, rfl, hmore⟩ <;> cases more with
  | nil => simpa [eq_comm] using hmore
  | cons d more =>
    obtain ⟨rfl, rfl⟩ : c = d ∧ _ = _ := by simpa using hmore
    simp at hrest hrest'

theorem colon_not_mem_toString (i : Nat) : ':' ∉ (toString i).toList := by
  rw [Nat.toString_eq_repr, Nat.toList_repr]
  intro h
  have := Nat.isDigit_of_mem_toDigits (by decide) (by decide) h
  simp [Char.isDigit] at this

theorem toString_inj {i i' : Nat} (h : toString i = toString i') : i = i' := by
  have h := congrArg String.toList h
  simp only [Nat.toString_eq_repr, Nat.toList_repr] at h
  rw [← Nat.ofDigitChars_toDigits (b := 10) (n := i) (by decide) (by decide), h,
    Nat.ofDigitChars_toDigits (by decide) (by decide)]

theorem nth_inj {name name' : String} {i i' : Nat} : nth name i = nth name' i' ↔ name = name' ∧ i = i' := by
  refine ⟨fun h => ?_, fun ⟨h, h'⟩ => h ▸ h' ▸ rfl⟩
  have hlists : name.toList ++ ':' :: (toString i).toList = name'.toList ++ ':' :: (toString i').toList := by
    simpa [nth, String.ext_iff] using h
  obtain ⟨hname, hi⟩ := append_stop_inj hlists (colon_not_mem_toString i) (colon_not_mem_toString i')
  exact ⟨String.ext hname, toString_inj (String.ext hi)⟩

def numbered (o : Outline) : List String :=
  o.series.flatMap fun s => (List.range s.2).map (nth s.1)

def labels (o : Outline) : List String := o.owns ++ o.numbered

instance : Append Outline := ⟨fun a b => ⟨a.owns ++ b.owns, a.series ++ b.series⟩⟩

theorem labels_append (a b : Outline) : (a ++ b).labels.Perm (a.labels ++ b.labels) := by
  change ((a.owns ++ b.owns) ++ (a.series ++ b.series).flatMap _).Perm
    ((a.owns ++ a.numbered) ++ (b.owns ++ b.numbered))
  rw [List.flatMap_append, List.append_assoc, List.append_assoc]
  exact (List.perm_append_comm_assoc ..).append_left _

/-- No name stands alone twice or has numbers twice, and none that stands alone reads like a numbered one. -/
structure Distinct (o : Outline) : Prop where
  owns : o.owns.Nodup
  series : ((o.series.filter (0 < ·.2)).map (·.1)).Nodup
  apart : ∀ name ∈ o.owns, ∀ s ∈ o.series, ∀ i < s.2, name ≠ nth s.1 i

theorem distinct_iff {o : Outline} : o.Distinct ↔ o.owns.Nodup ∧ ((o.series.filter (0 < ·.2)).map (·.1)).Nodup ∧
    ∀ name ∈ o.owns, ∀ s ∈ o.series, ∀ i < s.2, name ≠ nth s.1 i :=
  ⟨fun h => ⟨h.owns, h.series, h.apart⟩, fun h => ⟨h.1, h.2.1, h.2.2⟩⟩

instance (o : Outline) : Decidable o.Distinct := decidable_of_iff' _ distinct_iff

theorem distinct_empty : Distinct {} := ⟨List.nodup_nil, List.nodup_nil, nofun⟩

theorem mem_numbered {o : Outline} {label : String} :
    label ∈ o.numbered ↔ ∃ s ∈ o.series, ∃ i < s.2, nth s.1 i = label := by
  simp only [numbered, List.mem_flatMap, List.mem_map, List.mem_range]

theorem nodup_numbered_iff {o : Outline} :
    o.numbered.Nodup ↔ ((o.series.filter (0 < ·.2)).map (·.1)).Nodup := by
  have hown : ∀ s ∈ o.series, ((List.range s.2).map (nth s.1)).Nodup := fun s _ =>
    List.nodup_range.map fun i i' h => (nth_inj.mp h).2
  -- two series meet where both have a first number
  have hmeet : ∀ s t : String × Nat, List.Disjoint ((List.range s.2).map (nth s.1)) ((List.range t.2).map (nth t.1)) ↔
      (0 < s.2 → 0 < t.2 → s.1 ≠ t.1) := by
    intro s t
    simp only [List.disjoint_left, List.mem_map, List.mem_range, not_exists, not_and]
    constructor
    · intro h hs ht heq
      exact h ⟨0, hs, rfl⟩ 0 ht (heq ▸ rfl)
    · rintro h _ ⟨i, hi, rfl⟩ i' hi' heq
      exact h (Nat.zero_lt_of_lt hi) (Nat.zero_lt_of_lt hi') (nth_inj.mp heq).1.symm
  rw [numbered, List.nodup_flatMap, and_iff_right hown, List.Nodup, List.pairwise_map, List.pairwise_filter]
  simp only [decide_eq_true_eq]
  exact ⟨fun h => h.imp (hmeet _ _).mp, fun h => h.imp (hmeet _ _).mpr⟩

theorem nodup_labels_iff {o : Outline} : o.labels.Nodup ↔ o.Distinct := by
  have hapart : List.Disjoint o.owns o.numbered ↔
      ∀ name ∈ o.owns, ∀ s ∈ o.series, ∀ i < s.2, name ≠ nth s.1 i := by
    simp only [List.disjoint_left, mem_numbered, not_exists, not_and]
    exact forall₂_congr fun name _ => forall₂_congr fun s _ => forall₂_congr fun i _ => ne_comm
  rw [labels, List.nodup_append', nodup_numbered_iff, hapart, distinct_iff]

end Outline

namespace Job

variable {j : Job}

/-! ## Drafts by their ids -/

def idOf (j : Job) (label : String) : String := j.path ++ ":" ++ label

/-- Ids with the labels of an outline. -/
def Follows (j : Job) (ids : List String) (o : Outline) : Prop := ids.Perm (o.labels.map j.idOf)

theorem Follows.append {ids ids' : List String} {o o' : Outline} (h : j.Follows ids o) (h' : j.Follows ids' o') :
    j.Follows (ids ++ ids') (o ++ o') := by
  refine .trans ?_ ((Outline.labels_append o o').map j.idOf).symm
  rw [List.map_append]
  exact List.Perm.append h h'

theorem idOf_injective (j : Job) : Function.Injective j.idOf := by
  intro a b h
  simpa [idOf, String.ext_iff] using h

/-- The ids of an outline are distinct if it is. -/
theorem Follows.nodup_iff {ids : List String} {o : Outline} (h : j.Follows ids o) : ids.Nodup ↔ o.Distinct := by
  rw [List.Perm.nodup_iff h, List.nodup_map_iff j.idOf_injective, Outline.nodup_labels_iff]

/-- Drafts with the labels of an outline. -/
def Outlined (j : Job) (ds : List Draft) (o : Outline) : Prop := j.Follows (ds.map (·.chunk.id)) o

theorem Outlined.append {ds ds' : List Draft} {o o' : Outline} (h : j.Outlined ds o) (h' : j.Outlined ds' o') :
    j.Outlined (ds ++ ds') (o ++ o') := by
  rw [Outlined, List.map_append]
  exact Follows.append h h'

/-- Pieces that are numbered below a name. -/
theorem ids_zipIdx {ps : List Piece} {draftOf : Piece × Nat → Draft} {label : Nat → String}
    (h : ∀ p i, (draftOf (p, i)).chunk.id = label i) :
    (ps.zipIdx.map draftOf).map (·.chunk.id) = (List.range ps.length).map label := by
  rw [List.map_map, List.range_eq_range', ← List.zipIdx_map_snd 0 ps, List.map_map]
  exact List.map_congr_left fun pi _ => h pi.1 pi.2

theorem outlined_own {d : Draft} {name : String} (h : d.chunk.id = j.idOf name) :
    j.Outlined [d] { owns := [name] } := by
  simp [Outlined, Follows, Outline.labels, Outline.numbered, h]

theorem outlined_series {ps : List Piece} {draftOf : Piece × Nat → Draft} {name : String}
    (h : ∀ p i, (draftOf (p, i)).chunk.id = j.idOf (Outline.nth name i)) :
    j.Outlined (ps.zipIdx.map draftOf) { series := [(name, ps.length)] } := by
  rw [Outlined, Follows, ids_zipIdx h]
  simp [Outline.labels, Outline.numbered, Function.comp_def]

/-! ## Lines under a name -/

/-- Lines in one piece if they fit, and else in parts. -/
def pieceOutline (j : Job) (name : String) (first last : Nat) : Except Source.Fault Outline := do
  if (← j.lineSize first last) ≤ j.settings.maxChars then return { owns := [name] }
  else return { series := [(Outline.below name "part", (← j.pieces first last true).length)] }

/-- How many windows lines take. -/
def windowCount (j : Job) (first last : Nat) : Except Source.Fault Nat := do
  if first ≤ last then
    let (start, stop) ← j.source.span first last
    return (← j.windows start stop j.settings.maxSubchunks).length
  else return 0

/-- A symbol of many lines has a header with its name, and windows before and behind it. -/
def symbolOutline (j : Job) (sym : Symbol) (first last : Nat) : Except Source.Fault Outline := do
  let name := sym.qualifiedName
  if j.settings.strategy ≠ .symbolOnly && j.settings.largeSymbol < last - first + 1 then
    let headerEnd := min (max sym.startLine first) last
    let start ← j.headerStart first headerEnd
    let lead ← j.windowCount first (start - 1)
    let body ← j.windowCount (headerEnd + 1) last
    return { owns := [name], series := [(Outline.below name "lead", lead), (Outline.below name "body", body)] }
  else j.pieceOutline name first last

theorem id_wholeLines {id : String} {kind : ChunkKind} {first last : Nat} {d : Draft}
    (h : j.wholeLines id kind first last = .ok d) : d.chunk.id = id := by
  unfold wholeLines at h
  obtain ⟨span, -, h⟩ := exists_of_bind_eq_ok h
  cases h
  rfl

theorem id_markOversized (p : Piece) (c : Chunk) : (markOversized p c).id = c.id := by
  unfold markOversized
  split <;> rfl

theorem idOf_below (j : Job) (name word : String) (i : Nat) :
    j.idOf (Outline.nth (Outline.below name word) i) = s!"{j.idOf name}:{word}:{i}" := by
  simp only [idOf, Outline.nth, Outline.below, toString, String.append_assoc]

theorem idOf_part (j : Job) (name : String) (i : Nat) :
    j.idOf (Outline.nth (Outline.below name "part") i) = s!"{j.idOf name}:part:{i}" := by
  change _ = j.idOf name ++ ":part:" ++ toString i
  simp [idOf, Outline.nth, Outline.below, String.ext_iff]

theorem numbered_outlined (sym : Symbol) (lineCount : Nat) (name word : String) (kind : ChunkKind) (ps : List Piece) :
    j.Outlined (j.numbered sym lineCount (j.idOf name) word kind ps)
      { series := [(Outline.below name word, ps.length)] } :=
  outlined_series fun p i => (id_markOversized p _).trans (idOf_below j name word i).symm

/-- Lines that are drafted whole, or in parts that are numbered. -/
theorem pieceOutline_spec {name : String} {first last size : Nat} {kind : ChunkKind} {f : Chunk → Chunk}
    {partsOf : List Piece → List Draft} {ds : List Draft} (hf : ∀ c, (f c).id = c.id)
    (hparts : ∀ ps, j.Outlined (partsOf ps) { series := [(Outline.below name "part", ps.length)] })
    (hsize : j.lineSize first last = .ok size)
    (h : (if size ≤ j.settings.maxChars then do return [(← j.wholeLines (j.idOf name) kind first last).map f]
      else do return partsOf (← j.pieces first last true)) = Except.ok ds) :
    ∃ o, j.pieceOutline name first last = .ok o ∧ j.Outlined ds o := by
  simp only [pieceOutline, hsize, bind, Except.bind]
  split at h
  · next hfits =>
    obtain ⟨d, hd, h⟩ := exists_of_bind_eq_ok h
    cases h
    rw [if_pos hfits]
    exact ⟨_, rfl, outlined_own ((hf _).trans (id_wholeLines hd))⟩
  · next hlong =>
    obtain ⟨ps, hps, h⟩ := exists_of_bind_eq_ok h
    cases h
    rw [if_neg hlong, hps]
    exact ⟨_, rfl, hparts ps⟩

theorem windowedLines_outlined {sym : Symbol} {lineCount first last : Nat} {name word : String} {kind : ChunkKind}
    {ds : List Draft} (h : j.windowedLines sym lineCount (j.idOf name) word kind first last = .ok ds) :
    ∃ n, j.windowCount first last = .ok n ∧ j.Outlined ds { series := [(Outline.below name word, n)] } := by
  unfold windowedLines at h
  unfold windowCount
  split at h
  · next hle =>
    obtain ⟨⟨start, stop⟩, hspan, h⟩ := exists_of_bind_eq_ok h
    obtain ⟨ps, hps, h⟩ := exists_of_bind_eq_ok h
    cases h
    simp only [if_pos hle, hspan, bind, Except.bind, hps]
    exact ⟨_, rfl, numbered_outlined ..⟩
  · next hgt =>
    rw [if_neg hgt]
    cases h
    exact ⟨0, rfl, .nil⟩

theorem splitBody_outlined {sym : Symbol} {name : String} {first last : Nat} {parent : Option String} {ds : List Draft}
    (h : j.splitBody sym (j.idOf name) first last parent = .ok ds) :
    ∃ start lead body, j.headerStart first (min (max sym.startLine first) last) = .ok start ∧
      j.windowCount first (start - 1) = .ok lead ∧
      j.windowCount (min (max sym.startLine first) last + 1) last = .ok body ∧
      j.Outlined ds
        { owns := [name], series := [(Outline.below name "lead", lead), (Outline.below name "body", body)] } := by
  unfold splitBody at h
  obtain ⟨start, hstart, h⟩ := exists_of_bind_eq_ok h
  obtain ⟨before, hbefore, h⟩ := exists_of_bind_eq_ok h
  obtain ⟨header, hheader, h⟩ := exists_of_bind_eq_ok h
  obtain ⟨behind, hbehind, h⟩ := exists_of_bind_eq_ok h
  cases h
  obtain ⟨lead, hlead, hleads⟩ := windowedLines_outlined hbefore
  obtain ⟨body, hbody, hbodys⟩ := windowedLines_outlined hbehind
  have hid := (id_markOversized ⟨0, 0, decide (j.settings.maxChars < header.stop - header.start)⟩
    (dress sym (last - first + 1) parent header.chunk)).trans (id_wholeLines hheader)
  exact ⟨start, lead, body, hstart, hlead, hbody, (hleads.append (outlined_own hid)).append hbodys⟩

/-- The ids of a symbol's drafts. -/
theorem symbolDrafts_outlined {sym : Symbol} {first last : Nat} {parent : Option String} {ds : List Draft}
    (h : j.symbolDrafts sym first last parent = .ok ds) :
    ∃ o, j.symbolOutline sym first last = .ok o ∧ j.Outlined ds o := by
  unfold symbolDrafts at h
  obtain ⟨size, hsize, h⟩ := exists_of_bind_eq_ok h
  unfold symbolOutline
  split at h
  · next hlarge =>
    obtain ⟨start, lead, body, hstart, hlead, hbody, hds⟩ := splitBody_outlined h
    rw [if_pos hlarge]
    simp only [hstart, hlead, hbody, bind, Except.bind]
    exact ⟨_, rfl, hds⟩
  · next hsmall =>
    rw [if_neg hsmall]
    exact pieceOutline_spec (f := dress sym (last - first + 1) parent) (fun c => rfl)
      (fun ps => numbered_outlined sym _ _ "part" _ ps) hsize h

/-! ## Classes -/

/-- The last line of a member, before the next one or at the end of the class. -/
def memberStop (last cursor : Nat) (m : Symbol) : List Symbol → Nat
  | [] => last
  | next :: _ => min (max m.endLine cursor) (max (next.startLine - 1) cursor)

theorem memberDrafts_cons (j : Job) (owner : Symbol) (classId : String) (last cursor : Nat) (m : Symbol)
    (rest : List Symbol) : j.memberDrafts owner classId last cursor (m :: rest) = (do
      let stop := memberStop last cursor m rest
      let asMethod := { m with kind := "method", parent := some owner.name }
      let own ← j.symbolDrafts asMethod cursor stop (some classId)
      if last < stop + 1 then return own
      else return own ++ (← j.memberDrafts owner classId last (stop + 1) rest)) := by
  cases rest <;> rfl

def memberOutline (j : Job) (owner : Symbol) (last : Nat) :
    (cursor : Nat) → List Symbol → Except Source.Fault Outline
  | _, [] => .ok {}
  | cursor, m :: rest => do
    let stop := memberStop last cursor m rest
    let own ← j.symbolOutline { m with kind := "method", parent := some owner.name } cursor stop
    if last < stop + 1 then return own
    else return own ++ (← j.memberOutline owner last (stop + 1) rest)

def classOutline (j : Job) (owner : Symbol) (members : List Symbol) (first last : Nat) :
    Except Source.Fault Outline := do
  let headerEnd := max ((members.head?.map (·.startLine - 1)).getD 0) first
  let head ← j.pieceOutline owner.name first headerEnd
  if last ≤ headerEnd then return head
  else return head ++ (← j.memberOutline owner last (headerEnd + 1) members)

theorem memberDrafts_outlined {owner : Symbol} {classId : String} {last cursor : Nat} {members : List Symbol}
    {ds : List Draft} (h : j.memberDrafts owner classId last cursor members = .ok ds) :
    ∃ o, j.memberOutline owner last cursor members = .ok o ∧ j.Outlined ds o := by
  induction members generalizing cursor ds with
  | nil =>
    cases h
    exact ⟨{}, rfl, .nil⟩
  | cons m rest ih =>
    rw [memberDrafts_cons] at h
    unfold memberOutline
    obtain ⟨own, hown, h⟩ := exists_of_bind_eq_ok h
    obtain ⟨o, ho, howns⟩ := symbolDrafts_outlined hown
    simp only [ho, bind, Except.bind]
    split at h
    · next hlast =>
      cases h
      rw [if_pos hlast]
      exact ⟨o, rfl, howns⟩
    · next hmore =>
      obtain ⟨more, hmores, h⟩ := exists_of_bind_eq_ok h
      cases h
      obtain ⟨o', ho', hmores'⟩ := ih hmores
      rw [if_neg hmore, ho']
      exact ⟨_, rfl, howns.append hmores'⟩

theorem headDrafts_outlined {owner : Symbol} {members : List Symbol} {name : String} {first last : Nat}
    {ds : List Draft} (h : j.headDrafts owner members (j.idOf name) first last = .ok ds) :
    ∃ o, j.pieceOutline name first last = .ok o ∧ j.Outlined ds o := by
  unfold headDrafts at h
  obtain ⟨size, hsize, h⟩ := exists_of_bind_eq_ok h
  refine pieceOutline_spec (f := dressHead owner members) (fun c => rfl) (fun ps => ?_) hsize h
  exact outlined_series fun p i => (id_markOversized p _).trans (idOf_part j name i).symm

theorem classDrafts_outlined {owner : Symbol} {members : List Symbol} {first last : Nat} {ds : List Draft}
    (h : j.classDrafts owner members first last = .ok ds) :
    ∃ o, j.classOutline owner members first last = .ok o ∧ j.Outlined ds o := by
  unfold classDrafts at h
  obtain ⟨head, hhead, h⟩ := exists_of_bind_eq_ok h
  obtain ⟨o, ho, hheads⟩ := headDrafts_outlined hhead
  simp only [classOutline, ho, bind, Except.bind]
  split at h
  · next hlast =>
    cases h
    rw [if_pos hlast]
    exact ⟨o, rfl, hheads⟩
  · next hmore =>
    obtain ⟨more, hmores, h⟩ := exists_of_bind_eq_ok h
    cases h
    obtain ⟨o', ho', hmores'⟩ := memberDrafts_outlined hmores
    rw [if_neg hmore, ho']
    exact ⟨_, rfl, hheads.append hmores'⟩

/-! ## Segments -/

/-- The name of code that belongs to no symbol. -/
def moduleName : String := "__module__"

/-- A symbol as a whole, or a class with its members. -/
def ownerOutline (j : Job) (symbols : List Symbol) (sym : Symbol) (first last : Nat) : Except Source.Fault Outline :=
  let members :=
    if j.settings.strategy = .hierarchical && ChunkKind.ofSymbolKind sym.kind = .classLike then
      Layout.members symbols sym
    else []
  if members.isEmpty then j.symbolOutline sym first last else j.classOutline sym members first last

/-- What the segments of symbols give, and how many pieces the others have together. -/
def segmentsOutline (j : Job) (symbols : List Symbol) : List Layout.Segment → Except Source.Fault (Outline × Nat)
  | [] => .ok ({}, 0)
  | seg :: rest => do
    match seg.symbol with
    | none =>
      let ps ← j.pieces seg.first seg.last false
      let (o, n) ← j.segmentsOutline symbols rest
      return (o, ps.length + n)
    | some sym =>
      let own ← j.ownerOutline symbols sym seg.first seg.last
      let (o, n) ← j.segmentsOutline symbols rest
      return (own ++ o, n)

theorem idOf_module (j : Job) (i : Nat) : j.idOf (Outline.nth moduleName i) = s!"{j.path}:__module__:{i}" := by
  change _ = j.path ++ ":__module__:" ++ toString i
  simp [idOf, Outline.nth, moduleName, String.ext_iff]

theorem ownerOutline_spec {symbols : List Symbol} {index : Nat} {seg : Layout.Segment} {sym : Symbol}
    {ds : List Draft} (hsym : seg.symbol = some sym) (h : j.segmentDrafts symbols index seg = .ok ds) :
    ∃ o, j.ownerOutline symbols sym seg.first seg.last = .ok o ∧ j.Outlined ds o := by
  unfold segmentDrafts at h
  rw [hsym] at h
  unfold ownerOutline
  dsimp only at h ⊢
  generalize (if j.settings.strategy = .hierarchical && ChunkKind.ofSymbolKind sym.kind = .classLike then
    Layout.members symbols sym else []) = members at h ⊢
  split at h
  · next hempty =>
    rw [if_pos hempty]
    exact symbolDrafts_outlined h
  · next hmembers =>
    rw [if_neg hmembers]
    exact classDrafts_outlined h

theorem segmentsDrafts_outlined {symbols : List Symbol} {index : Nat} {segs : List Layout.Segment} {ds : List Draft}
    (h : j.segmentsDrafts symbols index segs = .ok ds) :
    ∃ o n, j.segmentsOutline symbols segs = .ok (o, n) ∧ (ds.map (·.chunk.id)).Perm
      (o.labels.map j.idOf ++ (List.range n).map fun i => j.idOf (Outline.nth moduleName (index + i))) := by
  induction segs generalizing index ds with
  | nil =>
    cases h
    exact ⟨{}, 0, rfl, .nil⟩
  | cons seg rest ih =>
    unfold segmentsDrafts at h
    obtain ⟨own, hown, h⟩ := exists_of_bind_eq_ok h
    obtain ⟨more, hmore, h⟩ := exists_of_bind_eq_ok h
    cases h
    obtain ⟨o, n, ho, hmores⟩ := ih hmore
    unfold segmentsOutline
    cases hsym : seg.symbol with
    | none =>
      unfold segmentDrafts at hown
      rw [hsym] at hown hmores
      obtain ⟨ps, hps, hown⟩ := exists_of_bind_eq_ok hown
      cases hown
      simp only [hps, ho, bind, Except.bind]
      refine ⟨o, ps.length + n, rfl, ?_⟩
      -- the numbers go on behind those of this segment
      simp only [Option.isNone_none, if_true, List.length_map, List.length_zipIdx, Nat.add_assoc] at hmores
      rw [List.map_append]
      refine .trans (.append (.of_eq (ids_zipIdx fun p i => (idOf_module j (index + i)).symm)) hmores) ?_
      rw [List.range_add, List.map_append, List.map_map]
      exact List.perm_append_comm_assoc ..
    | some sym =>
      obtain ⟨o', ho', howns⟩ := ownerOutline_spec hsym hown
      rw [hsym] at hmores
      simp only [Option.isNone_some, Bool.false_eq_true, if_false] at hmores
      simp only [ho', ho, bind, Except.bind]
      refine ⟨o' ++ o, n, rfl, ?_⟩
      rw [List.map_append]
      refine (List.Perm.append howns hmores).trans ?_
      rw [← List.append_assoc, ← List.map_append]
      exact (((Outline.labels_append o' o).map j.idOf).symm).append_right _

/-! ## Routes -/

theorem ids_cut {s : Source} {ds : List Draft} {cs : List Chunk} (h : ds.mapM (Draft.cut s) = .ok cs) :
    cs.map (·.id) = ds.map (·.chunk.id) := by
  induction ds generalizing cs with
  | nil =>
    cases h
    rfl
  | cons d ds ih =>
    rw [List.mapM_cons] at h
    obtain ⟨c, hc, h⟩ := exists_of_bind_eq_ok h
    obtain ⟨rest, hrest, h⟩ := exists_of_bind_eq_ok h
    cases h
    obtain ⟨text, -, hc⟩ := exists_of_bind_eq_ok hc
    cases hc
    rw [List.map_cons, List.map_cons, ih hrest]

def summaryOutline (j : Job) : Outline :=
  if j.settings.fileSummary then { owns := ["__file__"] } else {}

theorem optionalSummary_follows (names : List String) (chunking : String) :
    j.Follows ((j.optionalSummary names chunking).map (·.id)) j.summaryOutline := by
  unfold optionalSummary summaryOutline Follows
  split
  · simp [fileSummary, Outline.labels, Outline.numbered, idOf, Chunk.onLines, Chunk.note, Chunk.noteNat, String.ext_iff]
  · exact .nil

theorem id_of_mem_optionalSummary {names : List String} {chunking : String} {c : Chunk}
    (h : c ∈ j.optionalSummary names chunking) : c.id = j.idOf "__file__" := by
  have hid := (optionalSummary_follows names chunking).subset (List.mem_map_of_mem h)
  unfold summaryOutline at hid
  split at hid
  · simpa [Outline.labels, Outline.numbered] using hid
  · cases hid

def importsOutline (imports : List Import) : Outline :=
  if imports.isEmpty then {} else { owns := ["__imports__"] }

theorem importBlock_follows (imports : List Import) :
    j.Follows ((if imports.isEmpty then [] else [j.importBlock imports]).map (·.id)) (importsOutline imports) := by
  unfold importsOutline Follows
  split
  · exact .nil
  · simp [importBlock, Outline.labels, Outline.numbered, idOf, Chunk.onLines, Chunk.note, Chunk.noteNat, String.ext_iff]

/-- What a file gives along its symbols. Windows have no names. -/
def symbolsOutline (j : Job) (symbols : List Symbol) (imports : List Import) : Except Source.Fault Outline := do
  let n := j.source.lineCount
  let top := Layout.outermost symbols n
  if n = 0 || top.isEmpty then return {}
  else
    let segs ← Layout.segments j.source top n j.settings.minSize
    let (o, pieces) ← j.segmentsOutline symbols segs
    return j.summaryOutline ++ importsOutline imports ++ (o ++ { series := [(moduleName, pieces)] })

def sectionName (sec : Section) : String := "section:" ++ sec.name

/-- What a file gives along its sections. -/
def sectionsOutline (j : Job) : Except Source.Fault Outline := do
  let sections ← Section.all j.language j.source
  if sections.isEmpty then return {}
  else
    let os ← sections.mapM fun sec => j.pieceOutline (sectionName sec) sec.first sec.last
    return j.summaryOutline ++ os.foldr (· ++ ·) {}

theorem sectionDrafts_outlined {sec : Section} {ds : List Draft} (h : j.sectionDrafts sec = .ok ds) :
    ∃ o, j.pieceOutline (sectionName sec) sec.first sec.last = .ok o ∧ j.Outlined ds o := by
  have hid : s!"{j.path}:section:{sec.name}" = j.idOf (sectionName sec) := by
    change j.path ++ ":section:" ++ sec.name = _
    simp [idOf, sectionName, String.ext_iff]
  unfold sectionDrafts at h
  rw [hid] at h
  obtain ⟨size, hsize, h⟩ := exists_of_bind_eq_ok h
  refine pieceOutline_spec (f := fun c => { c with symbolName := some sec.name, symbolType := some "config_section" })
    (fun c => rfl) (fun ps => ?_) hsize h
  exact outlined_series fun p i => (id_markOversized p _).trans (idOf_part j (sectionName sec) i).symm

theorem sectionsDrafts_outlined {secs : List Section} {dss : List (List Draft)}
    (h : secs.mapM j.sectionDrafts = .ok dss) :
    ∃ os, secs.mapM (fun sec => j.pieceOutline (sectionName sec) sec.first sec.last) = .ok os ∧
      j.Outlined dss.flatten (os.foldr (· ++ ·) {}) := by
  induction secs generalizing dss with
  | nil =>
    cases h
    exact ⟨[], rfl, .nil⟩
  | cons sec secs ih =>
    rw [List.mapM_cons] at h
    obtain ⟨ds, hds, h⟩ := exists_of_bind_eq_ok h
    obtain ⟨rest, hrest, h⟩ := exists_of_bind_eq_ok h
    cases h
    obtain ⟨o, ho, hown⟩ := sectionDrafts_outlined hds
    obtain ⟨os, hos, hmore⟩ := ih hrest
    refine ⟨o :: os, ?_, hown.append hmore⟩
    rw [List.mapM_cons, ho, hos]
    rfl

/-- The label of a window. -/
def windowLabel (i first last : Nat) : String := s!"window:{i}:L{first}-L{last}"

theorem windowLabel_inj {i i' a a' b b' : Nat} (h : windowLabel i a b = windowLabel i' a' b') : i = i' := by
  have hstop : ∀ (i a b : Nat), (windowLabel i a b).toList =
      "window:".toList ++ ((toString i).toList ++ ':' :: ("L" ++ toString a ++ "-L" ++ toString b).toList) := by
    intro i a b
    change ("window:" ++ toString i ++ ":L" ++ toString a ++ "-L" ++ toString b).toList = _
    simp
  have hdigits : ∀ (i : Nat) (rest : List Char), ((toString i).toList ++ ':' :: rest).takeWhile (· != ':') =
      (toString i).toList := by
    intro i rest
    rw [List.takeWhile_append_of_pos, List.takeWhile_cons_of_neg (by simp), List.append_nil]
    intro c hc
    simpa using fun heq : c = ':' => Outline.colon_not_mem_toString i (heq ▸ hc)
  have h := congrArg String.toList h
  rw [hstop, hstop, List.append_cancel_left_eq] at h
  refine Outline.toString_inj (String.ext ?_)
  rw [← hdigits i, h, hdigits i']

theorem idOf_windowLabel (j : Job) (i first last : Nat) :
    j.idOf (windowLabel i first last) = s!"{j.path}:window:{i}:L{first}-L{last}" := by
  change j.path ++ ":" ++ ("window:" ++ toString i ++ ":L" ++ toString first ++ "-L" ++ toString last) =
    j.path ++ ":window:" ++ toString i ++ ":L" ++ toString first ++ "-L" ++ toString last
  simp [String.ext_iff]

theorem windowLabel_ne_file (i first last : Nat) : "__file__" ≠ windowLabel i first last := by
  change _ ≠ "window:" ++ toString i ++ ":L" ++ toString first ++ "-L" ++ toString last
  simp [String.ext_iff]

/-- Windows are told apart by their numbers. -/
theorem chunkWindows_nodup {chunks : List Chunk} (h : j.chunkWindows = .ok chunks) : (chunks.map (·.id)).Nodup := by
  unfold chunkWindows at h
  split at h
  · cases h
    exact List.nodup_nil
  · obtain ⟨ps, -, h⟩ := exists_of_bind_eq_ok h
    obtain ⟨cut, hcut, h⟩ := exists_of_bind_eq_ok h
    cases h
    simp only [← idOf_windowLabel] at hcut
    rw [List.map_append, ids_cut hcut, List.map_map]
    refine List.nodup_append'.mpr ⟨?_, ?_, fun id hsummary hwindow => ?_⟩
    · unfold optionalSummary
      split <;> simp
    · refine List.pairwise_map.mpr (.imp ?_ (List.pairwise_map.mp
        (List.zipIdx_map_snd 0 ps ▸ List.nodup_range')))
      exact fun hne heq => hne (windowLabel_inj (j.idOf_injective heq))
    · obtain ⟨⟨p, i⟩, -, rfl⟩ := List.mem_map.mp hwindow
      obtain ⟨summary, hmem, heq⟩ := List.mem_map.mp hsummary
      exact windowLabel_ne_file _ _ _ (j.idOf_injective ((id_of_mem_optionalSummary hmem).symm.trans heq))

theorem chunkSymbols_follows {symbols : List Symbol} {imports : List Import} {chunks : List Chunk}
    (h : j.chunkSymbols symbols imports = .ok chunks) :
    ∃ o, j.symbolsOutline symbols imports = .ok o ∧ ((chunks.map (·.id)).Nodup ↔ o.Distinct) := by
  unfold chunkSymbols at h
  unfold symbolsOutline
  dsimp only at h ⊢
  by_cases hn : j.source.lineCount = 0
  · rw [if_pos hn] at h
    cases h
    rw [if_pos (by simp [hn])]
    exact ⟨{}, rfl, by simp [Outline.distinct_empty]⟩
  rw [if_neg hn] at h
  by_cases htop : (Layout.outermost symbols j.source.lineCount).isEmpty
  · rw [if_pos htop] at h
    rw [if_pos (by simp [htop])]
    exact ⟨{}, rfl, by simp [Outline.distinct_empty, chunkWindows_nodup h]⟩
  rw [if_neg htop] at h
  rw [if_neg (by simp [hn, htop])]
  obtain ⟨segs, hsegs, h⟩ := exists_of_bind_eq_ok h
  obtain ⟨ds, hds, h⟩ := exists_of_bind_eq_ok h
  obtain ⟨cut, hcut, h⟩ := exists_of_bind_eq_ok h
  cases h
  obtain ⟨o, n, ho, hids⟩ := segmentsDrafts_outlined hds
  simp only [hsegs, ho, bind, Except.bind]
  refine ⟨_, rfl, Follows.nodup_iff (j := j) ?_⟩
  rw [List.map_append, List.map_append, ids_cut hcut]
  refine ((optionalSummary_follows _ _).append (importBlock_follows imports)).append (hids.trans ?_)
  refine .trans ?_ ((Outline.labels_append _ _).map j.idOf).symm
  simp [Outline.labels, Outline.numbered, Function.comp_def]

theorem chunkSections?_follows {found : Option (List Chunk)} (h : j.chunkSections? = .ok found) :
    ∃ o, j.sectionsOutline = .ok o ∧
      match found with
      | some chunks => (chunks.map (·.id)).Nodup ↔ o.Distinct
      | none => o = {} := by
  unfold chunkSections? at h
  obtain ⟨secs, hsecs, h⟩ := exists_of_bind_eq_ok h
  simp only [sectionsOutline, hsecs, bind, Except.bind]
  split at h
  · next hempty =>
    cases h
    rw [if_pos hempty]
    exact ⟨{}, rfl, rfl⟩
  · next hne =>
    obtain ⟨dss, hdss, h⟩ := exists_of_bind_eq_ok h
    obtain ⟨cut, hcut, h⟩ := exists_of_bind_eq_ok h
    cases h
    obtain ⟨os, hos, hds⟩ := sectionsDrafts_outlined hdss
    rw [if_neg hne, hos]
    refine ⟨_, rfl, Follows.nodup_iff (j := j) ?_⟩
    rw [List.map_append, ids_cut hcut]
    exact (optionalSummary_follows _ _).append hds

end Job

/-! ## Files -/

/-- The outline of a file, by the route that its chunks take. -/
def fileOutline (r : Registry) (g : Grammars) (settings : ChunkSettings) (path : String)
    (language firstLine : Option String) (content : String) : Except Source.Fault Outline :=
  if Text.isBlankText content then .ok {}
  else match language.or ((r.detect? path firstLine).map (·.name)) with
    | none => .ok {}
    | some lang =>
      let j : Job := { settings, source := .ofString content, path, language := lang }
      let found := if r.supports lang then extract r g path lang content else {}
      if !found.symbols.isEmpty then j.symbolsOutline found.symbols found.imports
      else if r.isConfig lang then j.sectionsOutline
      else .ok {}

theorem chunkFile_follows {r : Registry} {g : Grammars} {settings : ChunkSettings} {path content : String}
    {language firstLine : Option String} {chunks : List Chunk}
    (h : chunkFile r g settings path language firstLine content = .ok chunks) :
    ∃ o, fileOutline r g settings path language firstLine content = .ok o ∧
      ((chunks.map (·.id)).Nodup ↔ o.Distinct) := by
  have hwindows : ∀ {j : Job}, j.chunkWindows = .ok chunks → ((chunks.map (·.id)).Nodup ↔ Outline.Distinct {}) :=
    fun h => by simp [Outline.distinct_empty, Job.chunkWindows_nodup h]
  unfold chunkFile at h
  unfold fileOutline
  dsimp only at h
  by_cases hblank : Text.isBlankText content
  · rw [if_pos hblank] at h ⊢
    cases h
    exact ⟨{}, rfl, by simp [Outline.distinct_empty]⟩
  rw [if_neg hblank] at h ⊢
  cases hlang : language.or ((r.detect? path firstLine).map (·.name)) with
  | none =>
    rw [hlang] at h
    exact ⟨{}, rfl, hwindows h⟩
  | some lang =>
    rw [hlang] at h
    dsimp only at h ⊢
    generalize (if r.supports lang then extract r g path lang content else {}) = found at h ⊢
    by_cases hfound : !found.symbols.isEmpty
    · rw [if_pos hfound] at h ⊢
      exact Job.chunkSymbols_follows h
    rw [if_neg hfound] at h ⊢
    obtain ⟨sections, hsections, h⟩ := exists_of_bind_eq_ok h
    cases hconfig : r.isConfig lang with
    | false =>
      simp only [hconfig, Bool.false_eq_true, if_false] at hsections ⊢
      cases hsections
      exact ⟨{}, rfl, hwindows h⟩
    | true =>
      simp only [hconfig, if_true] at hsections ⊢
      obtain ⟨o, ho, htold⟩ := Job.chunkSections?_follows hsections
      refine ⟨o, ho, ?_⟩
      cases sections with
      | some cs =>
        cases h
        exact htold
      | none =>
        obtain rfl := htold
        exact hwindows h

/-! ## Storing -/

namespace Vectors

/-- How many points a new collection holds after some were put into it. -/
def storedCount (metric : Metric) (collection : String) (size : Nat) (points : List Point) : Except Error Nat := do
  let x ← Index.ensure ({ metric } : MemoryIndex) collection size
  let x ← Index.upsert x collection points
  Index.count x collection

theorem storedCount_eq_iff {metric : Metric} {collection : String} {size : Nat} {points : List Point} :
    storedCount metric collection size points = .ok points.length ↔ (points.map (·.id)).Nodup := by
  have hcount : storedCount metric collection size points =
      .ok (Dict.ofList (points.map fun p => (p.id, (⟨p.vector, p.payload⟩ : Entry)))).length := by
    have hfold : points.foldl (fun es p => Dict.put p.id ⟨p.vector, p.payload⟩ es) [] =
        Dict.ofList (points.map fun p => (p.id, (⟨p.vector, p.payload⟩ : Entry))) := by
      rw [Dict.ofList, List.foldl_map]
    simp [storedCount, Index.ensure, Index.upsert, Index.count, MemoryIndex.find, MemoryIndex.set, Dict.putNew,
      Dict.lookup_put, bind, Except.bind, pure, Except.pure, hfold]
  have hkeys := @Dict.length_ofList_eq_iff _ (points.map fun p => (p.id, (⟨p.vector, p.payload⟩ : Entry)))
  rw [List.length_map, List.map_map] at hkeys
  rw [hcount, Except.ok.injEq]
  exact hkeys

end Vectors

/-- Chunks whose ids are distinct exactly if an outline is, and which a collection of vectors then keeps all. -/
structure ToldBy (o : Outline) (chunks : List Chunk) : Prop where
  nodup_iff : (chunks.map (·.id)).Nodup ↔ o.Distinct
  stored_iff (metric : Vectors.Metric) (collection : String) (size : Nat) (vector : Chunk → List Single)
    (payload : Chunk → Vectors.Payload) :
    Vectors.storedCount metric collection size (chunks.map fun c => ⟨c.id, vector c, payload c⟩) = .ok chunks.length ↔
      o.Distinct

theorem ToldBy.of_nodup_iff {o : Outline} {chunks : List Chunk} (h : (chunks.map (·.id)).Nodup ↔ o.Distinct) :
    ToldBy o chunks where
  nodup_iff := h
  stored_iff metric collection size vector payload := by
    have hstored := @Vectors.storedCount_eq_iff metric collection size
      (chunks.map fun c => ⟨c.id, vector c, payload c⟩)
    rw [List.length_map, List.map_map] at hstored
    exact hstored.trans h

/-- The ids of a file's chunks are pairwise distinct, and storing all chunks by their ids loses none, if and only if
the names that stand alone in its outline are distinct, those with numbers below them too, and no name that stands
alone reads like a numbered one: for every file, and for every list of symbols that is laid on a text. -/
theorem chunk_ids_distinct_iff (settings : ChunkSettings) (path content : String) :
    (∀ (r : Registry) (g : Grammars) (language firstLine : Option String) (chunks : List Chunk),
      chunkFile r g settings path language firstLine content = .ok chunks →
        ∃ o, fileOutline r g settings path language firstLine content = .ok o ∧ ToldBy o chunks) ∧
    ∀ (language : String) (symbols : List Symbol) (imports : List Import) (chunks : List Chunk),
      let j : Job := { settings, source := .ofString content, path, language }
      j.chunkSymbols symbols imports = .ok chunks →
        ∃ o, j.symbolsOutline symbols imports = .ok o ∧ ToldBy o chunks := by
  refine ⟨fun r g language firstLine chunks h => ?_, fun language symbols imports chunks h => ?_⟩
  · obtain ⟨o, ho, hnodup⟩ := chunkFile_follows h
    exact ⟨o, ho, .of_nodup_iff hnodup⟩
  · obtain ⟨o, ho, hnodup⟩ := Job.chunkSymbols_follows h
    exact ⟨o, ho, .of_nodup_iff hnodup⟩

/-- Two functions of one name, of which the second is too long and comes in parts. -/
theorem chunk_ids_distinct_iff_overload :
    let settings : ChunkSettings := { strategy := .symbolOnly, maxTokens := 4, overlapTokens := 0
                                      charsPerToken := ⟨0x3ff0000000000000⟩ }
    let content := "f=1\nf=12345\n"
    let symbols : List Symbol := [⟨"f", "function", "a.py", 1, 1, none⟩, ⟨"f", "function", "a.py", 2, 2, none⟩]
    let j : Job := ⟨settings, .ofString content, "a.py", "python"⟩
    ∃ chunks, j.chunkSymbols symbols [] = .ok chunks ∧ (chunks.map (·.id)).Nodup ∧
      ∀ (vector : Chunk → List Single) (payload : Chunk → Vectors.Payload),
        Vectors.storedCount .cosine "c" 2 (chunks.map fun c => ⟨c.id, vector c, payload c⟩) = .ok chunks.length := by
  intro settings content symbols j
  have hlines : j.source.lineCount = 2 := by decide +kernel
  have hplaced : ∀ sym ∈ symbols, sym.Placed j.source.lineCount := by
    rw [hlines]
    intro sym hsym
    rcases List.mem_pair.mp hsym with rfl | rfl <;> exact ⟨by decide, by decide, by decide⟩
  have hj : j.Ready := Job.ready_ofString (c := 'f') (by decide) (by decide) "a.py" "python"
  obtain ⟨chunks, hchunks, -⟩ := Job.chunkSymbols_spec hj [] hplaced
  obtain ⟨o, ho, htold⟩ := (chunk_ids_distinct_iff settings "a.py" content).2 "python" symbols [] chunks hchunks
  have htop : Layout.outermost symbols j.source.lineCount = symbols := by
    rw [hlines, Layout.outermost, List.mergeSort_of_pairwise]
    · decide +kernel
    · decide +kernel
  have houtline : j.symbolsOutline symbols [] =
      .ok { owns := ["__file__", "f"], series := [("f:part", 1), ("__module__", 0)] } := by
    unfold Job.symbolsOutline
    simp only [htop]
    decide +kernel
  have hdistinct : o.Distinct := by
    rw [houtline] at ho
    cases ho
    decide +kernel
  exact ⟨chunks, hchunks, htold.nodup_iff.mpr hdistinct, fun vector payload =>
    (htold.stored_iff .cosine "c" 2 vector payload).mpr hdistinct⟩

/-- Two documents with one key: both are the section of that key, and have one id. -/
theorem repeated_section_shares_id :
    let r := Registry.register .empty
      { name := "yaml", displayName := "YAML", extensions := [".yaml"], isConfig := true } [] []
    ∃ chunks, chunkFile r { parse := fun _ _ => none } {} "k.yaml" none none "kind: A\n---\nkind: B\n" = .ok chunks ∧
      chunks.map (·.id) = ["k.yaml:__file__", "k.yaml:section:kind", "k.yaml:section:kind"] := by
  intro r
  have hids : (chunkFile r { parse := fun _ _ => none } {} "k.yaml" none none "kind: A\n---\nkind: B\n").toOption.map
      (·.map (·.id)) = some ["k.yaml:__file__", "k.yaml:section:kind", "k.yaml:section:kind"] := by
    decide +kernel
  cases hchunks : chunkFile r { parse := fun _ _ => none } {} "k.yaml" none none "kind: A\n---\nkind: B\n" with
  | error fault =>
    rw [hchunks] at hids
    cases hids
  | ok chunks =>
    rw [hchunks] at hids
    exact ⟨chunks, rfl, Option.some.inj hids⟩

end CodeIndex
