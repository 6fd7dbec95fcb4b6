import CodeIndex.Proofs.Graph.Linking

/-!
# What a pass leaves behind

`Indexed` compares the graph after a pass with the one before. Files that were replaced have what they give
now, with links by the names of the final graph; the others keep their nodes, and their edges into replaced
files are those of `Moved`.
-/

namespace CodeIndex.Graph

/-! ## The files of a pass -/

/-- What the file under a path gives, if there is one and it is text. -/
def graphOf (rd : Reader) (files : Dict Candidate) (path : String) : Option FileGraph :=
  (files.lookup path).bind (FileGraph.of? rd)

/-- The time that a file is marked with once it was indexed. -/
def timeOf (rd : Reader) (files : Dict Candidate) (path : String) : Option Double :=
  (files.lookup path).bind fun c => (FileGraph.of? rd c).map fun _ => c.mtime

/-- Files by their paths, which are proper. A root that is a file is the only one. -/
structure Filed (files : Dict Candidate) : Prop where
  nodup : (files.map (·.1)).Nodup
  path : ∀ {p c}, files.lookup p = some c → c.path = p
  proper : ∀ {p c}, files.lookup p = some c → ProperPath p
  root : (files.lookup "").isSome → ∀ {p}, (files.lookup p).isSome → p = ""

section Files

variable {rd : Reader} {files : Dict Candidate} {paths : List String} {p : String}

theorem graphOf_eq_some {f : FileGraph} :
    graphOf rd files p = some f ↔ ∃ c, files.lookup p = some c ∧ FileGraph.of? rd c = some f :=
  Option.bind_eq_some_iff

theorem Filed.path_graphOf (h : Filed files) {f : FileGraph} (hf : graphOf rd files p = some f) :
    f.path = p ∧ ProperPath p := by
  obtain ⟨c, hc, hof⟩ := graphOf_eq_some.mp hf
  exact ⟨(FileGraph.path_of? hof).trans (h.path hc), h.proper hc⟩

theorem Filed.find?_filterMap (h : Filed files) (paths : List String) (p : String) :
    (paths.filterMap fun path => files.lookup path).find? (·.path = p) =
      if p ∈ paths then files.lookup p else none := by
  induction paths with
  | nil => rfl
  | cons q rest ih =>
    rw [List.filterMap_cons]
    cases hq : files.lookup q with
    | none =>
      simp only [ih, List.mem_cons]
      by_cases hp : p = q
      · subst hp
        simp [hq]
      · simp [hp]
    | some c =>
      simp only [List.find?_cons, h.path hq, ih, List.mem_cons]
      by_cases hp : p = q
      · subst hp
        simp [hq]
      · simp [hp, Ne.symm hp]

theorem Filed.map_path_filterMap (h : Filed files) (hpaths : ∀ p ∈ paths, (files.lookup p).isSome) :
    (paths.filterMap fun path => files.lookup path).map (·.path) = paths := by
  induction paths with
  | nil => rfl
  | cons q rest ih =>
    obtain ⟨c, hc⟩ := Option.isSome_iff_exists.mp (hpaths q List.mem_cons_self)
    have hrest := ih fun p hp => hpaths p (List.mem_cons_of_mem q hp)
    simp only [List.filterMap_cons, hc, List.map_cons, h.path hc, hrest]

theorem nodup_found {cs : List Candidate} (hnodup : (cs.map (·.path)).Nodup) :
    ((cs.filterMap fun c => (FileGraph.of? rd c).map (c, ·)).map (·.1.path)).Nodup := by
  rw [List.Nodup, List.pairwise_map, List.pairwise_filterMap]
  refine (List.pairwise_map.mp hnodup).imp fun {a b} hne x hx y hy => ?_
  obtain ⟨f, -, rfl⟩ := Option.map_eq_some_iff.mp hx
  obtain ⟨g, -, rfl⟩ := Option.map_eq_some_iff.mp hy
  exact hne

/-- The entries that were found, by path. -/
theorem find?_found {cs : List Candidate} (hnodup : (cs.map (·.path)).Nodup) (p : String) :
    (cs.filterMap fun c => (FileGraph.of? rd c).map (c, ·)).find? (·.1.path = p) =
      (cs.find? (·.path = p)).bind fun c => (FileGraph.of? rd c).map (c, ·) := by
  induction cs with
  | nil => rfl
  | cons c cs ih =>
    obtain ⟨hc, hrest⟩ := List.nodup_cons.mp hnodup
    rw [List.filterMap_cons, List.find?_cons]
    by_cases hp : c.path = p
    · have hnone : cs.find? (·.path = p) = none := find?_key_eq_none (hp ▸ hc)
      cases hof : FileGraph.of? rd c with
      | none => simp [hp, hof, ih hrest, hnone]
      | some f => simp [hp, hof]
    · cases hof : FileGraph.of? rd c <;> simp [hp, ih hrest]

end Files

section Stores

open LawfulStore

variable {σ : Type} [Store σ]

/-- The files that a pass replaces. -/
def staleFiles (s : σ) (force : Bool) (files : Dict Candidate) : List String :=
  if force then files.map (·.1)
  else Store.stale s (files.map fun (path, c) => (path, c.mtime))

/-- The files that a pass removes. -/
def vanishedFiles (s : σ) (files : Dict Candidate) : List String :=
  (Store.indexedFiles s).filter fun path => (files.lookup path).isNone

variable {s : σ} {force : Bool} {files : Dict Candidate} {p : String}

theorem nodup_staleFiles (hnodup : (files.map (·.1)).Nodup) : (staleFiles s force files).Nodup := by
  unfold staleFiles
  split
  · exact hnodup
  · refine (List.mergeSort_perm _ _).nodup_iff.mpr ((List.filter_sublist.map _).nodup ?_)
    rw [List.map_map]
    exact hnodup

variable [LawfulStore σ]

theorem mem_vanishedFiles (h : Valid s) :
    p ∈ vanishedFiles s files ↔ ((view s).time? p).isSome ∧ files.lookup p = none := by
  simp [vanishedFiles, mem_indexedFiles h]

/-- Stale are, without force, the files that have no time or an earlier one. -/
theorem mem_staleFiles (h : Valid s) (hfiles : Filed files) :
    p ∈ staleFiles s force files ↔ ∃ c, files.lookup p = some c ∧
      (force = true ∨ ∀ t, (view s).time? p = some t → t.lt c.mtime = true) := by
  have hmem : ∀ c, (p, c) ∈ files ↔ files.lookup p = some c := fun c =>
    ⟨Dict.lookup_of_mem hfiles.nodup, Dict.mem_of_lookup⟩
  cases force with
  | true => simp [staleFiles, hmem]
  | false =>
    have htime : ∀ c : Candidate, (Store.mtime? s p).all (·.lt c.mtime) = true ↔
        ∀ t, (view s).time? p = some t → t.lt c.mtime = true := by
      intro c
      rw [mtime?_eq h]
      cases (view s).time? p <;> simp
    rw [staleFiles, if_neg (by decide), Store.stale, List.mem_mergeSort]
    simp only [List.mem_map, List.mem_filter, Bool.false_eq_true, false_or]
    constructor
    · rintro ⟨_, ⟨⟨⟨q, c⟩, hc, rfl⟩, ht⟩, rfl⟩
      exact ⟨c, (hmem c).mp hc, (htime c).mp ht⟩
    · rintro ⟨c, hc, ht⟩
      exact ⟨_, ⟨⟨(p, c), (hmem c).mpr hc, rfl⟩, (htime c).mpr ht⟩, rfl⟩

end Stores

/-! ## Before and after -/

/-- The edge takes the place of one into a file that was replaced: it ends where the name of the old target
leads now. -/
def Moved (v : View) (gone : List String) (ρ : String → Option String) (e : Edge) : Prop :=
  ∃ e₀ n t, v.edge? e₀.key = some e₀ ∧ homeOf e₀.source ∉ gone ∧ homeOf e₀.target ∈ gone ∧
    v.node? e₀.target = some n ∧ endOf (ρ n.name) e₀.kind n.name = some t ∧ e = { e₀ with target := t.1 }

/-- From `v` to `w` the files `gone` were replaced by what `files` has under their paths; `moved` are the edges
between them and other files. -/
structure Indexed (rd : Reader) (files : Dict Candidate) (gone : List String) (ρ : String → Option String)
    (moved : List Edge) (v w : View) : Prop where
  wf : w.WellFormed
  proper : ∀ p ∈ gone, ProperPath p
  node : ∀ id, homeOf id ≠ nowhere → w.node? id =
    if homeOf id ∈ gone then (graphOf rd files (homeOf id)).bind (latest Node.id ·.nodes id) else v.node? id
  edge : ∀ k, w.edge? k =
    if homeOf k.source ∈ gone then
      (graphOf rd files (homeOf k.source)).bind fun f => latest Edge.key (f.edges ++ f.linkEdges ρ) k
    else (latest Edge.key moved k).or (if homeOf k.target ∈ gone then none else v.edge? k)
  time : ∀ p, w.time? p = if p ∈ gone then timeOf rd files p else v.time? p
  mem_moved : ∀ e, e ∈ moved ↔ Moved v gone ρ e
  names : ∀ name id, ρ name = some id ↔ w.Only name id

/-- What a pass finds of a root that is a file: it is alone, and where it comes or goes, all edges start in files that
have a time, so that they go before. -/
structure View.Rooted (v : View) (files : Dict Candidate) : Prop where
  proper : ∀ p, (v.time? p).isSome → ProperPath p
  alone : (v.time? "").isSome → ∀ p, (v.time? p).isSome → p = ""
  source : (v.time? "").isSome ∨ (files.lookup "").isSome →
    ∀ k e, v.edge? k = some e → (v.time? (homeOf k.source)).isSome

/-- Symbols that are named as if they lay outside hang below something in their file. -/
def View.Held (v : View) : Prop :=
  ∀ {id n}, v.node? id = some n → homeOf id ≠ nowhere → n.kind ∈ [moduleKind, externalType] →
    ∃ k, (v.edge? k).isSome ∧ k.target = id ∧ homeOf k.source = homeOf id

/-- Pruning takes nothing that belongs to a file. -/
theorem View.Held.node?_prune {v : View} (h : v.Held) {id : String} (hid : homeOf id ≠ nowhere) :
    (v.prune [moduleKind, externalType]).node? id = v.node? id := by
  ext n
  rw [View.node?_prune, and_iff_left_iff_imp]
  intro hn
  by_cases hkind : n.kind ∈ [moduleKind, externalType]
  · obtain ⟨k, hk, htarget, -⟩ := h hn hid hkind
    exact .inr ⟨k, hk, .inr htarget⟩
  · exact .inl hkind

namespace Indexed

variable {rd : Reader} {files : Dict Candidate} {gone : List String} {ρ : String → Option String}
  {moved : List Edge} {v w : View}

theorem held (h : Indexed rd files gone ρ moved v w) (hfiles : Filed files) (hv : v.Held) : w.Held := by
  intro id n hn hid hkind
  rw [h.node id hid] at hn
  split at hn
  · next hgone =>
    obtain ⟨f, hf, hlatest⟩ := Option.bind_eq_some_iff.mp hn
    obtain ⟨hpath, hproper⟩ := hfiles.path_graphOf hf
    obtain rfl := key_of_latest hlatest
    obtain ⟨e, he, htarget⟩ := FileGraph.exists_edge_of_mem (mem_of_latest hlatest) hkind
    have hsource : homeOf e.source = homeOf n.id :=
      ((FileGraph.structural_of_mem he).source.homeOf (hpath ▸ hproper)).trans hpath
    refine ⟨e.key, ?_, htarget, hsource⟩
    rw [h.edge, if_pos (show homeOf e.key.source ∈ gone from hsource ▸ hgone),
      show homeOf e.key.source = homeOf n.id from hsource, hf]
    exact isSome_latest (List.mem_append_left _ he)
  · next hgone =>
    obtain ⟨k, hk, htarget, hsource⟩ := hv hn hid hkind
    refine ⟨k, ?_, htarget, hsource⟩
    rw [h.edge, if_neg (hsource ▸ hgone), if_neg (htarget ▸ hgone)]
    simp [hk]

theorem prune (h : Indexed rd files gone ρ moved v w) (hw : w.Held) :
    Indexed rd files gone ρ moved v (w.prune [moduleKind, externalType]) where
  wf := h.wf.prune _
  proper := h.proper
  node id hid := (hw.node?_prune hid).trans (h.node id hid)
  edge := h.edge
  time := h.time
  mem_moved := h.mem_moved
  names name id := by
    rw [h.names]
    refine View.only_congr (fun id hid => ?_) name id
    by_cases hhome : homeOf id = nowhere
    · simp [View.prune, h.wf.node?_eq_none hid hhome]
    · exact (hw.node?_prune hhome).symm

/-- The two halves of a pass together. -/
theorem of_extends {written : String → Option FileGraph} {detached : List Detached} {links : List Edge}
    {w₀ : View} (hcleared : Cleared v gone written detached w₀) (hproper : ∀ p ∈ gone, ProperPath p)
    (hwritten : ∀ p ∈ gone, written p = graphOf rd files p) (hextends : w₀.Extends w (links ++ moved))
    (hlinks : ∀ k, latest Edge.key links k = if homeOf k.source ∈ gone then
      (graphOf rd files (homeOf k.source)).bind fun f => latest Edge.key (f.linkEdges ρ) k else none)
    (htime : ∀ p, w.time? p = if p ∈ gone then timeOf rd files p else v.time? p)
    (hmoved : ∀ e, e ∈ moved ↔ Moved v gone ρ e) (hnames : ∀ name id, ρ name = some id ↔ w.Only name id) :
    Indexed rd files gone ρ moved v w where
  wf := hextends.wf
  proper := hproper
  node id hid := by
    rw [hextends.node (.inr hid), hcleared.node id hid]
    split
    · next hgone => rw [hwritten _ hgone]
    · rfl
  edge k := by
    rw [hextends.edge, latest_append, Option.or_assoc, hlinks, hcleared.edge]
    split
    · next hgone =>
      have hnone : latest Edge.key moved k = none := by
        refine latest_eq_none_iff.mpr fun e he hkey => ?_
        obtain ⟨e₀, n, t, -, hsource, -, -, -, rfl⟩ := (hmoved e).mp he
        obtain rfl := hkey
        exact hsource hgone
      rw [hnone, Option.none_or, hwritten _ hgone]
      cases graphOf rd files (homeOf k.source) with
      | none => rfl
      | some f => simp only [Option.bind_some, latest_append]
    · rw [Option.none_or]
  time := htime
  mem_moved := hmoved
  names := hnames

end Indexed

/-! ## A whole pass -/

section Pass

open LawfulStore

variable {σ : Type} [Store σ] {s : σ} {rd : Reader} {force : Bool} {files : Dict Candidate}

def staleCandidates (s : σ) (force : Bool) (files : Dict Candidate) : List Candidate :=
  (staleFiles s force files).filterMap fun path => files.lookup path

/-- The first half of a pass from its start. -/
def clearing (rd : Reader) (force : Bool) (files : Dict Candidate) (start : Pass σ) :
    Pass σ × List (Candidate × FileGraph) :=
  (staleCandidates start.store force files).foldl (Pass.replace rd none)
    ((vanishedFiles start.store files).foldl Pass.vanish start, [])

/-- The second half, up to the edges that were set aside. -/
def linking (replaced : List String) (cleared : Pass σ × List (Candidate × FileGraph)) : Pass σ :=
  let p := cleared.2.foldl Pass.relate cleared.1
  p.writeResolved (reattached p.store replaced p.detached p.memo)

theorem exists_index_store_of_hover (rd : Reader) (hover : Option HoverSource) (force : Bool)
    (files : Dict Candidate) (asked : List HoverCall) (s : σ) :
    ∃ start : Pass σ, start.store = s ∧ start.detached = [] ∧ start.memo = [] ∧
      (index rd hover force files asked s).store = Store.prune [moduleKind, externalType]
        (linking (staleFiles s force files ++ vanishedFiles s files)
          ((staleCandidates s force files).foldl (Pass.replace rd hover)
            ((vanishedFiles s files).foldl Pass.vanish start, []))).store :=
  ⟨_, rfl, rfl, rfl, rfl⟩

theorem exists_index_store (rd : Reader) (force : Bool) (files : Dict Candidate) (asked : List HoverCall) (s : σ) :
    ∃ start : Pass σ, start.store = s ∧ start.detached = [] ∧ start.memo = [] ∧
      (index rd none force files asked s).store = Store.prune [moduleKind, externalType]
        (linking (staleFiles s force files ++ vanishedFiles s files) (clearing rd force files start)).store := by
  obtain ⟨start, rfl, hdetached, hmemo, hstore⟩ := exists_index_store_of_hover rd none force files asked s
  exact ⟨start, rfl, hdetached, hmemo, hstore⟩

variable [LawfulStore σ]

theorem map_path_staleCandidates (h : Valid s) (hfiles : Filed files) :
    (staleCandidates s force files).map (·.path) = staleFiles s force files := by
  refine hfiles.map_path_filterMap fun p hp => ?_
  obtain ⟨c, hc, -⟩ := (mem_staleFiles h hfiles).mp hp
  rw [hc]
  rfl

theorem nodup_replaced (h : Valid s) (hfiles : Filed files) :
    (vanishedFiles s files ++ staleFiles s force files).Nodup := by
  refine List.nodup_append.mpr ⟨(nodup_indexedFiles h).filter _, nodup_staleFiles hfiles.nodup, ?_⟩
  rintro p hp _ hstale rfl
  obtain ⟨c, hc, -⟩ := (mem_staleFiles h hfiles).mp hstale
  rw [((mem_vanishedFiles h).mp hp).2] at hc
  cases hc

/-- Where the root was a file, it was alone, and all edges start in it. -/
theorem View.Rooted.source_eq_root {v : View} (h : v.Rooted files) (htime : (v.time? "").isSome) {k : EdgeKey}
    {e : Edge} (he : v.edge? k = some e) : homeOf k.source = "" :=
  h.alone htime _ (h.source (.inl htime) k e he)

/-- Where the root is a file now, edges start in it or in files that are gone. -/
theorem View.Rooted.source_vanished (hroot : (view s).Rooted files) (h : Valid s) (hfiles : Filed files)
    (hfound : (files.lookup "").isSome) {k : EdgeKey} {e : Edge} (he : (view s).edge? k = some e) :
    homeOf k.source ∈ vanishedFiles s files ∨ homeOf k.source = "" := by
  have htime := hroot.source (.inr hfound) k e he
  cases hlookup : files.lookup (homeOf k.source) with
  | none => exact .inl ((mem_vanishedFiles h).mpr ⟨htime, hlookup⟩)
  | some c => exact .inr (hfiles.root hfound (by rw [hlookup]; rfl))

/-- So it is all that is left once those were removed. -/
theorem Pass.Clears.rootLast {p : Pass σ} (hp : p.Clears (view s) (vanishedFiles s files) (writtenBy rd []))
    (hroot : (view s).Rooted files) (h : Valid s) (hfiles : Filed files) (hfound : (files.lookup "").isSome) :
    (view p.store).RootLast "" := by
  intro _ k e he
  rw [hp.cleared.edge] at he
  split at he
  · cases he
  · next hkept =>
    split at he
    · cases he
    · exact (hroot.source_vanished h hfiles hfound he).resolve_left hkept

theorem clearing_spec {start : Pass σ} (h : Valid start.store) (hwf : (view start.store).WellFormed)
    (hfiles : Filed files) (hroot : (view start.store).Rooted files)
    (hdetached : start.detached = []) (hmemo : start.memo = []) :
    (clearing rd force files start).1.Clears (view start.store)
        (vanishedFiles start.store files ++ staleFiles start.store force files)
        (writtenBy rd (staleCandidates start.store force files)) ∧
      (clearing rd force files start).2 =
        (staleCandidates start.store force files).filterMap fun c => (FileGraph.of? rd c).map (c, ·) := by
  have hstart : start.Clears (view start.store) [] (writtenBy rd []) :=
    ⟨h, hdetached ▸ Cleared.nil hwf, hmemo⟩
  have hnames : ∀ p ∈ vanishedFiles start.store files, ProperPath p := fun p hp =>
    hroot.proper p ((mem_vanishedFiles h).mp hp).1
  have hgone : "" ∈ vanishedFiles start.store files →
      (∀ p ∈ vanishedFiles start.store files, p = "") ∧ (view start.store).RootLast "" := by
    intro hmem
    have htime := ((mem_vanishedFiles h).mp hmem).1
    exact ⟨fun p hp => hroot.alone htime p ((mem_vanishedFiles h).mp hp).1,
      fun _ k e he => hroot.source_eq_root htime he⟩
  have hvanished := hstart.vanish hnames hgone ((nodup_indexedFiles h).filter _) (fun _ _ => List.not_mem_nil)
  have hpaths : (staleCandidates start.store force files).map (·.path) = staleFiles start.store force files :=
    map_path_staleCandidates h hfiles
  have hproper : ∀ c ∈ staleCandidates start.store force files, ProperPath c.path := by
    intro c hc
    obtain ⟨p, -, hp⟩ := List.mem_filterMap.mp hc
    exact hfiles.path hp ▸ hfiles.proper hp
  have hstale : "" ∈ (staleCandidates start.store force files).map (·.path) →
      (∀ c ∈ staleCandidates start.store force files, c.path = "") ∧
        (view ((vanishedFiles start.store files).foldl Pass.vanish start).store).RootLast "" := by
    intro hmem
    rw [hpaths] at hmem
    obtain ⟨c, hc, -⟩ := (mem_staleFiles h hfiles).mp hmem
    have hfound : (files.lookup "").isSome := by rw [hc]; rfl
    refine ⟨fun c' hc' => ?_, hvanished.rootLast hroot h hfiles hfound⟩
    obtain ⟨p, -, hp⟩ := List.mem_filterMap.mp hc'
    rw [hfiles.path hp]
    exact hfiles.root hfound (by rw [hp]; rfl)
  have hreplaced := @Pass.Clears.replaceAll _ _ _ _ _ rd [] (staleCandidates start.store force files)
    (vanishedFiles start.store files) (by simpa using hvanished) hproper hstale
    (by simpa [hpaths] using nodup_replaced h hfiles)
  simpa [clearing, hpaths] using hreplaced

theorem nodup_paths_staleCandidates (h : Valid s) (hfiles : Filed files) :
    ((staleCandidates s force files).map (·.path)).Nodup := by
  rw [map_path_staleCandidates h hfiles]
  exact nodup_staleFiles hfiles.nodup

/-- The links of the files that were found, by the file of their source. -/
theorem latest_links (h : Valid s) (hfiles : Filed files) (ρ : String → Option String) (k : EdgeKey) :
    latest Edge.key (((staleCandidates s force files).filterMap fun c =>
        (FileGraph.of? rd c).map (c, ·)).flatMap (·.2.linkEdges ρ)) k =
      if homeOf k.source ∈ vanishedFiles s files ++ staleFiles s force files then
        (graphOf rd files (homeOf k.source)).bind fun f => latest Edge.key (f.linkEdges ρ) k
      else none := by
  have hcs : ((staleCandidates s force files).map (·.path)).Nodup := nodup_paths_staleCandidates h hfiles
  have hhome : ∀ entry ∈ (staleCandidates s force files).filterMap fun c => (FileGraph.of? rd c).map (c, ·),
      ∀ e ∈ entry.2.linkEdges ρ, homeOf e.key.source = entry.1.path := by
    intro entry hentry e he
    obtain ⟨c, hc, hof⟩ := List.mem_filterMap.mp hentry
    obtain ⟨f, hf, rfl⟩ := Option.map_eq_some_iff.mp hof
    obtain ⟨p, -, hp⟩ := List.mem_filterMap.mp hc
    obtain ⟨l, -, -, howns⟩ := FileGraph.source_of_mem_linkEdges he
    have hpath := FileGraph.path_of? hf
    exact (howns.homeOf (by rw [hpath, hfiles.path hp]; exact hfiles.proper hp)).trans hpath
  rw [latest_flatMap (homeOf ·.source) (nodup_found hcs) hhome, find?_found hcs,
    staleCandidates, hfiles.find?_filterMap]
  simp only [List.mem_append, mem_vanishedFiles h]
  by_cases hstale : homeOf k.source ∈ staleFiles s force files
  · simp only [hstale, if_true, or_true, graphOf, Option.bind_assoc, Option.bind_map]
    rfl
  · simp only [hstale, if_false, or_false, Option.bind_none]
    split
    · next hgone => rw [graphOf, hgone.2]; rfl
    · rfl

theorem writtenBy_staleCandidates (h : Valid s) (hfiles : Filed files) {p : String}
    (hp : p ∈ vanishedFiles s files ++ staleFiles s force files) :
    writtenBy rd (staleCandidates s force files) p = graphOf rd files p := by
  rw [writtenBy, staleCandidates, hfiles.find?_filterMap, graphOf]
  split
  · rfl
  · next hstale =>
    have hvanished := (List.mem_append.mp hp).resolve_right hstale
    rw [((mem_vanishedFiles h).mp hvanished).2]

/-- The times of the files that were found. -/
theorem latest_times (h : Valid s) (hfiles : Filed files) (p : String) :
    (latest (·.1.path) ((staleCandidates s force files).filterMap fun c => (FileGraph.of? rd c).map (c, ·)) p).map
        (fun entry => entry.1.mtime) =
      if p ∈ vanishedFiles s files ++ staleFiles s force files then timeOf rd files p else none := by
  have hcs : ((staleCandidates s force files).map (·.path)).Nodup := nodup_paths_staleCandidates h hfiles
  rw [latest_eq_find? (nodup_found hcs), find?_found hcs, staleCandidates, hfiles.find?_filterMap]
  simp only [List.mem_append, mem_vanishedFiles h]
  by_cases hstale : p ∈ staleFiles s force files
  · simp only [hstale, if_true, or_true, timeOf, Option.map_bind, Function.comp_def, Option.map_map]
  · simp only [hstale, if_false, or_false, Option.bind_none, Option.map_none]
    split
    · next hgone => rw [timeOf, hgone.2]; rfl
    · rfl

/-- The edges that were set aside and start in a file that was not replaced are moved. -/
theorem mem_reattached {v w₀ : View} {gone replaced : List String} {written : String → Option FileGraph}
    {detached : List Detached} {es : List Edge} (hv : v.WellFormed) (hcleared : Cleared v gone written detached w₀)
    (hextends : w₀.Extends (view s) es) (h : Valid s) (hreplaced : ∀ p, p ∈ replaced ↔ p ∈ gone)
    (ρ : String → Option String) (e : Edge) :
    e ∈ detached.filterMap (reattachedEdge s replaced ρ) ↔ Moved v gone ρ e := by
  simp only [List.mem_filterMap, reattachedEdge, node?_eq h, Option.bind_eq_some_iff, List.contains_eq_mem,
    hreplaced, decide_eq_true_eq]
  constructor
  · rintro ⟨d, hd, source, hsource, he⟩
    split at he
    · cases he
    · next hfile =>
      obtain ⟨t, ht, rfl⟩ := Option.map_eq_some_iff.mp he
      obtain ⟨hedge, htarget, n, hn, hname⟩ := hcleared.sound d hd
      exact ⟨d.edge, n, t, hedge, hextends.wf.home hsource (hv.inside hedge) ▸ hfile, htarget, hn, hname ▸ ht, rfl⟩
  · rintro ⟨e₀, n, t, hedge, hsource, htarget, hn, ht, rfl⟩
    have hkept : (view s).node? e₀.source = v.node? e₀.source := by
      have hinside : homeOf e₀.source ≠ nowhere := hv.inside hedge
      rw [hextends.node (.inr hinside), hcleared.node _ hinside, if_neg hsource]
    obtain ⟨source, hnode⟩ := Option.isSome_iff_exists.mp (hv.source hedge)
    have hnode : (view s).node? e₀.source = some source := hkept.trans hnode
    refine ⟨⟨e₀, n.name⟩, hcleared.complete hedge hsource htarget hn, source, hnode, ?_⟩
    rw [if_neg (hextends.wf.home hnode (hv.inside hedge) ▸ hsource), ht]
    rfl

/-- Once the files were related, the edges that were set aside find their ends. -/
theorem Pass.Relates.reattached {p₀ p : Pass σ} {done : List (Candidate × FileGraph)} (h : p₀.Relates p done)
    {v : View} {gone : List String} {written : String → Option FileGraph} (hv : v.WellFormed)
    (hclears : p₀.Clears v gone written) (replaced : List String) :
    let r := (Graph.reattached p.store replaced p.detached p.memo).1
    r.edges = p₀.detached.filterMap (reattachedEdge p.store replaced (resolve p₀.store)) ∧
      r.Sound fun id => ∃ name, resolve p₀.store name = some id := by
  have hρ : ∀ name, resolve p.store name = resolve p₀.store name := h.extended.resolve_eq hclears.valid h.valid
  have hweights : ∀ d ∈ p.detached, d.edge.weight = none := fun d hd =>
    hv.weight (hclears.cleared.sound d (h.detached ▸ hd)).1
  obtain ⟨hedges, hsound, -⟩ := reattached_spec hρ h.memo replaced hweights
  exact ⟨h.detached ▸ hedges, hsound⟩

theorem linking_spec {cleared : Pass σ × List (Candidate × FileGraph)} {v : View} {gone replaced : List String}
    {written : String → Option FileGraph} (hv : v.WellFormed) (hclears : cleared.1.Clears v gone written)
    (hfound : ∀ entry ∈ cleared.2, ProperPath entry.2.path ∧
      ∀ id, entry.2.Owns id → ((view cleared.1.store).node? id).isSome)
    (hreplaced : ∀ p, p ∈ replaced ↔ p ∈ gone) :
    Valid (linking replaced cleared).store ∧ ∃ moved,
      (view cleared.1.store).Extends (view (linking replaced cleared).store)
        (cleared.2.flatMap (·.2.linkEdges (resolve cleared.1.store)) ++ moved) ∧
      (∀ e, e ∈ moved ↔ Moved v gone (resolve cleared.1.store) e) ∧
      ∀ p, (view (linking replaced cleared).store).time? p =
        ((latest (·.1.path) cleared.2 p).map fun entry => entry.1.mtime).or
          ((view cleared.1.store).time? p) := by
  have hstart : cleared.1.Relates cleared.1 [] :=
    ⟨hclears.valid, .refl hclears.cleared.wf, hclears.memo ▸ MemoSound.nil _, rfl, fun _ => rfl⟩
  have hrelates := hstart.foldl hclears.valid hfound
  unfold linking
  set p := cleared.2.foldl Pass.relate cleared.1
  have hρ : ∀ name, resolve p.store name = resolve cleared.1.store name :=
    hrelates.extended.resolve_eq hclears.valid hrelates.valid
  obtain ⟨hedges, hsound⟩ := hrelates.reattached hv hclears replaced
  have hmoved : ∀ e, e ∈ (reattached p.store replaced p.detached p.memo).1.edges ↔
      Moved v gone (resolve cleared.1.store) e := by
    intro e
    rw [hedges]
    exact mem_reattached hv hclears.cleared hrelates.extended hrelates.valid hreplaced _ e
  have hsources : ∀ e ∈ (reattached p.store replaced p.detached p.memo).1.edges,
      ((view p.store).node? e.source).isSome ∧ homeOf e.source ≠ nowhere := by
    intro e he
    obtain ⟨e₀, n, t, hedge, hsource, -, -, -, rfl⟩ := (hmoved e).mp he
    have hinside : homeOf e₀.source ≠ nowhere := hv.inside hedge
    refine ⟨?_, hinside⟩
    rw [hrelates.extended.node (.inr hinside), hclears.cleared.node _ hinside, if_neg hsource]
    exact hv.source hedge
  obtain ⟨hvalid, hextends, htime⟩ := Pass.writeResolved_spec hrelates.valid hrelates.extended.wf
    (reattached p.store replaced p.detached p.memo).2 hsound
    (fun id ⟨name, hname⟩ => isSome_of_resolve hrelates.valid ((hρ name).trans hname)) hsources
  refine ⟨hvalid, _, hrelates.extended.trans hextends, hmoved, fun q => ?_⟩
  exact (congrFun htime q).trans (hrelates.time q)

theorem replaced_proper (h : Valid s) (hfiles : Filed files) (hroot : (view s).Rooted files) :
    ∀ p ∈ vanishedFiles s files ++ staleFiles s force files, ProperPath p := by
  intro p hp
  rcases List.mem_append.mp hp with hp | hp
  · exact hroot.proper p ((mem_vanishedFiles h).mp hp).1
  · obtain ⟨c, hc, -⟩ := (mem_staleFiles h hfiles).mp hp
    exact hfiles.proper hc

section Start

variable {start : Pass σ} (h : Valid start.store) (hwf : (view start.store).WellFormed) (hfiles : Filed files)
  (hroot : (view start.store).Rooted files) (hdetached : start.detached = []) (hmemo : start.memo = [])
include h hwf hfiles hroot hdetached hmemo

/-- Every file that was found is one of those, and has its nodes. -/
theorem clearing_found : ∀ entry ∈ (clearing rd force files start).2,
    entry.1.path ∈ staleFiles start.store force files ∧ files.lookup entry.1.path = some entry.1 ∧
      FileGraph.of? rd entry.1 = some entry.2 ∧ ProperPath entry.2.path ∧
      ∀ id, entry.2.Owns id → ((view (clearing rd force files start).1.store).node? id).isSome := by
  obtain ⟨hclears, hfound⟩ := @clearing_spec _ _ rd force files _ start h hwf hfiles hroot hdetached hmemo
  intro entry hentry
  rw [hfound] at hentry
  obtain ⟨c, hc, hof⟩ := List.mem_filterMap.mp hentry
  obtain ⟨f, hf, rfl⟩ := Option.map_eq_some_iff.mp hof
  obtain ⟨p, hp, hlookup⟩ := List.mem_filterMap.mp hc
  obtain rfl := hfiles.path hlookup
  have hpath := FileGraph.path_of? hf
  have hmem : c.path ∈ vanishedFiles start.store files ++ staleFiles start.store force files :=
    List.mem_append_right _ hp
  refine ⟨hp, hlookup, hf, hpath ▸ hfiles.proper hlookup, fun id hid => ?_⟩
  have hhome := (hid.homeOf (hpath ▸ hfiles.proper hlookup)).trans hpath
  obtain ⟨n, hn, rfl, -⟩ := hid.exists_node
  rw [hclears.cleared.node _ (hhome ▸ (hfiles.proper hlookup).ne_nowhere), if_pos (hhome ▸ hmem), hhome,
    writtenBy_staleCandidates h hfiles hmem, graphOf_eq_some.mpr ⟨c, hlookup, hf⟩]
  exact isSome_latest hn

/-- The graph before a pass and before it is pruned. -/
theorem linking_indexed :
    let cleared := clearing rd force files start
    let linked := linking (staleFiles start.store force files ++ vanishedFiles start.store files) cleared
    Valid linked.store ∧ ∃ moved, Indexed rd files
      (vanishedFiles start.store files ++ staleFiles start.store force files) (resolve cleared.1.store) moved
      (view start.store) (view linked.store) := by
  intro cleared linked
  obtain ⟨hclears, hfound⟩ := @clearing_spec _ _ rd force files _ start h hwf hfiles hroot hdetached hmemo
  have howns := @clearing_found _ _ rd force files _ start h hwf hfiles hroot hdetached hmemo
  obtain ⟨hvalid, moved, hextends, hmoved, htime⟩ := linking_spec hwf hclears
    (fun entry hentry => (howns entry hentry).2.2.2)
    (fun p => (List.mem_append.trans or_comm).trans List.mem_append.symm)
  refine ⟨hvalid, moved, .of_extends hclears.cleared (replaced_proper h hfiles hroot)
    (fun p hp => writtenBy_staleCandidates h hfiles hp) hextends (fun k => ?_) (fun p => ?_) hmoved fun name id => ?_⟩
  · rw [hfound]
    exact latest_links h hfiles _ k
  · rw [htime, hfound, latest_times h hfiles, hclears.cleared.time]
    split <;> simp
  · rw [← hextends.resolve_eq hclears.valid hvalid, resolve_eq_some_iff hvalid]

end Start

/-- The graph before and after a pass. -/
theorem index_indexed (h : Valid s) (hwf : (view s).WellFormed) (hheld : (view s).Held) (hfiles : Filed files)
    (hroot : (view s).Rooted files) (asked : List HoverCall) :
    let t := (index rd none force files asked s).store
    Valid t ∧ ∃ moved, Indexed rd files (vanishedFiles s files ++ staleFiles s force files) (resolve t) moved
      (view s) (view t) := by
  obtain ⟨start, rfl, hdetached, hmemo, hstore⟩ := exists_index_store rd force files asked s
  rw [hstore]
  obtain ⟨hvalid, moved, hindexed⟩ :=
    @linking_indexed _ _ rd force files _ start h hwf hfiles hroot hdetached hmemo
  set cleared := clearing rd force files start
  set linked := (linking (staleFiles start.store force files ++ vanishedFiles start.store files) cleared).store
  have hpruned := hindexed.prune (hindexed.held hfiles hheld)
  rw [← view_prune hvalid] at hpruned
  have hvalid := valid_prune hvalid [moduleKind, externalType]
  have hρ : resolve (Store.prune [moduleKind, externalType] linked) = resolve cleared.1.store := by
    funext name
    ext id
    rw [resolve_eq_some_iff hvalid, hpruned.names]
  refine ⟨hvalid, moved, ?_⟩
  rw [hρ]
  exact hpruned

end Pass

end CodeIndex.Graph
