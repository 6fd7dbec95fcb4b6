import Mathlib.Data.List.Induction
import CodeIndex.Proofs.Graph.Memory
import CodeIndex.Proofs.Graph.Table
import CodeIndex.Proofs.Graph.Uniform

/-!
# Passes over a changing tree

A graph that was kept up to date by passes has the nodes of the present files, and what a pass replaces is
linked as in a graph that is built anew, as long as other contents of a file come with a later time. `Faithful`
is the invariant: what is there of a path is that of a file which was found there in some pass.
-/

namespace CodeIndex.Graph

/-! ## One pass -/

/-- The nodes and the time of each path are those of a file seen there, and its links to other files go by
names that it does not have itself. A root that is a file is alone. -/
structure Faithful (rd : Reader) (seen : Candidate → Prop) (v : View) : Prop where
  wf : v.WellFormed
  held : v.Held
  uniform : v.Uniform
  alone : (v.time? "").isSome → ∀ p, (v.time? p).isSome → p = ""
  files : ∀ p, (v.time? p = none ∧ (p ≠ nowhere → ∀ id, homeOf id = p → v.node? id = none)) ∨
    ∃ c f, seen c ∧ c.path = p ∧ ProperPath p ∧ FileGraph.of? rd c = some f ∧
      v.time? p = some c.mtime ∧ (∀ id, homeOf id = p → v.node? id = latest Node.id f.nodes id) ∧
      ∀ name id, v.LinksTo p name id → f.onlyNamed? name = none

/-- Of a file seen twice, other contents or another language come with a later time. That there is nothing to read
counts as contents. -/
def Later (c c' : Candidate) : Prop :=
  c.file.read ≠ c'.file.read ∨ c.language ≠ c'.language → c.mtime.lt c'.mtime = true

theorem FileGraph.of?_congr (rd : Reader) {c c' : Candidate} (hpath : c.path = c'.path)
    (hread : c.file.read = c'.file.read) (hlanguage : c.language = c'.language) :
    of? rd c = of? rd c' := by
  unfold of?
  rw [Candidate.text_congr hpath hread, hpath, hlanguage]

section Index

open LawfulStore

variable {σ : Type} [Store σ] [LawfulStore σ] {s : σ} {rd : Reader} {force : Bool} {files : Dict Candidate}
  {seen : Candidate → Prop} {p : String}

theorem Faithful.empty (rd : Reader) (seen : Candidate → Prop) : Faithful rd seen .empty :=
  ⟨View.wellFormed_empty, fun hn => (nomatch hn), View.uniform_empty, fun _ _ hp => (nomatch hp),
    fun _ => .inl ⟨rfl, fun _ _ _ => rfl⟩⟩

theorem Faithful.mono {v : View} {seen' : Candidate → Prop} (h : Faithful rd seen v) (hle : ∀ c, seen c → seen' c) :
    Faithful rd seen' v where
  wf := h.wf
  held := h.held
  uniform := h.uniform
  alone := h.alone
  files p := (h.files p).imp_right fun ⟨c, f, hc, hrest⟩ => ⟨c, f, hle c hc, hrest⟩

theorem Faithful.rooted {v : View} (h : Faithful rd seen v) (files : Dict Candidate) : v.Rooted files where
  proper p hp := by
    rcases h.files p with ⟨hnone, -⟩ | ⟨c, f, -, -, hproper, -⟩
    · rw [hnone] at hp
      cases hp
    · exact hproper
  alone := h.alone
  source _ k e he := by
    rcases h.files (homeOf k.source) with ⟨-, hnone⟩ | ⟨c, f, -, -, -, -, htime, -⟩
    · have hsome := h.wf.source he
      rw [hnone (h.wf.inside he) k.source rfl] at hsome
      cases hsome
    · rw [htime]
      rfl

theorem timeOf_eq_some {c : Candidate} {f : FileGraph} (hc : files.lookup p = some c)
    (hf : FileGraph.of? rd c = some f) : timeOf rd files p = some c.mtime := by
  simp [timeOf, hc, hf]

theorem timeOf_eq_none (h : graphOf rd files p = none) : timeOf rd files p = none := by
  unfold graphOf at h
  unfold timeOf
  cases hc : files.lookup p with
  | none => rfl
  | some c =>
    rw [hc, Option.bind_some] at h
    rw [Option.bind_some, h]
    rfl

/-- A pass on a graph that is faithful. -/
theorem Faithful.index_indexed (h : Valid s) (hs : Faithful rd seen (view s)) (hfiles : Filed files)
    (force : Bool) :
    Valid (Graph.index rd none force files [] s).store ∧ ∃ moved,
      Indexed rd files (vanishedFiles s files ++ staleFiles s force files)
        (resolve (Graph.index rd none force files [] s).store) moved (view s)
        (view (Graph.index rd none force files [] s).store) :=
  Graph.index_indexed h hs.wf hs.held hfiles (hs.rooted files) []

/-- What a pass keeps. -/
theorem Faithful.index {v w : View} {gone : List String} {ρ : String → Option String} {moved : List Edge}
    (hv : Faithful rd seen v) (h : Indexed rd files gone ρ moved v w) (hfiles : Filed files)
    (hgone : ∀ p, (v.time? p).isSome → files.lookup p = none → p ∈ gone) :
    Faithful rd (fun c => seen c ∨ files.lookup c.path = some c) w where
  wf := h.wf
  held := h.held hfiles hv.held
  uniform := h.uniform hv.uniform hfiles
  alone hroot p hp := by
    have hfound : ∀ q, (w.time? q).isSome → (files.lookup q).isSome := by
      intro q hq
      rw [h.time] at hq
      refine Option.isSome_iff_ne_none.mpr fun hnone => ?_
      split at hq
      · simp [timeOf, hnone] at hq
      · next hkept => exact hkept (hgone q hq hnone)
    exact hfiles.root (hfound "" hroot) (hfound p hp)
  files p := by
    by_cases hgone : p ∈ gone
    · have hnode : ∀ id, homeOf id = p → w.node? id = (graphOf rd files p).bind (latest Node.id ·.nodes id) := by
        rintro id rfl
        rw [h.node id (h.proper _ hgone).ne_nowhere, if_pos hgone]
      have htime : w.time? p = timeOf rd files p := by rw [h.time, if_pos hgone]
      cases hgraph : graphOf rd files p with
      | none =>
        refine .inl ⟨htime.trans (timeOf_eq_none hgraph), fun _ id hid => ?_⟩
        rw [hnode id hid, hgraph]
        rfl
      | some f =>
        obtain ⟨c, hc, hf⟩ := graphOf_eq_some.mp hgraph
        have hpath := hfiles.path hc
        refine .inr ⟨c, f, .inr (hpath ▸ hc), hpath, hfiles.proper hc, hf, htime.trans (timeOf_eq_some hc hf),
          fun id hid => ?_, fun name id hlink => ?_⟩
        · rw [hnode id hid, hgraph]
          rfl
        · obtain ⟨-, g, hg, hlocal⟩ := h.resolve_of_linksTo hfiles hgone hlink
          rw [hgraph, Option.some.injEq] at hg
          rwa [hg]
    · have htime : w.time? p = v.time? p := by rw [h.time, if_neg hgone]
      have hnode : p ≠ nowhere → ∀ id, homeOf id = p → w.node? id = v.node? id := by
        rintro hp id rfl
        exact h.node_kept hp hgone
      rcases hv.files p with ⟨hnone, hempty⟩ | ⟨c, f, hc, hpath, hproper, hf, hold, hnodes, hlocal⟩
      · exact .inl ⟨htime.trans hnone, fun hp id hid => (hnode hp id hid).trans (hempty hp id hid)⟩
      · refine .inr ⟨c, f, .inl hc, hpath, hproper, hf, htime.trans hold, fun id hid => ?_, fun name id hlink => ?_⟩
        · exact (hnode hproper.ne_nowhere id hid).trans (hnodes id hid)
        · obtain ⟨id₀, hlink₀, -⟩ := h.linksTo_kept hv.uniform hgone hlink
          exact hlocal name id₀ hlink₀

/-- What is there of a file that is not replaced is that of its present contents. -/
theorem Faithful.graphOf_kept (h : Valid s) (hs : Faithful rd seen (view s)) (hfiles : Filed files)
    (hlater : force = false → ∀ c, seen c → ∀ c', files.lookup c.path = some c' → Later c c')
    (hkept : p ∉ vanishedFiles s files ++ staleFiles s force files) :
    (p ≠ nowhere → ∀ id, homeOf id = p → (view s).node? id = (graphOf rd files p).bind (latest Node.id ·.nodes id)) ∧
      ∀ name id, (view s).LinksTo p name id → ∃ f, graphOf rd files p = some f ∧ f.onlyNamed? name = none := by
  rw [List.mem_append, not_or, mem_vanishedFiles h, mem_staleFiles h hfiles] at hkept
  obtain ⟨hvanished, hstale⟩ := hkept
  rcases hs.files p with ⟨hnone, hempty⟩ | ⟨c, f, hc, rfl, -, hf, htime, hnodes, hlocal⟩
  · have hlookup : files.lookup p = none := by
      by_contra hsome
      obtain ⟨c', hc'⟩ := Option.ne_none_iff_exists'.mp hsome
      exact hstale ⟨c', hc', .inr fun t ht => by rw [hnone] at ht; cases ht⟩
    have hgraph : graphOf rd files p = none := by rw [graphOf, hlookup]; rfl
    refine ⟨fun hp id hid => by rw [hempty hp id hid, hgraph]; rfl, fun name id hlink => ?_⟩
    obtain ⟨k, hk, rfl, -⟩ := hlink.edge
    obtain ⟨e, he⟩ := Option.isSome_iff_exists.mp hk
    have hsome := hs.wf.source he
    rw [hempty (hs.wf.inside he) k.source rfl] at hsome
    cases hsome
  · obtain ⟨c', hc'⟩ : ∃ c', files.lookup c.path = some c' := by
      rw [← Option.isSome_iff_exists, Option.isSome_iff_ne_none]
      exact fun hnone => hvanished ⟨by rw [htime]; rfl, hnone⟩
    have hearlier : ¬c.mtime.lt c'.mtime = true := fun hlt =>
      hstale ⟨c', hc', .inr fun t ht => by rw [htime] at ht; cases ht; exact hlt⟩
    have hforce : force = false := Bool.eq_false_of_not_eq_true fun hforce => hstale ⟨c', hc', .inl hforce⟩
    have hsame := mt (hlater hforce c hc c' hc') hearlier
    simp only [not_or, not_not] at hsame
    have hgraph : graphOf rd files c.path = some f :=
      graphOf_eq_some.mpr ⟨c', hc', FileGraph.of?_congr rd (hfiles.path hc').symm hsame.1 hsame.2 ▸ hf⟩
    exact ⟨fun _ id hid => by rw [hnodes id hid, hgraph]; rfl, fun name id hlink => ⟨f, hgraph, hlocal name id hlink⟩⟩

/-- The nodes of all files are those of their present contents. -/
def Current (rd : Reader) (files : Dict Candidate) (v : View) : Prop :=
  ∀ id, homeOf id ≠ nowhere → v.node? id = (graphOf rd files (homeOf id)).bind (latest Node.id ·.nodes id)

theorem Faithful.current_index (h : Valid s) (hs : Faithful rd seen (view s)) (hfiles : Filed files)
    (hlater : force = false → ∀ c, seen c → ∀ c', files.lookup c.path = some c' → Later c c')
    {w : View} {ρ : String → Option String} {moved : List Edge}
    (hindexed : Indexed rd files (vanishedFiles s files ++ staleFiles s force files) ρ moved (view s) w) :
    Current rd files w := by
  intro id hid
  rw [hindexed.node id hid]
  split
  · rfl
  · next hkept => exact (hs.graphOf_kept h hfiles hlater hkept).1 hid id rfl

/-- A node under the path of its file, and not for the reason that it belongs to none. -/
theorem homeOf_of_file {n : Node} (hn : n.AtHome) (hfile : n.file = p)
    (hid : p ≠ "" ∨ n.id = fileId p ∨ IsSymbolId n.id) : homeOf n.id = p ∧ homeOf n.id ≠ nowhere := by
  by_cases hp : p = ""
  · have hhome : homeOf n.id ≠ nowhere := by
      rcases hid with hne | hid | hid
      · exact absurd hp hne
      · rw [hid, homeOf_fileId, hp]
        decide
      · exact hn.symbol hid
    exact ⟨(fileAt_of_ne hhome).symm.trans (hn.file.symm.trans hfile), hhome⟩
  · exact eq_of_fileAt (hn.file.symm.trans hfile) hp

theorem Current.mem_nodesOf {t : σ} (hnodes : Current rd files (view t)) (h : Valid t)
    (hwf : (view t).WellFormed) (hfiles : Filed files) {n : Node}
    (hid : p ≠ "" ∨ n.id = fileId p ∨ IsSymbolId n.id) : n ∈ Store.nodesOf t p ↔
      n.file = p ∧ ∃ f, graphOf rd files p = some f ∧ latest Node.id f.nodes n.id = some n := by
  rw [Graph.mem_nodesOf h, and_comm]
  refine and_congr_right fun hfile => ?_
  constructor
  · intro hn
    obtain ⟨hhome, hinside⟩ := homeOf_of_file (hwf.node hn) hfile hid
    rw [hnodes _ hinside, hhome] at hn
    exact Option.bind_eq_some_iff.mp hn
  · rintro ⟨f, hf, hlatest⟩
    obtain ⟨hpath, hproper⟩ := hfiles.path_graphOf hf
    have hatHome := FileGraph.atHome_of_mem (hpath ▸ hproper) (mem_of_latest hlatest)
    obtain ⟨hhome, hinside⟩ := homeOf_of_file hatHome hfile hid
    rw [hnodes _ hinside, hhome, hf]
    exact hlatest

/-- A name means the only symbol node that has it. -/
theorem resolve_eq_some_iff_nodesOf {t : σ} (h : Valid t) (hwf : (view t).WellFormed) {name id : String} :
    resolve t name = some id ↔ ∃ n, n.id = id ∧
      ∀ m, m = n ↔ m ∈ Store.nodesOf t m.file ∧ m.name = name ∧ IsSymbolId m.id := by
  simp only [mem_nodesOf h, and_true]
  rw [resolve_eq_some_iff h]
  constructor
  · rintro ⟨⟨n, hn, hname, hsymbol⟩, hunique⟩
    obtain rfl := hwf.id hn
    refine ⟨n, rfl, fun m => ⟨fun heq => heq ▸ ⟨hn, hname, hsymbol⟩, fun ⟨hm, hmname, hmsymbol⟩ => ?_⟩⟩
    rw [hunique m.id m hm hmname hmsymbol, hn, Option.some.injEq] at hm
    exact hm.symm
  · rintro ⟨n, rfl, hall⟩
    obtain ⟨hn, hname, hsymbol⟩ := (hall n).mp rfl
    refine ⟨⟨n, hn, hname, hsymbol⟩, fun id' m hm hmname hmsymbol => ?_⟩
    obtain rfl := hwf.id hm
    rw [(hall m).mpr ⟨hm, hmname, hmsymbol⟩]

/-- Names mean the same in stores with the nodes of the same files. -/
theorem Current.resolve_eq {t t' : σ} (hnodes : Current rd files (view t)) (hnodes' : Current rd files (view t'))
    (h : Valid t) (h' : Valid t') (hwf : (view t).WellFormed) (hwf' : (view t').WellFormed) :
    resolve t = resolve t' := by
  funext name
  refine resolve_congr h h' (fun id hid => ?_) name
  by_cases hhome : homeOf id = nowhere
  · rw [hwf.node?_eq_none hid hhome, hwf'.node?_eq_none hid hhome]
  · rw [hnodes id hhome, hnodes' id hhome]

/-! ## Edges by their files -/

/-- The edge starts at a node of the file. -/
def Leaves {σ : Type} [Store σ] (s : σ) (file : String) (e : Edge) : Prop :=
  e ∈ Store.allEdges s ∧ ∃ n ∈ Store.nodesOf s file, n.id = e.source

/-- The edge ends at the node, which belongs to one of the files. -/
def Enters {σ : Type} [Store σ] (s : σ) (files : List String) (e : Edge) (n : Node) : Prop :=
  n.file ∈ files ∧ n ∈ Store.nodesOf s n.file ∧ n.id = e.target

theorem leaves_iff (h : Valid s) (hwf : (view s).WellFormed) {e : Edge} :
    Leaves s p e ↔ (view s).edge? e.key = some e ∧ homeOf e.source = p := by
  rw [Leaves, mem_allEdges h]
  refine and_congr_right fun he => ⟨?_, fun hp => ?_⟩
  · rintro ⟨n, hn, hid⟩
    obtain ⟨hnode, hfile⟩ := (mem_nodesOf h).mp hn
    rw [hid] at hnode
    exact (hwf.home hnode (hwf.inside he)).trans hfile
  · obtain ⟨n, hn⟩ := Option.isSome_iff_exists.mp (hwf.source he)
    have hid : n.id = e.source := hwf.id hn
    exact ⟨n, (mem_nodesOf h).mpr ⟨hid ▸ hn, (hwf.home hn (hwf.inside he)).symm.trans hp⟩, hid⟩

theorem enters_iff (h : Valid s) (hwf : (view s).WellFormed) {gone : List String} (hinner : ∀ q ∈ gone, InnerPath q)
    {e : Edge} {n : Node} :
    Enters s gone e n ↔ (view s).node? e.target = some n ∧ homeOf e.target ∈ gone := by
  rw [Enters, mem_nodesOf h]
  constructor
  · rintro ⟨hfile, ⟨hn, -⟩, hid⟩
    rw [hid] at hn
    obtain ⟨hhome, -⟩ := eq_of_fileAt (hwf.file hn).symm (hinner _ hfile).ne_empty
    exact ⟨hn, hhome.symm ▸ hfile⟩
  · rintro ⟨hn, hgone⟩
    have hid := hwf.id hn
    exact ⟨hwf.home hn (hinner _ hgone).proper.ne_nowhere ▸ hgone, ⟨hid ▸ hn, rfl⟩, hid⟩

/-- The edges of a file that was replaced. -/
theorem leaves_replaced {t : σ} (h : Valid t) (hfiles : Filed files) {v : View} {gone : List String}
    {ρ : String → Option String} {moved : List Edge} (hindexed : Indexed rd files gone ρ moved v (view t))
    (hp : p ∈ gone) {e : Edge} : Leaves t p e ↔ ∃ f, graphOf rd files p = some f ∧
      latest Edge.key (f.edges ++ f.linkEdges ρ) e.key = some e := by
  rw [leaves_iff h hindexed.wf, hindexed.edge]
  constructor
  · rintro ⟨he, hsource⟩
    rw [if_pos (show homeOf e.key.source ∈ gone from hsource ▸ hp),
      show homeOf e.key.source = p from hsource] at he
    exact Option.bind_eq_some_iff.mp he
  · rintro ⟨f, hf, hlatest⟩
    obtain ⟨hpath, hproper⟩ := hfiles.path_graphOf hf
    have hsource : homeOf e.source = p := by
      have howns : f.Owns e.source := by
        rcases List.mem_append.mp (mem_of_latest hlatest) with he | he
        · exact (FileGraph.structural_of_mem he).source
        · obtain ⟨l, -, -, howns⟩ := FileGraph.source_of_mem_linkEdges he
          exact howns
      exact (howns.homeOf (hpath ▸ hproper)).trans hpath
    refine ⟨?_, hsource⟩
    rw [if_pos (show homeOf e.key.source ∈ gone from hsource ▸ hp),
      show homeOf e.key.source = p from hsource, hf]
    exact hlatest

/-- A forced pass gives every file the edges that its links have in any store with the same nodes. -/
theorem Faithful.leaves_forced (h : Valid s) (hs : Faithful rd seen (view s)) (hfiles : Filed files) {t : σ}
    (ht : Valid t) (hwf : (view t).WellFormed) (hnodes : Current rd files (view t))
    (hp : (files.lookup p).isSome) {e : Edge} :
    Leaves (Graph.index rd none true files [] s).store p e ↔ ∃ f, graphOf rd files p = some f ∧
      latest Edge.key (f.edges ++ f.linkEdges (resolve t)) e.key = some e := by
  obtain ⟨hvalid, moved, hnew⟩ := hs.index_indexed h hfiles true
  have hnew' := hs.current_index h hfiles (fun hforce : true = false => nomatch hforce) hnew
  obtain ⟨c, hc⟩ := Option.isSome_iff_exists.mp hp
  have hstale : p ∈ staleFiles s true files := (mem_staleFiles h hfiles).mpr ⟨c, hc, .inl rfl⟩
  rw [leaves_replaced hvalid hfiles hnew (List.mem_append_right _ hstale),
    hnodes.resolve_eq hnew' ht hvalid hwf hnew.wf]

/-- Where a root that is a file comes or goes, every edge starts in a file that is replaced. -/
theorem Faithful.source_replaced (h : Valid s) (hs : Faithful rd seen (view s)) (hfiles : Filed files)
    (hroot : "" ∈ vanishedFiles s files ++ staleFiles s force files) (k : EdgeKey) (e : Edge)
    (he : (view s).edge? k = some e) : homeOf k.source ∈ vanishedFiles s files ++ staleFiles s force files := by
  have hrooted := hs.rooted files
  rcases List.mem_append.mp hroot with hvanished | hstale
  · obtain ⟨htime, -⟩ := (mem_vanishedFiles h).mp hvanished
    rw [hrooted.source_eq_root htime he]
    exact hroot
  · obtain ⟨c, hc, -⟩ := (mem_staleFiles h hfiles).mp hstale
    rcases hrooted.source_vanished h hfiles (by rw [hc]; rfl) he with hmem | heq
    · exact List.mem_append_left _ hmem
    · rw [heq]
      exact hroot

/-- There are then no edges of other files, before the pass and after it. -/
theorem Indexed.edge?_eq_none {v w : View} {gone : List String} {ρ : String → Option String} {moved : List Edge}
    (h : Indexed rd files gone ρ moved v w) (huniform : v.Uniform)
    (hsources : ∀ k e, v.edge? k = some e → homeOf k.source ∈ gone) {k : EdgeKey} (hkept : homeOf k.source ∉ gone) :
    v.edge? k = none ∧ w.edge? k = none := by
  refine ⟨Option.eq_none_iff_forall_ne_some.mpr fun e he => hkept (hsources k e he),
    Option.eq_none_iff_forall_ne_some.mpr fun e he => ?_⟩
  rcases (h.edge_kept_iff huniform hkept).mp he with ⟨hold, -⟩ | ⟨-, e₀, n, u, hold, hsource, -⟩
  · exact hkept (hsources k e hold)
  · exact hsource (hsources e₀.key e₀ hold)

/-- The edges of a file that was not replaced. -/
theorem leaves_kept {t : σ} (h : Valid s) (ht : Valid t) (hs : Faithful rd seen (view s)) {gone : List String}
    {ρ : String → Option String} {moved : List Edge} (hindexed : Indexed rd files gone ρ moved (view s) (view t))
    (hkept : p ∉ gone) (hroot : "" ∈ gone → ∀ k e, (view s).edge? k = some e → homeOf k.source ∈ gone)
    (hlocal : ∀ name id, (view s).LinksTo p name id → ∃ f, graphOf rd files p = some f ∧ f.onlyNamed? name = none)
    {e : Edge} : Leaves t p e ↔ Leaves s p e ∧ (¬∃ n, Enters s gone e n) ∨
      ∃ f e₀ n u, graphOf rd files p = some f ∧ Leaves s p e₀ ∧ Enters s gone e₀ n ∧
        endOf (f.seek ρ n.name) e₀.kind n.name = some u ∧ e = { e₀ with target := u.1 } := by
  by_cases hinside : "" ∈ gone
  · -- all edges went with the root
    have hnone : ∀ e, ¬Leaves s p e ∧ ¬Leaves t p e := by
      intro e
      rw [leaves_iff h hs.wf, leaves_iff ht hindexed.wf]
      constructor <;> rintro ⟨he, rfl⟩
      · rw [(hindexed.edge?_eq_none (k := e.key) hs.uniform (hroot hinside) hkept).1] at he
        cases he
      · rw [(hindexed.edge?_eq_none (k := e.key) hs.uniform (hroot hinside) hkept).2] at he
        cases he
    simp only [(hnone _).1, (hnone _).2, false_and, and_false, exists_false, or_false]
  have hinner : ∀ q ∈ gone, InnerPath q := fun q hq => ⟨hindexed.proper q hq, fun heq => hinside (heq ▸ hq)⟩
  simp only [leaves_iff h hs.wf, leaves_iff ht hindexed.wf, enters_iff h hs.wf hinner, not_exists, not_and]
  constructor
  · rintro ⟨he, rfl⟩
    rcases (hindexed.edge_kept_iff hs.uniform hkept).mp he with ⟨hold, htarget⟩ | ⟨-, hmoved⟩
    · exact .inl ⟨⟨hold, rfl⟩, fun _ _ => htarget⟩
    · obtain ⟨e₀, n, u, hedge, hsource, htarget, hn, hu, rfl⟩ := hmoved
      obtain ⟨f, hf, hnone⟩ := hlocal n.name e₀.target (hindexed.linksTo hedge hsource htarget hn)
      refine .inr ⟨f, e₀, n, u, hf, ⟨hedge, rfl⟩, ⟨hn, htarget⟩, ?_, rfl⟩
      rw [FileGraph.seek, hnone, Option.none_or]
      exact hu
  · rintro (⟨⟨hold, rfl⟩, htarget⟩ | ⟨f, e₀, n, u, hf, ⟨hedge, rfl⟩, ⟨hn, htarget⟩, hu, rfl⟩)
    · obtain ⟨n, hn⟩ := Option.isSome_iff_exists.mp (hs.wf.target hold)
      exact ⟨(hindexed.edge_kept_iff hs.uniform hkept).mpr (.inl ⟨hold, htarget n hn⟩), rfl⟩
    · obtain ⟨g, hg, hnone⟩ := hlocal n.name e₀.target (hindexed.linksTo hedge hkept htarget hn)
      rw [hf, Option.some.injEq] at hg
      rw [FileGraph.seek, hg, hnone, Option.none_or] at hu
      exact ⟨(hindexed.edge_kept_iff hs.uniform hkept).mpr
        (.inr ⟨rfl, e₀, n, u, hedge, hkept, htarget, hn, hu, rfl⟩), rfl⟩

end Index

/-! ## Runs -/

section Run

open LawfulStore

variable {σ : Type} [Store σ] {rd : Reader} {policy : IgnorePolicy} {root : String}
  {passes : List (Disk × Bool)} {d : Disk}

/-- The files that a pass over a tree finds. -/
def filesIn (rd : Reader) (policy : IgnorePolicy) (root : String) (d : Disk) : Dict Candidate :=
  filesOf (candidates rd.registry policy d root)

/-- The store after passes over trees, each forced or not, from an empty one. -/
def reached (σ : Type) [Store σ] (rd : Reader) (policy : IgnorePolicy) (root : String)
    (passes : List (Disk × Bool)) : σ :=
  passes.foldl (fun s pass => (index rd none pass.2 (filesIn rd policy root pass.1) [] s).store) Store.empty

/-- The paths of the files that are found in a tree have no colon, since with colons two files can share an id. Only a
root that is a file is found under the empty path. -/
structure Addressed (rd : Reader) (policy : IgnorePolicy) (root : String) (d : Disk) : Prop where
  proper : ∀ p c, (filesIn rd policy root d).lookup p = some c → ProperPath p
  root : ((filesIn rd policy root d).lookup "").isSome → (d.file? root).isSome

/-- The root is a directory, and no path below it has a colon. -/
def Nested (rd : Reader) (policy : IgnorePolicy) (root : String) (d : Disk) : Prop :=
  ∀ p c, (filesIn rd policy root d).lookup p = some c → InnerPath p

theorem Nested.lookup_root (h : Nested rd policy root d) : (filesIn rd policy root d).lookup "" = none := by
  by_contra hsome
  obtain ⟨c, hc⟩ := Option.ne_none_iff_exists'.mp hsome
  exact (h "" c hc).ne_empty rfl

theorem Nested.addressed (h : Nested rd policy root d) : Addressed rd policy root d where
  proper p c hc := (h p c hc).proper
  root hroot := by
    rw [h.lookup_root] at hroot
    cases hroot

theorem nested_of_forall {files : Dict Candidate} (h : filesIn rd policy root d = files)
    (hpaths : ∀ entry ∈ files, entry.1 ≠ "" ∧ ':' ∉ entry.1.toList) : Nested rd policy root d := by
  intro p c hc
  obtain ⟨hne, hcolon⟩ := hpaths _ (Dict.mem_of_lookup (h ▸ hc))
  exact ⟨⟨hcolon⟩, hne⟩

theorem nodup_filesIn (rd : Reader) (policy : IgnorePolicy) (root : String) (d : Disk) :
    ((filesIn rd policy root d).map (·.1)).Nodup :=
  (Dict.sorted_ofList _).nodup

theorem mem_of_lookup_filesIn {p : String} {c : Candidate} (h : (filesIn rd policy root d).lookup p = some c) :
    c ∈ candidates rd.registry policy d root ∧ c.path = p := by
  obtain ⟨c', hc', heq⟩ := List.mem_map.mp (Dict.mem_of_mem_ofList (Dict.mem_of_lookup h))
  cases heq
  exact ⟨hc', rfl⟩

theorem path_of_lookup_filesIn {p : String} {c : Candidate} (h : (filesIn rd policy root d).lookup p = some c) :
    c.path = p :=
  (mem_of_lookup_filesIn h).2

theorem filed_filesIn (h : Addressed rd policy root d) : Filed (filesIn rd policy root d) where
  nodup := nodup_filesIn rd policy root d
  path := path_of_lookup_filesIn
  proper hc := h.proper _ _ hc
  root hroot p hp := by
    obtain ⟨c, hc⟩ := Option.isSome_iff_exists.mp hroot
    obtain ⟨c', hc'⟩ := Option.isSome_iff_exists.mp hp
    obtain ⟨hmem, hpath⟩ := mem_of_lookup_filesIn hc
    obtain ⟨hmem', hpath'⟩ := mem_of_lookup_filesIn hc'
    rw [← hpath', ← eq_of_mem_candidates (h.root hroot) hmem hmem', hpath]

/-- Found in one of the trees. -/
def SeenIn (rd : Reader) (policy : IgnorePolicy) (root : String) (passes : List (Disk × Bool)) (c : Candidate) :
    Prop :=
  ∃ pass ∈ passes, (filesIn rd policy root pass.1).lookup c.path = some c

variable [LawfulStore σ]

/-- Along a run, what is there of each path is that of a file seen there. -/
theorem faithful_reached (h : ∀ pass ∈ passes, Addressed rd policy root pass.1) :
    Valid (reached σ rd policy root passes) ∧
      Faithful rd (SeenIn rd policy root passes) (view (reached σ rd policy root passes)) := by
  induction passes using List.reverseRecOn with
  | nil =>
    refine ⟨valid_empty, ?_⟩
    rw [reached, List.foldl_nil, view_empty]
    exact Faithful.empty rd _
  | append_singleton passes pass ih =>
    obtain ⟨hvalid, hs⟩ := ih fun q hq => h q (List.mem_append_left _ hq)
    have hfiles := filed_filesIn (h pass (List.mem_append_right _ (List.mem_singleton_self pass)))
    obtain ⟨hvalid', moved, hindexed⟩ := hs.index_indexed hvalid hfiles pass.2
    rw [reached, List.foldl_append]
    have hs' := hs.index hindexed hfiles fun p htime hnone =>
      List.mem_append_left _ ((mem_vanishedFiles hvalid).mpr ⟨htime, hnone⟩)
    refine ⟨hvalid', hs'.mono fun c hc => ?_⟩
    rcases hc with ⟨q, hq, hc⟩ | hc
    · exact ⟨q, List.mem_append_left _ hq, hc⟩
    · exact ⟨pass, List.mem_append_right _ (List.mem_singleton_self pass), hc⟩

/-- A pass after others, under the discipline that what it finds under a path at which an earlier one found
other contents or another language has a later time: the nodes of every file are those of its present contents,
the files that it replaces have the edges that a forced pass gives them, from nothing or on the same graph, and
of the other files only the edges into replaced files change, which then end where the same rule leads. -/
theorem incremental_pass_eq_rebuild (rd : Reader) (policy : IgnorePolicy) (root : String)
    (earlier : List (Disk × Bool)) (d : Disk) (hpaths : ∀ pass ∈ earlier, Addressed rd policy root pass.1)
    (hpath : Addressed rd policy root d)
    (hlater : ∀ pass ∈ earlier, ∀ p c c', (filesIn rd policy root pass.1).lookup p = some c →
      (filesIn rd policy root d).lookup p = some c' → Later c c') :
    let files := filesIn rd policy root d
    let s := reached σ rd policy root earlier
    let s' := (index rd none false files [] s).store
    let stale := staleFiles s false files
    let replaced := vanishedFiles s files ++ stale
    (∀ p n, p ≠ "" ∨ n.id = fileId p ∨ IsSymbolId n.id → (n ∈ Store.nodesOf s' p ↔
      n.file = p ∧ ∃ f, graphOf rd files p = some f ∧ latest Node.id f.nodes n.id = some n)) ∧
    (∀ name id, resolve s' name = some id ↔ ∃ n, n.id = id ∧
      ∀ m, m = n ↔ m ∈ Store.nodesOf s' m.file ∧ m.name = name ∧ IsSymbolId m.id) ∧
    (∀ p ∈ stale, ∀ e,
      (Leaves s' p e ↔ ∃ f, graphOf rd files p = some f ∧
        latest Edge.key (f.edges ++ f.linkEdges (resolve s')) e.key = some e) ∧
      ∀ base, base = Store.empty ∨ base = s →
        (Leaves s' p e ↔ Leaves (index rd none true files [] base).store p e)) ∧
    ∀ p ∉ replaced, ∀ e, Leaves s' p e ↔
      Leaves s p e ∧ (¬∃ n, Enters s replaced e n) ∨
      ∃ f e₀ n t, graphOf rd files p = some f ∧ Leaves s p e₀ ∧ Enters s replaced e₀ n ∧
        endOf (f.seek (resolve s') n.name) e₀.kind n.name = some t ∧ e = { e₀ with target := t.1 } := by
  intro files s s' stale replaced
  obtain ⟨hvalid, hs⟩ : Valid s ∧ Faithful rd (SeenIn rd policy root earlier) (view s) := faithful_reached hpaths
  have hfiles : Filed files := filed_filesIn hpath
  have hdiscipline : ∀ c, SeenIn rd policy root earlier c → ∀ c', files.lookup c.path = some c' → Later c c' :=
    fun c ⟨pass, hpass, hc⟩ c' hc' => hlater pass hpass c.path c c' hc hc'
  obtain ⟨hvalid', moved, hindexed⟩ := hs.index_indexed hvalid hfiles false
  have hnodes := hs.current_index hvalid hfiles (fun _ => hdiscipline) hindexed
  refine ⟨fun p n hid => hnodes.mem_nodesOf hvalid' hindexed.wf hfiles hid,
    fun name id => resolve_eq_some_iff_nodesOf hvalid' hindexed.wf, fun p hp e => ?_, fun p hp e => ?_⟩
  · have hedges : Leaves s' p e ↔ ∃ f, graphOf rd files p = some f ∧
        latest Edge.key (f.edges ++ f.linkEdges (resolve s')) e.key = some e :=
      leaves_replaced hvalid' hfiles hindexed (List.mem_append_right _ hp)
    refine ⟨hedges, fun base hbase => ?_⟩
    obtain ⟨seen, hvalidBase, hfaithful⟩ : ∃ seen, Valid base ∧ Faithful rd seen (view base) := by
      rcases hbase with rfl | rfl
      · have hview : view (Store.empty : σ) = .empty := view_empty
        exact ⟨fun _ => False, valid_empty, hview ▸ Faithful.empty rd _⟩
      · exact ⟨_, hvalid, hs⟩
    obtain ⟨c, hc, -⟩ := (mem_staleFiles hvalid hfiles).mp hp
    rw [hedges, hfaithful.leaves_forced hvalidBase hfiles hvalid' hindexed.wf hnodes (by rw [hc]; rfl)]
  · obtain ⟨-, hlocal⟩ := hs.graphOf_kept hvalid hfiles (fun _ => hdiscipline) hp
    exact leaves_kept hvalid hvalid' hs hindexed hp (hs.source_replaced hvalid hfiles) hlocal

/-- Reads files in which a class is its name, and after a blank the name of its base. -/
def classReader : Reader :=
  let identifier (field : String) : Tree.Pattern := (Tree.Pattern.node "identifier").filling field
  let named (field : String) (start : Nat) : Tree.Node :=
    ⟨"identifier", some field, true, false, false, false, false, start, start + 1, []⟩
  { registry := .register .empty
      { name := "classes", displayName := "Classes", extensions := [".c"], hasGrammar := true
        rules := {
          symbols := [⟨"class", { patterns := [.node "class" [(identifier "name").as .name]] }⟩]
          relation := fun r => if r = .inheritance then
            some { patterns := [.node "class" [(identifier "name").as .child, (identifier "base").as .base]] }
            else none } } [] []
    grammars := { parse := fun _ text => some ⟨"class", none, true, false, false, false, false, 0, text.utf8ByteSize,
      named "name" 0 :: if 1 < text.utf8ByteSize then [named "base" 2] else []⟩ } }

/-- A class, and its base in another file. -/
def baseAndDerived : Disk := (({} : Disk).put "a.c" ⟨[65], 3, none⟩).put "b.c" ⟨[66, 32, 65], 10, none⟩

theorem filesIn_baseAndDerived : filesIn classReader ⟨[]⟩ "" baseAndDerived =
    [("a.c", ⟨"a.c", "classes", ⟨[65], 3, none⟩⟩), ("b.c", ⟨"b.c", "classes", ⟨[66, 32, 65], 10, none⟩⟩)] := by
  have hwalk : IgnorePolicy.walk ⟨[]⟩ baseAndDerived "" = [("a.c", ⟨[65], 3, none⟩), ("b.c", ⟨[66, 32, 65], 10, none⟩)] := by
    rw [IgnorePolicy.walk_of_directory rfl, List.mergeSort_of_pairwise]
    · decide +kernel
    · decide +kernel
  simp only [filesIn, candidates]
  rw [hwalk]
  decide +kernel

/-- The base of a class comes to a tree in which the class was alone and now has an earlier time: the file of the
base gets its edges, and that of the class keeps its own. -/
theorem incremental_pass_eq_rebuild_new_base :
    let derived := ({} : Disk).put "b.c" ⟨[66, 32, 65], 10, none⟩
    let both := (({} : Disk).put "a.c" ⟨[65], 3, none⟩).put "b.c" ⟨[66, 32, 65], 7, none⟩
    let files := filesIn classReader ⟨[]⟩ "" both
    let s := reached MemoryGraph classReader ⟨[]⟩ "" [(derived, true)]
    let s' := (index classReader none false files [] s).store
    (Addressed classReader ⟨[]⟩ "" derived ∧ Addressed classReader ⟨[]⟩ "" both ∧
      ∀ p c c', (filesIn classReader ⟨[]⟩ "" derived).lookup p = some c → files.lookup p = some c' → Later c c') ∧
      (∃ n ∈ Store.nodesOf s' "a.c", n.id = "symbol:a.c:A") ∧
      Leaves s' "a.c" { source := "file:a.c", target := "symbol:a.c:A", kind := .contains } ∧
      ∀ e, Leaves s' "b.c" e ↔ Leaves s "b.c" e := by
  intro derived both files s s'
  have hderived : filesIn classReader ⟨[]⟩ "" derived = [("b.c", ⟨"b.c", "classes", ⟨[66, 32, 65], 10, none⟩⟩)] := by
    decide +kernel
  have hwalk : IgnorePolicy.walk ⟨[]⟩ both "" = [("a.c", ⟨[65], 3, none⟩), ("b.c", ⟨[66, 32, 65], 7, none⟩)] := by
    rw [IgnorePolicy.walk_of_directory rfl, List.mergeSort_of_pairwise]
    · decide +kernel
    · decide +kernel
  have hboth : files = [("a.c", ⟨"a.c", "classes", ⟨[65], 3, none⟩⟩), ("b.c", ⟨"b.c", "classes", ⟨[66, 32, 65], 7, none⟩⟩)] := by
    simp only [files, filesIn, candidates]
    rw [hwalk]
    decide +kernel
  have haddressed : Addressed classReader ⟨[]⟩ "" derived := (nested_of_forall hderived (by decide)).addressed
  have haddressed' : Addressed classReader ⟨[]⟩ "" both := (nested_of_forall hboth (by decide)).addressed
  have hlater : ∀ p c c', (filesIn classReader ⟨[]⟩ "" derived).lookup p = some c → files.lookup p = some c' →
      Later c c' := by
    intro p c c' hc hc'
    rw [hderived] at hc
    rw [hboth] at hc'
    have hmem := Dict.mem_of_lookup hc
    simp only [List.mem_singleton, Prod.mk.injEq] at hmem
    obtain ⟨rfl, rfl⟩ := hmem
    cases hc'
    simp [Later, DiskFile.read]
  obtain ⟨hnodes, -, hstale, hkept⟩ := @incremental_pass_eq_rebuild MemoryGraph _ _ classReader ⟨[]⟩ ""
    [(derived, true)] both (by simpa using haddressed) haddressed' (by simpa using hlater)
  have hreplaced : vanishedFiles s files = [] ∧ staleFiles s false files = ["a.c"] := by
    rw [hboth]
    decide +kernel
  have hgraph : (graphOf classReader files "a.c").map (fun f => (f.extraction.links, f.edges,
      (latest Node.id f.nodes "symbol:a.c:A").map (·.file))) =
      some ([], [{ source := "file:a.c", target := "symbol:a.c:A", kind := .contains }], some "a.c") := by
    rw [hboth]
    decide +kernel
  obtain ⟨f, hf, hparts⟩ := Option.map_eq_some_iff.mp hgraph
  simp only [Prod.mk.injEq] at hparts
  obtain ⟨hlinks, hedges, hlatest⟩ := hparts
  obtain ⟨n, hn, hfile⟩ := Option.map_eq_some_iff.mp hlatest
  have hid : n.id = "symbol:a.c:A" := key_of_latest hn
  refine ⟨⟨haddressed, haddressed', hlater⟩, ⟨n, (hnodes "a.c" n (.inl (by decide))).mpr ⟨hfile, f, hf, hid ▸ hn⟩, hid⟩,
    ?_, fun e => ?_⟩
  · refine ((hstale "a.c" (by rw [hreplaced.2]; decide) _).1).mpr ⟨f, hf, ?_⟩
    rw [hedges, FileGraph.linkEdges, hlinks, List.filterMap_nil, List.append_nil]
    rfl
  · have hnone : ∀ e n, ¬Enters s (vanishedFiles s files ++ staleFiles s false files) e n := by
      have hempty : Store.nodesOf s "a.c" = [] := by decide +kernel
      rintro e n ⟨hmem, hn, -⟩
      rw [hreplaced.1, hreplaced.2, List.nil_append, List.mem_singleton] at hmem
      rw [hmem, hempty] at hn
      cases hn
    rw [hkept "b.c" (by rw [hreplaced.1, hreplaced.2]; decide) e]
    constructor
    · rintro (⟨he, -⟩ | ⟨-, e₀, n, -, -, -, henters, -⟩)
      · exact he
      · exact absurd henters (hnone e₀ n)
    · exact fun he => .inl ⟨he, not_exists.mpr (hnone e)⟩

/-- A root that is a file is found under the empty path. -/
example : (filesIn classReader ⟨[]⟩ "a.c" (({} : Disk).put "a.c" ⟨[65], 3, none⟩)).map (·.1) = [""] := by
  decide +kernel

/-- A time that was set back hides that a file is no text any more: every write comes with a later time than the
file ever had, but a pass that finds it at an earlier time than the last one did keeps its node. -/
theorem touch_back_keeps_nodes :
    let rd : Reader := ⟨.register .empty { name := "sql", displayName := "SQL", extensions := [".sql"] } [] [],
      { parse := fun _ _ => none }⟩
    let written := ({} : Disk).put "a.sql" ⟨[49, 10], 10, none⟩
    let rewritten := written.put "a.sql" ⟨[255], 11, none⟩
    let files := filesIn rd ⟨[]⟩ "" (rewritten.touch "a.sql" 5)
    let s := (index rd none false files [] (reached MemoryGraph rd ⟨[]⟩ "" [(written, false)])).store
    ((written.file? "a.sql").map (·.mtime) = some 10 ∧ (rewritten.file? "a.sql").map (·.mtime) = some 11) ∧
      (files.lookup "a.sql").map (·.file.octets) = some [255] ∧ graphOf rd files "a.sql" = none ∧
      (Store.nodesOf s "a.sql").map (·.id) = ["file:a.sql"] := by
  decide +kernel

end Run

end CodeIndex.Graph
