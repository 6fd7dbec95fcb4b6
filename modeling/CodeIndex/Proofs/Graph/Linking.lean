import CodeIndex.Proofs.Graph.Clearing

/-!
# The second half of a pass

Once all nodes are in place, links and edges that were set aside only add edges and nodes outside of files, so
names keep their meaning to the end: `Extends` is such a growth, and `Relates` follows it over the files.
-/

namespace CodeIndex.Graph

/-! ## Adding edges -/

/-- No external type stands under the id of a symbol or of something in a file. -/
theorem Resolved.Sound.latest_externals {r : Resolved} {known : String → Prop} (h : r.Sound known) {id : String}
    (hid : IsSymbolId id ∨ homeOf id ≠ nowhere) : latest Node.id r.externals id = none := by
  refine latest_eq_none_iff.mpr fun n hn heq => ?_
  obtain ⟨name, rfl⟩ := h.externals n hn
  rcases hid with hid | hid
  · exact not_isSymbolId_externalNode name (heq ▸ hid)
  · exact hid (heq ▸ homeOf_externalNode name)

theorem Resolved.Sound.atHome {r : Resolved} {known : String → Prop} (h : r.Sound known) :
    ∀ n ∈ r.externals, n.AtHome := by
  intro n hn
  obtain ⟨name, rfl⟩ := h.externals n hn
  exact atHome_externalNode name

/-- Where the external types are, the edges that were found may be written. -/
theorem Resolved.Sound.admits {r : Resolved} {known : String → Prop} (h : r.Sound known) {w : View}
    (hknown : ∀ id, known id → (w.node? id).isSome)
    (hsources : ∀ e ∈ r.edges, (w.node? e.source).isSome ∧ homeOf e.source ≠ nowhere) :
    ∀ e ∈ r.edges, (w.putNodes r.externals).Admits e := by
  intro e he
  refine ⟨View.isSome_putNodes (hsources e he).1 _, (hsources e he).2, ?_, h.weights e he⟩
  rcases h.targets e he with hid | ⟨n, hn, hid⟩
  · exact View.isSome_putNodes (hknown _ hid) _
  · rw [← hid]
    simp [View.putNodes, isSome_latest hn]

/-- A view with further edges, and with further nodes that are no symbols and belong to no file. -/
structure View.Extends (w₀ w : View) (es : List Edge) : Prop where
  wf : w.WellFormed
  node : ∀ {id}, IsSymbolId id ∨ homeOf id ≠ nowhere → w.node? id = w₀.node? id
  isSome : ∀ {id}, (w₀.node? id).isSome → (w.node? id).isSome
  edge : ∀ k, w.edge? k = (latest Edge.key es k).or (w₀.edge? k)

namespace View.Extends

variable {w₀ w w' : View} {es es' : List Edge}

theorem refl (h : w.WellFormed) : w.Extends w [] := ⟨h, fun _ => rfl, id, fun _ => rfl⟩

theorem trans (h : w₀.Extends w es) (h' : w.Extends w' es') : w₀.Extends w' (es ++ es') where
  wf := h'.wf
  node hid := (h'.node hid).trans (h.node hid)
  isSome hid := h'.isSome (h.isSome hid)
  edge k := by rw [h'.edge, h.edge, latest_append, Option.or_assoc]

theorem setTime (h : w₀.Extends w es) (file : String) (time : Double) : w₀.Extends (w.setTime file time) es :=
  ⟨h.wf.setTime file time, h.node, h.isSome, h.edge⟩

/-- Writing edges after the external types that they need. -/
theorem of_resolved (h : w.WellFormed) {r : Resolved} {known : String → Prop} (hsound : r.Sound known)
    (hknown : ∀ id, known id → (w.node? id).isSome)
    (hsources : ∀ e ∈ r.edges, (w.node? e.source).isSome ∧ homeOf e.source ≠ nowhere) :
    w.Extends ((w.putNodes r.externals).putEdges r.edges) r.edges where
  wf := (h.putNodes hsound.atHome).putEdges (hsound.admits hknown hsources)
  node {id} hid := by
    change (latest Node.id r.externals id).or (w.node? id) = _
    rw [hsound.latest_externals hid, Option.none_or]
  isSome hid := isSome_putNodes hid _
  edge k := rfl

end View.Extends

section Pass

open LawfulStore

variable {σ : Type} [Store σ] [LawfulStore σ] {p : Pass σ} {known : String → Prop}

theorem Pass.view_writeResolved (h : Valid p.store) {r : Resolved} (memo : Memo)
    (hweights : ∀ e ∈ r.edges, e.weight = none) :
    Valid (p.writeResolved (r, memo)).store ∧
      view (p.writeResolved (r, memo)).store = ((view p.store).putNodes r.externals).putEdges r.edges :=
  apply_nodes_edges h r.externals hweights

theorem Pass.writeResolved_spec (h : Valid p.store) (hwf : (view p.store).WellFormed) {r : Resolved} (memo : Memo)
    (hsound : r.Sound known) (hknown : ∀ id, known id → ((view p.store).node? id).isSome)
    (hsources : ∀ e ∈ r.edges, ((view p.store).node? e.source).isSome ∧ homeOf e.source ≠ nowhere) :
    Valid (p.writeResolved (r, memo)).store ∧
      (view p.store).Extends (view (p.writeResolved (r, memo)).store) r.edges ∧
      (view (p.writeResolved (r, memo)).store).time? = (view p.store).time? := by
  obtain ⟨hvalid, hview⟩ := Pass.view_writeResolved h memo hsound.weights
  rw [hview]
  exact ⟨hvalid, .of_resolved hwf hsound hknown hsources, rfl⟩

/-- Names mean the same in a store that was extended. -/
theorem View.Extends.resolve_eq {s t : σ} (hs : Valid s) (ht : Valid t) {es : List Edge}
    (h : (view s).Extends (view t) es) (name : String) : resolve t name = resolve s name :=
  resolve_congr ht hs (fun _ hid => h.node (.inl hid)) name

theorem isSome_of_resolve {s : σ} (h : Valid s) {name id : String} (hid : resolve s name = some id) :
    ((view s).node? id).isSome := by
  obtain ⟨⟨n, hn, -⟩, -⟩ := (resolve_eq_some_iff h).mp hid
  rw [hn]
  rfl

/-- A pass that has related some of the files written by `p₀`. -/
structure Pass.Relates (p₀ p : Pass σ) (done : List (Candidate × FileGraph)) : Prop where
  valid : Valid p.store
  extended : (view p₀.store).Extends (view p.store) (done.flatMap (·.2.linkEdges (resolve p₀.store)))
  memo : MemoSound (resolve p₀.store) p.memo
  detached : p.detached = p₀.detached
  time : ∀ file, (view p.store).time? file =
    ((latest (·.1.path) done file).map fun entry => entry.1.mtime).or
      ((view p₀.store).time? file)

theorem FileGraph.source_of_mem_linkEdges {f : FileGraph} {ρ : String → Option String} {e : Edge}
    (h : e ∈ f.linkEdges ρ) : ∃ l ∈ f.extraction.links, f.linkEdge ρ l = some e ∧ f.Owns e.source := by
  obtain ⟨l, hl, he⟩ := List.mem_filterMap.mp h
  refine ⟨l, hl, he, ?_⟩
  obtain ⟨t, -, rfl⟩ := Option.map_eq_some_iff.mp he
  exact owns_sourceOf l

theorem Pass.Relates.relate {p₀ : Pass σ} {done : List (Candidate × FileGraph)} (h : p₀.Relates p done)
    (h₀ : Valid p₀.store) {entry : Candidate × FileGraph} (hproper : ProperPath entry.2.path)
    (howns : ∀ id, entry.2.Owns id → ((view p₀.store).node? id).isSome) :
    p₀.Relates (p.relate entry) (done ++ [entry]) := by
  have hρ : ∀ name, resolve p.store name = resolve p₀.store name := h.extended.resolve_eq h₀ h.valid
  obtain ⟨hedges, hsound, hmemo⟩ := relations_spec hρ h.memo entry.2
  have hwrite := writeResolved_spec h.valid h.extended.wf (relations p.store entry.2 p.memo).2 hsound
    (fun id hid => h.extended.isSome <| hid.elim (howns id) fun ⟨name, hname⟩ => isSome_of_resolve h₀ hname)
    (fun e he => by
      obtain ⟨l, -, -, hsource⟩ := FileGraph.source_of_mem_linkEdges (hedges ▸ he)
      exact ⟨h.extended.isSome (howns _ hsource), hsource.homeOf hproper ▸ hproper.ne_nowhere⟩)
  obtain ⟨hvalid, hextends, htime⟩ := hwrite
  have hview : view (p.relate entry).store =
      (view (p.writeResolved (relations p.store entry.2 p.memo)).store).setTime entry.1.path
        entry.1.mtime := view_setMtime hvalid _ entry.1.isTime_mtime
  refine ⟨valid_setMtime hvalid _ _, ?_, hmemo, h.detached, fun file => ?_⟩
  · rw [hview, List.flatMap_append, List.flatMap_singleton, ← hedges]
    exact (h.extended.trans hextends).setTime _ _
  · rw [hview, latest_append, latest_cons, latest_nil, Option.none_or]
    change (if file = entry.1.path then some _ else _) = _
    rw [htime, h.time]
    by_cases hfile : file = entry.1.path
    · simp [hfile]
    · simp [hfile, Ne.symm hfile]

theorem Pass.Relates.foldl {p₀ : Pass σ} {done rest : List (Candidate × FileGraph)} (h : p₀.Relates p done)
    (h₀ : Valid p₀.store) (hrest : ∀ entry ∈ rest, ProperPath entry.2.path ∧
      ∀ id, entry.2.Owns id → ((view p₀.store).node? id).isSome) :
    p₀.Relates (rest.foldl Pass.relate p) (done ++ rest) := by
  induction rest generalizing p done with
  | nil => simpa using h
  | cons entry rest ih =>
    obtain ⟨hproper, howns⟩ := hrest entry List.mem_cons_self
    have hnext := ih (h.relate h₀ hproper howns) fun e he => hrest e (List.mem_cons_of_mem entry he)
    rwa [List.append_assoc] at hnext

end Pass

end CodeIndex.Graph
