import CodeIndex.Proofs.Graph.Home

/-!
# Well-formed views

Nodes stand under ids of their own file and edges between nodes that are there. Every write of a pass keeps
this, and then acts on ids by their home alone: deleting a file clears the ids at home in it and the edges
that touch them.
-/

namespace CodeIndex.Graph

/-- A node under an id of its file; what belongs to no file is no symbol. -/
structure Node.AtHome (n : Node) : Prop where
  file : n.file = fileAt (homeOf n.id)
  symbol : IsSymbolId n.id → homeOf n.id ≠ nowhere

theorem atHome_externalNode (name : String) : (externalNode name).AtHome where
  file := by rw [homeOf_externalNode]; rfl
  symbol hid := absurd hid (not_isSymbolId_externalNode name)

theorem FileGraph.atHome_of_mem {f : FileGraph} (hf : ProperPath f.path) {n : Node} (h : n ∈ f.nodes) :
    n.AtHome := by
  rcases owns_or_nowhere h with ⟨howns, hfile⟩ | ⟨hhome, hfile, hsymbol⟩
  · have hhome : homeOf n.id = f.path := howns.homeOf hf
    refine ⟨?_, fun _ => hhome ▸ hf.ne_nowhere⟩
    rw [hhome, fileAt_of_ne hf.ne_nowhere, hfile]
  · refine ⟨?_, fun hid => absurd hid hsymbol⟩
    rw [hhome, hfile]
    rfl

namespace View

variable {v : View}

structure WellFormed (v : View) : Prop where
  id {id : String} {n : Node} : v.node? id = some n → n.id = id
  node {id : String} {n : Node} : v.node? id = some n → n.AtHome
  key {k : EdgeKey} {e : Edge} : v.edge? k = some e → e.key = k
  source {k : EdgeKey} {e : Edge} : v.edge? k = some e → (v.node? k.source).isSome
  inside {k : EdgeKey} {e : Edge} : v.edge? k = some e → homeOf k.source ≠ nowhere
  target {k : EdgeKey} {e : Edge} : v.edge? k = some e → (v.node? k.target).isSome
  weight {k : EdgeKey} {e : Edge} : v.edge? k = some e → e.weight = none

theorem wellFormed_empty : empty.WellFormed := ⟨nofun, nofun, nofun, nofun, nofun, nofun, nofun⟩

theorem WellFormed.file (h : v.WellFormed) {id : String} {n : Node} (hn : v.node? id = some n) :
    n.file = fileAt (homeOf id) := by
  rw [← h.id hn]
  exact (h.node hn).file

/-- What has a home is filed there. -/
theorem WellFormed.home (h : v.WellFormed) {id : String} {n : Node} (hn : v.node? id = some n)
    (hid : homeOf id ≠ nowhere) : homeOf id = n.file :=
  ((h.file hn).trans (fileAt_of_ne hid)).symm

/-- A symbol has a home. -/
theorem WellFormed.home_ne_nowhere (h : v.WellFormed) {id : String} {n : Node} (hn : v.node? id = some n)
    (hid : IsSymbolId id) : homeOf id ≠ nowhere :=
  h.id hn ▸ (h.node hn).symbol ((h.id hn).symm ▸ hid)

theorem WellFormed.node?_eq_none (h : v.WellFormed) {id : String} (hid : IsSymbolId id) (hhome : homeOf id = nowhere) :
    v.node? id = none := by
  by_contra hsome
  obtain ⟨n, hn⟩ := Option.ne_none_iff_exists'.mp hsome
  exact h.home_ne_nowhere hn hid hhome

theorem WellFormed.hasFile_iff (h : v.WellFormed) {file id : String} (hid : (v.node? id).isSome) :
    v.HasFile file id ↔ fileAt (homeOf id) = file := by
  obtain ⟨n, hn⟩ := Option.isSome_iff_exists.mp hid
  rw [← h.file hn]
  constructor
  · rintro ⟨n', hn', hfile⟩
    rw [hn, Option.some.injEq] at hn'
    rw [hn', hfile]
  · exact fun hfile => ⟨n, hn, hfile⟩

/-- The source of an edge is filed where it is at home. -/
theorem WellFormed.source_hasFile_iff (h : v.WellFormed) {file : String} {k : EdgeKey} {e : Edge}
    (he : v.edge? k = some e) : v.HasFile file k.source ↔ homeOf k.source = file := by
  rw [h.hasFile_iff (h.source he), fileAt_of_ne (h.inside he)]

/-! ## Deleting a file -/

section Delete

variable (h : v.WellFormed)
include h

theorem WellFormed.node?_deleteFile (file id : String) :
    (v.deleteFile file).node? id = if fileAt (homeOf id) = file then none else v.node? id := by
  ext n
  rw [View.node?_deleteFile]
  constructor
  · rintro ⟨hn, hfile⟩
    rwa [if_neg (h.file hn ▸ hfile)]
  · intro hn
    split at hn
    · cases hn
    · next hhome => exact ⟨hn, (h.file hn).symm ▸ hhome⟩

theorem WellFormed.edge?_deleteFile (file : String) (k : EdgeKey) :
    (v.deleteFile file).edge? k =
      if homeOf k.source = file then none else if fileAt (homeOf k.target) = file then none else v.edge? k := by
  ext e
  rw [View.edge?_deleteFile]
  constructor
  · rintro ⟨he, hsource, htarget⟩
    rwa [if_neg ((h.source_hasFile_iff he).not.mp hsource),
      if_neg ((h.hasFile_iff (h.target he)).not.mp htarget)]
  · intro he
    split at he
    · cases he
    · next hsource =>
      split at he
      · cases he
      · next htarget =>
        exact ⟨he, (h.source_hasFile_iff he).not.mpr hsource,
          (h.hasFile_iff (h.target he)).not.mpr htarget⟩

theorem WellFormed.deleteFile (file : String) : (v.deleteFile file).WellFormed := by
  have hedge : ∀ {k e}, (v.deleteFile file).edge? k = some e →
      v.edge? k = some e ∧ homeOf k.source ≠ file ∧ fileAt (homeOf k.target) ≠ file := by
    intro k e he
    rw [h.edge?_deleteFile] at he
    split at he
    · cases he
    · split at he
      · cases he
      · next hsource htarget => exact ⟨he, hsource, htarget⟩
  refine ⟨fun hn => h.id (View.node?_deleteFile.mp hn).1, fun hn => h.node (View.node?_deleteFile.mp hn).1,
    fun he => h.key (hedge he).1, fun he => ?_, fun he => h.inside (hedge he).1, fun he => ?_,
    fun he => h.weight (hedge he).1⟩
  · rw [h.node?_deleteFile, fileAt_of_ne (h.inside (hedge he).1), if_neg (hedge he).2.1]
    exact h.source (hedge he).1
  · rw [h.node?_deleteFile, if_neg (hedge he).2.2]
    exact h.target (hedge he).1

end Delete

/-! ## Writing -/

theorem isSome_putNodes {id : String} (hid : (v.node? id).isSome) (ns : List Node) :
    ((v.putNodes ns).node? id).isSome := by
  simp [putNodes, hid]

theorem WellFormed.putNodes (h : v.WellFormed) {ns : List Node} (hns : ∀ n ∈ ns, n.AtHome) :
    (v.putNodes ns).WellFormed := by
  have hnode : ∀ {id n}, (v.putNodes ns).node? id = some n →
      latest Node.id ns id = some n ∨ v.node? id = some n := by
    intro id n hn
    exact (Option.or_eq_some_iff.mp hn).imp_right (·.2)
  refine ⟨fun hn => ?_, fun hn => ?_, h.key, fun he => isSome_putNodes (h.source he) ns, h.inside,
    fun he => isSome_putNodes (h.target he) ns, h.weight⟩
  · exact (hnode hn).elim key_of_latest h.id
  · exact (hnode hn).elim (fun hlatest => hns _ (mem_of_latest hlatest)) h.node

/-- An edge that may be written: it starts at a node of a file and ends at a node. -/
structure Admits (v : View) (e : Edge) : Prop where
  source : (v.node? e.source).isSome
  inside : homeOf e.source ≠ nowhere
  target : (v.node? e.target).isSome
  weight : e.weight = none

theorem WellFormed.putEdges (h : v.WellFormed) {es : List Edge} (hes : ∀ e ∈ es, v.Admits e) :
    (v.putEdges es).WellFormed := by
  have hedge : ∀ {k e}, (v.putEdges es).edge? k = some e → (e.key = k ∧ v.Admits e) ∨ v.edge? k = some e := by
    intro k e he
    rcases Option.or_eq_some_iff.mp he with hlatest | ⟨-, hold⟩
    · exact .inl ⟨key_of_latest hlatest, hes e (mem_of_latest hlatest)⟩
    · exact .inr hold
  refine ⟨h.id, h.node, fun he => (hedge he).elim (·.1) h.key, fun he => ?_, fun he => ?_, fun he => ?_,
    fun he => (hedge he).elim (·.2.weight) h.weight⟩
  · rcases hedge he with ⟨rfl, hadmits⟩ | hold
    · exact hadmits.source
    · exact h.source hold
  · rcases hedge he with ⟨rfl, hadmits⟩ | hold
    · exact hadmits.inside
    · exact h.inside hold
  · rcases hedge he with ⟨rfl, hadmits⟩ | hold
    · exact hadmits.target
    · exact h.target hold

theorem WellFormed.setTime (h : v.WellFormed) (file : String) (time : Double) :
    (v.setTime file time).WellFormed :=
  ⟨h.id, h.node, h.key, h.source, h.inside, h.target, h.weight⟩

/-! ## Pruning -/

/-- What an edge touches stays. -/
theorem node?_prune_of_touched {kinds : List String} {id : String} (h : v.Touched id) :
    (v.prune kinds).node? id = v.node? id := by
  ext n
  rw [node?_prune, and_iff_left (.inr h)]

theorem WellFormed.prune (h : v.WellFormed) (kinds : List String) : (v.prune kinds).WellFormed := by
  refine ⟨fun hn => h.id (node?_prune.mp hn).1, fun hn => h.node (node?_prune.mp hn).1, h.key, fun {k e} he => ?_,
    h.inside, fun {k e} he => ?_, h.weight⟩
  · have he' : v.edge? k = some e := he
    rw [node?_prune_of_touched ⟨k, by rw [he']; rfl, .inl rfl⟩]
    exact h.source he'
  · have he' : v.edge? k = some e := he
    rw [node?_prune_of_touched ⟨k, by rw [he']; rfl, .inr rfl⟩]
    exact h.target he'

end View

end CodeIndex.Graph
