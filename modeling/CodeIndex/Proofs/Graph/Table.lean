import CodeIndex.Graph.Table
import CodeIndex.Proofs.Graph.View
import CodeIndex.Proofs.Rows

/-!
# Graphs in tables are lawful

Every operation keeps one row a key, so a row is found by its key, and replacing it in its place is the same
as putting it last.
-/

namespace CodeIndex

/-- An edge as a table keeps it. -/
def Graph.Edge.stored (e : Edge) : Edge := { e with weight := e.weight.bind TableGraph.stored }

namespace Graph.TableGraph

section Upsert

variable {α κ : Type} {key : α → κ} {sameKey : α → α → Bool} {rows : List α}

/-- A row that takes the place of another has its key. -/
theorem key_replaced (hsame : ∀ a b, sameKey a b = true ↔ key a = key b) (row r : α) :
    key (if sameKey row r then row else r) = key r := by
  split
  · next heq => exact (hsame row r).mp heq
  · rfl

theorem keyed_upsert (hsame : ∀ a b, sameKey a b = true ↔ key a = key b) (h : Keyed key rows) (row : α) :
    Keyed key (upsert sameKey row rows) := by
  unfold upsert
  split
  · unfold Keyed
    rw [List.pairwise_map]
    exact h.imp fun hne => by rwa [key_replaced hsame, key_replaced hsame]
  · next hnone =>
    refine List.pairwise_append.mpr ⟨h, List.pairwise_singleton _ _, fun a ha b hb => ?_⟩
    obtain rfl := List.mem_singleton.mp hb
    intro heq
    exact hnone (List.any_eq_true.mpr ⟨a, ha, (hsame b a).mpr heq.symm⟩)

theorem find?_upsert [DecidableEq κ] (hsame : ∀ a b, sameKey a b = true ↔ key a = key b) (row : α)
    (rows : List α) (k : κ) :
    (upsert sameKey row rows).find? (fun r => key r = k) =
      if key row = k then some row else rows.find? (fun r => key r = k) := by
  unfold upsert
  split
  · next hany =>
    rw [List.find?_map]
    simp only [Function.comp_def, key_replaced hsame]
    by_cases hk : key row = k
    · subst hk
      obtain ⟨r, hr, heq⟩ := List.any_eq_true.mp hany
      have hsome : (rows.find? fun r => key r = key row).isSome :=
        List.find?_isSome.mpr ⟨r, hr, by simpa using ((hsame row r).mp heq).symm⟩
      obtain ⟨found, hfound⟩ := Option.isSome_iff_exists.mp hsome
      have hkey : key found = key row := by simpa using List.find?_some hfound
      rw [hfound, if_pos rfl, Option.map_some, if_pos ((hsame row found).mpr hkey.symm)]
    · rw [if_neg hk]
      cases hfound : rows.find? fun r => key r = k with
      | none => rfl
      | some found =>
        have hkey : key found = k := by simpa using List.find?_some hfound
        rw [Option.map_some, if_neg fun heq => hk (((hsame row found).mp heq).trans hkey)]
  · next hnone =>
    rw [List.find?_append, List.find?_singleton]
    by_cases hk : key row = k
    · have : rows.find? (fun r => key r = k) = none := by
        rw [List.find?_eq_none]
        intro r hr heq
        exact hnone (List.any_eq_true.mpr ⟨r, hr, (hsame row r).mpr (hk.trans (of_decide_eq_true heq).symm)⟩)
      simp [this, hk]
    · simp [hk]

end Upsert

/-- One row a key in each table. -/
structure OneRowAKey (g : TableGraph) : Prop where
  nodes : Keyed Node.id g.nodes
  edges : Keyed Edge.key g.edges
  mtimes : Keyed Prod.fst g.mtimes

def view (g : TableGraph) : View where
  node? id := g.nodes.find? (·.id = id)
  edge? k := g.edges.find? (·.key = k)
  time? file := g.mtimes.lookup file

theorem sameId_iff (a b : Node) : decide (a.id = b.id) = true ↔ a.id = b.id :=
  decide_eq_true_iff

theorem sameFile_iff (a b : String × Double) : decide (a.1 = b.1) = true ↔ a.1 = b.1 :=
  decide_eq_true_iff

variable {g : TableGraph}

theorem OneRowAKey.node?_eq_some (h : g.OneRowAKey) {id : String} {n : Node} :
    g.view.node? id = some n ↔ n ∈ g.nodes ∧ n.id = id :=
  h.nodes.find?_eq_some

theorem OneRowAKey.edge?_eq_some (h : g.OneRowAKey) {k : EdgeKey} {e : Edge} :
    g.view.edge? k = some e ↔ e ∈ g.edges ∧ e.key = k :=
  h.edges.find?_eq_some

theorem OneRowAKey.contains_idsOf (h : g.OneRowAKey) {file id : String} :
    (g.idsOf file).contains id = true ↔ g.view.HasFile file id := by
  simp only [idsOf, List.contains_iff_mem, List.mem_map, List.mem_filter, decide_eq_true_eq, View.HasFile,
    h.node?_eq_some]
  constructor
  · rintro ⟨n, ⟨hn, hfile⟩, hid⟩
    exact ⟨n, ⟨hn, hid⟩, hfile⟩
  · rintro ⟨n, ⟨hn, hid⟩, hfile⟩
    exact ⟨n, ⟨hn, hfile⟩, hid⟩

theorem OneRowAKey.view_deleteFile (h : g.OneRowAKey) (file : String) :
    (Store.deleteFile file g).view = g.view.deleteFile file := by
  ext1
  · funext id
    refine (h.nodes.find?_filter (·.file != file) id).trans ?_
    ext n
    rw [View.node?_deleteFile, Option.filter_eq_some_iff, bne_iff_ne]
    rfl
  · funext k
    refine (find?_filter_key Edge.key g.edges
      (fun k => !((g.idsOf file).contains k.source || (g.idsOf file).contains k.target)) k).trans ?_
    ext e
    rw [View.edge?_deleteFile, ← h.contains_idsOf, ← h.contains_idsOf]
    cases (g.idsOf file).contains k.source <;> cases (g.idsOf file).contains k.target <;> simp [view]
  · funext f
    change (g.mtimes.filter fun e => (fun key => key != file) e.1).lookup f = if f = file then none else _
    rw [lookup_eq_find?, find?_filter_key Prod.fst g.mtimes (· != file)]
    by_cases hf : f = file
    · simp [hf]
    · simp [hf, view, lookup_eq_find?]

theorem OneRowAKey.pruneKind (h : g.OneRowAKey) (kind : String) :
    (g.pruneKind kind).OneRowAKey ∧ (g.pruneKind kind).view = g.view.prune [kind] := by
  refine ⟨⟨h.nodes.filter _, h.edges, h.mtimes⟩, ?_⟩
  have htouched : ∀ id, g.view.Touched id ↔
      (g.edges.any (·.source = id) || g.edges.any (·.target = id)) = true := by
    intro id
    simp only [View.Touched, Option.isSome_iff_exists, h.edge?_eq_some, Bool.or_eq_true, List.any_eq_true,
      decide_eq_true_eq]
    constructor
    · rintro ⟨_, ⟨e, he, rfl⟩, hid⟩
      exact hid.imp (⟨e, he, ·⟩) (⟨e, he, ·⟩)
    · rintro (⟨e, he, hid⟩ | ⟨e, he, hid⟩)
      · exact ⟨e.key, ⟨e, he, rfl⟩, .inl hid⟩
      · exact ⟨e.key, ⟨e, he, rfl⟩, .inr hid⟩
  ext1
  · funext id
    refine (h.nodes.find?_filter _ id).trans ?_
    ext n
    rw [View.node?_prune, Option.filter_eq_some_iff, htouched]
    refine and_congr_right fun hn => ?_
    obtain rfl := (h.node?_eq_some.mp hn).2
    cases g.edges.any (·.source = n.id) <;> cases g.edges.any (·.target = n.id) <;> simp
  · rfl
  · rfl

theorem OneRowAKey.prune (h : g.OneRowAKey) (kinds : List String) :
    (Store.prune kinds g).OneRowAKey ∧ (Store.prune kinds g).view = g.view.prune kinds := by
  change (kinds.foldl _ g).OneRowAKey ∧ (kinds.foldl _ g).view = _
  induction kinds generalizing g with
  | nil => exact ⟨h, (View.prune_nil _).symm⟩
  | cons kind kinds ih =>
    obtain ⟨hkind, hview⟩ := h.pruneKind kind
    rw [List.foldl_cons, ← View.prune_prune, ← hview]
    exact ih hkind

/-- A column of numbers keeps times as they are. -/
theorem stored_of_isTime {time : Double} (h : time.IsTime) : stored time = some time := by
  unfold stored
  rw [if_neg (by simp [h.number])]
  split
  · next hkey => rw [h.eq_zero hkey]
  · rfl

theorem view_putEdge (g : TableGraph) (e : Edge) :
    (Store.putEdge e g).view = g.view.putEdges [e.stored] := by
  ext1
  · rfl
  · funext k
    refine (find?_upsert Edge.sameKey_iff e.stored g.edges k).trans ?_
    simp only [View.putEdges, latest_cons, latest_nil, Option.none_or]
    split <;> rfl
  · rfl

theorem view_setMtime (g : TableGraph) (file : String) (time : Double) :
    (Store.setMtime file time g).view = g.view.setTime file ((stored time).getD time) := by
  ext1
  · rfl
  · rfl
  · funext f
    change (upsert (·.1 = ·.1) (file, (stored time).getD time) g.mtimes).lookup f = _
    rw [lookup_eq_find?, find?_upsert sameFile_iff, View.setTime]
    by_cases hf : f = file
    · simp [hf]
    · simp [hf, Ne.symm hf, view, lookup_eq_find?]

instance : LawfulStore TableGraph where
  Valid := OneRowAKey
  view := view
  valid_empty := ⟨.nil, .nil, .nil⟩
  view_empty := rfl
  valid_putNode h n := ⟨keyed_upsert sameId_iff h.nodes n, h.edges, h.mtimes⟩
  view_putNode _ n := by
    ext1
    · funext id
      refine (find?_upsert sameId_iff n _ id).trans ?_
      simp only [View.putNodes, latest_cons, latest_nil, Option.none_or]
      split <;> rfl
    · rfl
    · rfl
  valid_putEdge h e := ⟨h.nodes, keyed_upsert Edge.sameKey_iff h.edges _, h.mtimes⟩
  view_putEdge {s} _ e hweight := by
    have hstored : e.stored = e := by
      cases e
      cases hweight
      rfl
    rw [view_putEdge, hstored]
  valid_setMtime h file time := ⟨h.nodes, h.edges, keyed_upsert sameFile_iff h.mtimes _⟩
  view_setMtime {s} _ file time htime := by
    rw [view_setMtime, stored_of_isTime htime, Option.getD_some]
  valid_deleteFile h file := ⟨h.nodes.filter _, h.edges.filter _, h.mtimes.filter _⟩
  view_deleteFile h file := h.view_deleteFile file
  valid_prune h kinds := (h.prune kinds).1
  view_prune h kinds := (h.prune kinds).2
  node?_eq h id := rfl
  mtime?_eq h file := rfl
  mem_indexedFiles _ file := by
    simp [Store.indexedFiles, view, lookup_eq_find?]
  nodup_indexedFiles h := (List.mergeSort_perm _ _).nodup_iff.mpr (List.pairwise_map.mpr h.mtimes)
  mem_find h q n := by
    rw [h.node?_eq_some]
    simp [Store.find]
  nodup_find h q := (List.mergeSort_perm _ _).nodup_iff.mpr (h.nodes.filter _).nodup
  mem_allEdges h e := by
    rw [h.edge?_eq_some]
    simp [Store.allEdges]
  mem_incoming h file e := by
    rw [h.edge?_eq_some, ← h.contains_idsOf, ← h.contains_idsOf]
    simp [Store.incoming, incoming]
  id_of_node? h _ _ hn := (h.node?_eq_some.mp hn).2
  key_of_edge? h _ _ he := (h.edge?_eq_some.mp he).2

end Graph.TableGraph

end CodeIndex
