import Mathlib.Data.Prod.Lex
import CodeIndex.Graph.Memory
import CodeIndex.Proofs.Graph.View
import CodeIndex.Proofs.Rows

/-!
# Graphs in memory are lawful

Nodes and times stay in the order of their keys and edges in the order of their places, so that each key
occurs once.
-/

namespace CodeIndex.Graph

/-! ## The order of edges -/

/-- Source, target and rank of the kind, compared in this order. -/
def Edge.place (e : Edge) : String ×ₗ String ×ₗ Nat :=
  toLex (e.source, toLex (e.target, e.kind.rank))

theorem EdgeKind.rank_injective : Function.Injective EdgeKind.rank := by
  intro a b h
  cases a <;> cases b <;> first | rfl | cases h

theorem Edge.le_iff (a b : Edge) : a.le b = true ↔ a.place ≤ b.place := by
  simp only [Edge.le, place, Prod.Lex.toLex_le_toLex]
  split
  · next h =>
    split
    · next h' => simp [h, h']
    · next h' => simp [h, h', lt_iff_le_and_ne]
  · next h => simp [h, lt_iff_le_and_ne]

theorem Edge.place_eq_iff (a b : Edge) : a.place = b.place ↔ a.key = b.key := by
  simp [place, key, EdgeKind.rank_injective.eq_iff]

namespace MemoryGraph

variable {g : MemoryGraph} {edges : List Edge}

theorem mem_insertEdge {e f : Edge} (h : f ∈ insertEdge e edges) : f = e ∨ f ∈ edges := by
  induction edges with
  | nil => simpa [insertEdge] using h
  | cons a rest ih =>
    rw [insertEdge] at h
    split at h
    · exact (List.mem_cons.mp h).imp_right (List.mem_cons_of_mem _)
    · split at h
      · exact List.mem_cons.mp h
      · rcases List.mem_cons.mp h with rfl | h
        · exact .inr List.mem_cons_self
        · exact (ih h).imp_right (List.mem_cons_of_mem _)

theorem ascending_insertEdge (h : edges.Pairwise fun a b => a.place < b.place) (e : Edge) :
    (insertEdge e edges).Pairwise fun a b => a.place < b.place := by
  induction edges with
  | nil => exact List.pairwise_singleton _ _
  | cons a rest ih =>
    obtain ⟨hfirst, hrest⟩ := List.pairwise_cons.mp h
    rw [insertEdge]
    split
    · next hsame =>
      have hplace := (Edge.place_eq_iff e a).mpr ((Edge.sameKey_iff e a).mp hsame)
      exact List.pairwise_cons.mpr ⟨fun b hb => hplace ▸ hfirst b hb, hrest⟩
    · next hother =>
      have hne : e.place ≠ a.place := fun heq =>
        hother ((Edge.sameKey_iff e a).mpr ((Edge.place_eq_iff e a).mp heq))
      split
      · next hle =>
        have hlt := lt_of_le_of_ne ((Edge.le_iff e a).mp hle) hne
        refine List.pairwise_cons.mpr ⟨fun b hb => ?_, h⟩
        rcases List.mem_cons.mp hb with rfl | hb
        · exact hlt
        · exact lt_trans hlt (hfirst b hb)
      · next hgt =>
        refine List.pairwise_cons.mpr ⟨fun b hb => ?_, ih hrest⟩
        rcases mem_insertEdge hb with rfl | hb
        · exact lt_of_le_of_ne (le_of_not_ge fun hle => hgt ((Edge.le_iff b a).mpr hle)) (Ne.symm hne)
        · exact hfirst b hb

theorem find?_insertEdge (e : Edge) (edges : List Edge) (k : EdgeKey) :
    (insertEdge e edges).find? (·.key = k) = if e.key = k then some e else edges.find? (·.key = k) := by
  induction edges with
  | nil => simp [insertEdge, List.find?_singleton]
  | cons a rest ih =>
    rw [insertEdge]
    split
    · next hsame =>
      have hkey := (Edge.sameKey_iff e a).mp hsame
      by_cases hk : e.key = k
      · simp [hk]
      · simp [hk, hkey ▸ hk]
    · next hother =>
      have hne : e.key ≠ a.key := fun heq => hother ((Edge.sameKey_iff e a).mpr heq)
      split
      · by_cases hk : e.key = k <;> simp [List.find?_cons, hk]
      · rw [List.find?_cons, List.find?_cons, ih]
        by_cases ha : a.key = k
        · simp [ha, ha ▸ hne]
        · simp [ha]

/-! ## The laws -/

/-- Each part in its order, and nodes under their ids. -/
structure InOrder (g : MemoryGraph) : Prop where
  nodes : Dict.Sorted g.nodes
  ids : ∀ entry ∈ g.nodes, entry.2.id = entry.1
  edges : g.edges.Pairwise fun a b => a.place < b.place
  mtimes : Dict.Sorted g.mtimes

def view (g : MemoryGraph) : View where
  node? id := g.nodes.lookup id
  edge? k := g.edges.find? (·.key = k)
  time? file := g.mtimes.lookup file

theorem InOrder.keyed (h : g.InOrder) : Keyed Edge.key g.edges :=
  h.edges.imp fun hlt heq => ne_of_lt hlt ((Edge.place_eq_iff _ _).mpr heq)

theorem InOrder.edge?_eq_some (h : g.InOrder) {k : EdgeKey} {e : Edge} :
    g.view.edge? k = some e ↔ e ∈ g.edges ∧ e.key = k :=
  h.keyed.find?_eq_some

theorem InOrder.node?_eq_some (h : g.InOrder) {id : String} {n : Node} :
    g.view.node? id = some n ↔ (id, n) ∈ g.nodes :=
  ⟨Dict.mem_of_lookup, Dict.lookup_of_mem h.nodes.nodup⟩

theorem hasFile_iff {file id : String} : g.hasFile file id = true ↔ g.view.HasFile file id := by
  simp [hasFile, View.HasFile, view, Option.any_eq_true]

theorem InOrder.touches_iff (h : g.InOrder) {id : String} : g.touches id = true ↔ g.view.Touched id := by
  simp only [touches, View.Touched, Option.isSome_iff_exists, h.edge?_eq_some, List.any_eq_true,
    Bool.or_eq_true, decide_eq_true_eq]
  constructor
  · rintro ⟨e, he, hid⟩
    exact ⟨e.key, ⟨e, he, rfl⟩, hid⟩
  · rintro ⟨_, ⟨e, he, rfl⟩, hid⟩
    exact ⟨e, he, hid⟩

theorem InOrder.view_deleteFile (h : g.InOrder) (file : String) :
    (Store.deleteFile file g).view = g.view.deleteFile file := by
  ext1
  · funext id
    refine (Dict.lookup_filter h.nodes.nodup (·.2.file != file) id).trans ?_
    ext n
    rw [View.node?_deleteFile, Option.filter_eq_some_iff, bne_iff_ne]
    rfl
  · funext k
    refine (find?_filter_key Edge.key g.edges
      (fun k => !g.hasFile file k.source && !g.hasFile file k.target) k).trans ?_
    ext e
    rw [View.edge?_deleteFile, ← hasFile_iff, ← hasFile_iff]
    cases g.hasFile file k.source <;> cases g.hasFile file k.target <;> simp [view]
  · funext f
    refine (Dict.lookup_filter h.mtimes.nodup (·.1 != file) f).trans ?_
    change _ = if f = file then none else g.mtimes.lookup f
    ext time
    by_cases hf : f = file <;> simp [hf, Option.filter_eq_some_iff]

theorem InOrder.view_prune (h : g.InOrder) (kinds : List String) :
    (Store.prune kinds g).view = g.view.prune kinds := by
  ext1
  · funext id
    refine (Dict.lookup_filter h.nodes.nodup (fun e => !kinds.contains e.2.kind || g.touches e.1) id).trans ?_
    ext n
    rw [View.node?_prune, Option.filter_eq_some_iff, ← h.touches_iff]
    simp [view]
  · rfl
  · rfl

theorem view_putEdge (g : MemoryGraph) (e : Edge) : (Store.putEdge e g).view = g.view.putEdges [e] := by
  ext1
  · rfl
  · funext k
    refine (find?_insertEdge e g.edges k).trans ?_
    simp only [View.putEdges, latest_cons, latest_nil, Option.none_or]
    split <;> rfl
  · rfl

theorem view_setMtime (g : MemoryGraph) (file : String) (time : Double) :
    (Store.setMtime file time g).view = g.view.setTime file time := by
  ext1
  · rfl
  · rfl
  · funext f
    exact Dict.lookup_put file f time g.mtimes

instance : LawfulStore MemoryGraph where
  Valid := InOrder
  view := view
  valid_empty := ⟨.nil, by simp [Store.empty], .nil, .nil⟩
  view_empty := rfl
  valid_putNode {g} h n := by
    refine ⟨h.nodes.put n.id n, fun entry hentry => ?_, h.edges, h.mtimes⟩
    rcases Dict.mem_put hentry with rfl | hentry
    · rfl
    · exact h.ids entry hentry
  view_putNode {g} _ n := by
    ext1
    · funext id
      refine (Dict.lookup_put n.id id n g.nodes).trans ?_
      simp only [View.putNodes, latest_cons, latest_nil, Option.none_or]
      by_cases hid : id = n.id
      · simp [hid]
      · simp [hid, Ne.symm hid, view]
    · rfl
    · rfl
  valid_putEdge h e := ⟨h.nodes, h.ids, ascending_insertEdge h.edges e, h.mtimes⟩
  view_putEdge {g} _ e _ := view_putEdge g e
  valid_setMtime h file time := ⟨h.nodes, h.ids, h.edges, h.mtimes.put file time⟩
  view_setMtime {g} _ file time _ := view_setMtime g file time
  valid_deleteFile h file :=
    ⟨h.nodes.sublist List.filter_sublist, fun e he => h.ids e (List.mem_of_mem_filter he),
      h.edges.sublist List.filter_sublist, h.mtimes.sublist List.filter_sublist⟩
  view_deleteFile h file := h.view_deleteFile file
  valid_prune h kinds :=
    ⟨h.nodes.sublist List.filter_sublist, fun e he => h.ids e (List.mem_of_mem_filter he), h.edges, h.mtimes⟩
  view_prune h kinds := h.view_prune kinds
  node?_eq _ _ := rfl
  mtime?_eq _ _ := rfl
  mem_indexedFiles _ file := by
    simp [Store.indexedFiles, view, lookup_eq_find?]
  nodup_indexedFiles h := h.mtimes.nodup
  mem_find {g} h q n := by
    rw [h.node?_eq_some]
    simp only [Store.find, List.mem_mergeSort, List.mem_filter, List.mem_map]
    refine and_congr_left fun _ => ⟨fun ⟨entry, hentry, heq⟩ => ?_, fun hn => ⟨_, hn, rfl⟩⟩
    rw [← heq, h.ids entry hentry]
    exact hentry
  nodup_find {g} h q := by
    refine (List.mergeSort_perm _ _).nodup_iff.mpr (List.Nodup.filter _ (List.pairwise_map.mpr ?_))
    refine h.nodes.imp_of_mem fun ha hb hlt heq => ne_of_lt hlt ?_
    rw [← h.ids _ ha, ← h.ids _ hb, heq]
  mem_allEdges {g} h e := by
    rw [h.edge?_eq_some]
    simp [Store.allEdges]
  mem_incoming {g} h file e := by
    rw [h.edge?_eq_some, ← hasFile_iff, ← hasFile_iff]
    simp [Store.incoming]
  id_of_node? h _ _ hn := h.ids _ (h.node?_eq_some.mp hn)
  key_of_edge? h _ _ he := (h.edge?_eq_some.mp he).2

end MemoryGraph

end CodeIndex.Graph
