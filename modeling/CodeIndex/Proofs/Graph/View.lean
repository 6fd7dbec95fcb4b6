import Mathlib.Data.List.Nodup
import Mathlib.Tactic.Tauto
import CodeIndex.Graph.Pass
import CodeIndex.Proofs.Candidate

/-!
# Stores as maps

A store of a graph is seen through a `View`: nodes by id, edges by their ends and kind, times by file. A
`LawfulStore` says what each operation does to the view and what each question reads from it, so that a pass
can be followed on views alone. Rows that are put later under one key win: `latest` is the row that stays.
-/

namespace CodeIndex.Graph

/-- What tells edges apart. -/
@[ext]
structure EdgeKey where
  source : String
  target : String
  kind : EdgeKind
  deriving DecidableEq, Repr

def Edge.key (e : Edge) : EdgeKey := ⟨e.source, e.target, e.kind⟩

theorem Edge.sameKey_iff (a b : Edge) : a.sameKey b = true ↔ a.key = b.key := by
  simp [sameKey, key, and_assoc]

/-! ## The last row of a key -/

section Latest

variable {α κ : Type} [DecidableEq κ] {key : α → κ} {rows more : List α} {row : α} {k : κ}

def latest (key : α → κ) (rows : List α) (k : κ) : Option α :=
  rows.reverse.find? fun row => key row = k

@[simp]
theorem latest_nil (key : α → κ) (k : κ) : latest key [] k = none := rfl

theorem latest_append (key : α → κ) (rows more : List α) (k : κ) :
    latest key (rows ++ more) k = (latest key more k).or (latest key rows k) := by
  rw [latest, List.reverse_append, List.find?_append]
  rfl

theorem latest_cons (key : α → κ) (row : α) (rows : List α) (k : κ) :
    latest key (row :: rows) k = (latest key rows k).or (if key row = k then some row else none) := by
  rw [← List.singleton_append, latest_append]
  congr 1
  by_cases h : key row = k <;> simp [latest, h]

theorem mem_of_latest (h : latest key rows k = some row) : row ∈ rows :=
  List.mem_reverse.mp (List.mem_of_find?_eq_some h)

theorem key_of_latest (h : latest key rows k = some row) : key row = k := by
  simpa using List.find?_some h

theorem latest_eq_none_iff : latest key rows k = none ↔ ∀ row ∈ rows, key row ≠ k := by
  simp [latest]

theorem isSome_latest (h : row ∈ rows) : (latest key rows (key row)).isSome := by
  rw [Option.isSome_iff_ne_none, Ne, latest_eq_none_iff]
  exact fun hnone => hnone row h rfl

/-- Where rows of one key are equal, the last one is any. -/
theorem latest_eq_some_of_mem (hunique : ∀ a ∈ rows, ∀ b ∈ rows, key a = key b → a = b) (h : row ∈ rows) :
    latest key rows (key row) = some row := by
  obtain ⟨other, hother⟩ := Option.isSome_iff_exists.mp (@isSome_latest _ _ _ key _ _ h)
  rw [hother, hunique other (mem_of_latest hother) row h (key_of_latest hother)]

theorem find?_key_eq_none (h : k ∉ rows.map key) : rows.find? (key · = k) = none := by
  rw [List.find?_eq_none]
  exact fun row hrow heq => h (List.mem_map.mpr ⟨row, hrow, of_decide_eq_true heq⟩)

/-- Where no key comes twice, the last row of a key is the first. -/
theorem latest_eq_find? (h : (rows.map key).Nodup) (k : κ) : latest key rows k = rows.find? (key · = k) := by
  induction rows with
  | nil => rfl
  | cons row rows ih =>
    obtain ⟨hrow, hrest⟩ := List.nodup_cons.mp h
    rw [latest_cons, ih hrest, List.find?_cons]
    by_cases hk : key row = k
    · simp [hk, find?_key_eq_none (hk ▸ hrow)]
    · simp [hk]

/-- Where each part has keys of its own, the last row of a key is that of its part. -/
theorem latest_flatMap {β ι : Type} [DecidableEq ι] {name : β → ι} (home : κ → ι) {parts : List β}
    {g : β → List α} (hnodup : (parts.map name).Nodup)
    (hhome : ∀ b ∈ parts, ∀ row ∈ g b, home (key row) = name b) (k : κ) :
    latest key (parts.flatMap g) k = (parts.find? (name · = home k)).bind fun b => latest key (g b) k := by
  induction parts with
  | nil => rfl
  | cons b parts ih =>
    obtain ⟨hb, hrest⟩ := List.nodup_cons.mp hnodup
    have ih := ih hrest fun c hc => hhome c (List.mem_cons_of_mem b hc)
    rw [List.flatMap_cons, latest_append, ih, List.find?_cons]
    by_cases hk : name b = home k
    · simp [hk, find?_key_eq_none (hk ▸ hb)]
    · have hnone : latest key (g b) k = none := latest_eq_none_iff.mpr fun row hrow heq =>
        hk ((hhome b List.mem_cons_self row hrow).symm.trans (congrArg home heq))
      simp [hk, hnone]

end Latest

/-! ## Views -/

/-- Nodes by id, edges by key and times by file. -/
@[ext]
structure View where
  node? : String → Option Node
  edge? : EdgeKey → Option Edge
  time? : String → Option Double

namespace View

def empty : View := ⟨fun _ => none, fun _ => none, fun _ => none⟩

def putNodes (ns : List Node) (v : View) : View :=
  { v with node? := fun id => (latest Node.id ns id).or (v.node? id) }

def putEdges (es : List Edge) (v : View) : View :=
  { v with edge? := fun k => (latest Edge.key es k).or (v.edge? k) }

def setTime (file : String) (time : Double) (v : View) : View :=
  { v with time? := fun f => if f = file then some time else v.time? f }

/-- The node of an id belongs to a file. -/
def HasFile (v : View) (file id : String) : Prop :=
  ∃ n, v.node? id = some n ∧ n.file = file

/-- An edge starts or ends at an id. -/
def Touched (v : View) (id : String) : Prop :=
  ∃ k, (v.edge? k).isSome ∧ (k.source = id ∨ k.target = id)

open Classical in
noncomputable def deleteFile (file : String) (v : View) : View where
  node? id := (v.node? id).filter (·.file ≠ file)
  edge? k := if v.HasFile file k.source ∨ v.HasFile file k.target then none else v.edge? k
  time? f := if f = file then none else v.time? f

open Classical in
noncomputable def prune (kinds : List String) (v : View) : View :=
  { v with node? := fun id => (v.node? id).filter fun n => n.kind ∉ kinds ∨ v.Touched id }

end View

/-- A store whose operations are those of the maps that it stands for. Edges are put without a weight and times
are no negative numbers. -/
class LawfulStore (σ : Type) [Store σ] where
  Valid : σ → Prop
  view : σ → View
  valid_empty : Valid (Store.empty : σ)
  view_empty : view (Store.empty : σ) = .empty
  valid_putNode {s : σ} (h : Valid s) (n : Node) : Valid (Store.putNode n s)
  view_putNode {s : σ} (h : Valid s) (n : Node) : view (Store.putNode n s) = (view s).putNodes [n]
  valid_putEdge {s : σ} (h : Valid s) (e : Edge) : Valid (Store.putEdge e s)
  view_putEdge {s : σ} (h : Valid s) {e : Edge} (hweight : e.weight = none) :
    view (Store.putEdge e s) = (view s).putEdges [e]
  valid_setMtime {s : σ} (h : Valid s) (file : String) (time : Double) : Valid (Store.setMtime file time s)
  view_setMtime {s : σ} (h : Valid s) (file : String) {time : Double} (htime : time.IsTime) :
    view (Store.setMtime file time s) = (view s).setTime file time
  valid_deleteFile {s : σ} (h : Valid s) (file : String) : Valid (Store.deleteFile file s)
  view_deleteFile {s : σ} (h : Valid s) (file : String) :
    view (Store.deleteFile file s) = (view s).deleteFile file
  valid_prune {s : σ} (h : Valid s) (kinds : List String) : Valid (Store.prune kinds s)
  view_prune {s : σ} (h : Valid s) (kinds : List String) : view (Store.prune kinds s) = (view s).prune kinds
  node?_eq {s : σ} (h : Valid s) (id : String) : Store.node? s id = (view s).node? id
  mtime?_eq {s : σ} (h : Valid s) (file : String) : Store.mtime? s file = (view s).time? file
  mem_indexedFiles {s : σ} (h : Valid s) {file : String} :
    file ∈ Store.indexedFiles s ↔ ((view s).time? file).isSome
  nodup_indexedFiles {s : σ} (h : Valid s) : (Store.indexedFiles s).Nodup
  mem_find {s : σ} (h : Valid s) {q : NodeQuery} {n : Node} :
    n ∈ Store.find s q ↔ (view s).node? n.id = some n ∧ q.holds n = true
  nodup_find {s : σ} (h : Valid s) (q : NodeQuery) : (Store.find s q).Nodup
  mem_allEdges {s : σ} (h : Valid s) {e : Edge} : e ∈ Store.allEdges s ↔ (view s).edge? e.key = some e
  mem_incoming {s : σ} (h : Valid s) {file : String} {e : Edge} :
    e ∈ Store.incoming s file ↔
      (view s).edge? e.key = some e ∧ (view s).HasFile file e.target ∧ ¬(view s).HasFile file e.source
  id_of_node? {s : σ} (h : Valid s) {id : String} {n : Node} (hn : (view s).node? id = some n) : n.id = id
  key_of_edge? {s : σ} (h : Valid s) {k : EdgeKey} {e : Edge} (he : (view s).edge? k = some e) : e.key = k

namespace View

variable {v : View}

theorem putNodes_append (v : View) (ns ms : List Node) :
    (v.putNodes ns).putNodes ms = v.putNodes (ns ++ ms) := by
  ext1 <;> simp [putNodes, latest_append, Option.or_assoc]

theorem putEdges_append (v : View) (es fs : List Edge) :
    (v.putEdges es).putEdges fs = v.putEdges (es ++ fs) := by
  ext1 <;> simp [putEdges, latest_append, Option.or_assoc]

theorem node?_deleteFile {file id : String} {n : Node} :
    (v.deleteFile file).node? id = some n ↔ v.node? id = some n ∧ n.file ≠ file := by
  simp [deleteFile, Option.filter_eq_some_iff]

theorem edge?_deleteFile {file : String} {k : EdgeKey} {e : Edge} :
    (v.deleteFile file).edge? k = some e ↔
      v.edge? k = some e ∧ ¬v.HasFile file k.source ∧ ¬v.HasFile file k.target := by
  unfold deleteFile
  dsimp only
  split
  · next h => simp only [reduceCtorEq, false_iff]; tauto
  · next h => tauto

theorem node?_prune {kinds : List String} {id : String} {n : Node} :
    (v.prune kinds).node? id = some n ↔ v.node? id = some n ∧ (n.kind ∉ kinds ∨ v.Touched id) := by
  simp [prune, Option.filter_eq_some_iff]

theorem prune_nil (v : View) : v.prune [] = v := by
  ext1
  · funext id
    ext n
    simp [node?_prune]
  · rfl
  · rfl

/-- Kinds can be pruned one by one. -/
theorem prune_prune (v : View) (kind : String) (kinds : List String) :
    (v.prune [kind]).prune kinds = v.prune (kind :: kinds) := by
  have htouched : ∀ id, (v.prune [kind]).Touched id ↔ v.Touched id := fun _ => Iff.rfl
  ext1
  · funext id
    ext n
    simp only [node?_prune, htouched, List.mem_cons, List.not_mem_nil]
    tauto
  · rfl
  · rfl

end View

namespace LawfulStore

variable {σ : Type} [Store σ] [LawfulStore σ] {s : σ}

theorem apply_nodes (h : Valid s) (ns : List Node) :
    Valid ((Write.nodes ns).apply s) ∧ view ((Write.nodes ns).apply s) = (view s).putNodes ns := by
  change Valid (ns.foldl _ s) ∧ view (ns.foldl _ s) = _
  induction ns generalizing s with
  | nil => exact ⟨h, rfl⟩
  | cons n ns ih =>
    obtain ⟨hvalid, hview⟩ := ih (valid_putNode h n)
    refine ⟨hvalid, ?_⟩
    rw [List.foldl_cons, hview, view_putNode h, View.putNodes_append]
    rfl

theorem apply_edges (h : Valid s) {es : List Edge} (hweights : ∀ e ∈ es, e.weight = none) :
    Valid ((Write.edges es).apply s) ∧ view ((Write.edges es).apply s) = (view s).putEdges es := by
  change Valid (es.foldl _ s) ∧ view (es.foldl _ s) = _
  induction es generalizing s with
  | nil => exact ⟨h, rfl⟩
  | cons e es ih =>
    obtain ⟨hvalid, hview⟩ := ih (valid_putEdge h e) fun e' he' => hweights e' (List.mem_cons_of_mem e he')
    refine ⟨hvalid, ?_⟩
    rw [List.foldl_cons, hview, view_putEdge h (hweights e List.mem_cons_self), View.putEdges_append]
    rfl

theorem apply_nodes_edges (h : Valid s) (ns : List Node) {es : List Edge} (hweights : ∀ e ∈ es, e.weight = none) :
    Valid ((Write.edges es).apply ((Write.nodes ns).apply s)) ∧
      view ((Write.edges es).apply ((Write.nodes ns).apply s)) = ((view s).putNodes ns).putEdges es := by
  obtain ⟨hvalid, hview⟩ := apply_nodes h ns
  rw [← hview]
  exact apply_edges hvalid hweights

end LawfulStore

end CodeIndex.Graph
