import Mathlib.Order.WithBot
import CodeIndex.Proofs.Graph.Memory
import CodeIndex.Proofs.Graph.Table

/-!
# A graph in tables agrees with one in memory

Both stores take the same requests from their empty state. A table keeps a number without the sign of a zero,
so the tables hold what the memory holds, seen through `View.stored`; every request keeps that (`Agrees.run`),
and from it follows that both give the same answers (`SameAnswers`). A time that is no number is the only
request that one of them refuses.
-/

namespace CodeIndex.Graph

/-! ## The order of nodes -/

/-- A line among lines; no line is the least. -/
def lineRank : Option Int → Bool ×ₗ Int
  | none => toLex (false, 0)
  | some line => toLex (true, line)

theorem lineRank_injective : Function.Injective lineRank := by
  rintro (_ | a) (_ | b) h <;> simp_all [lineRank]

theorem leLine_iff (a b : Option Int) : leLine a b = true ↔ lineRank a ≤ lineRank b := by
  cases a <;> cases b <;> simp [leLine, lineRank, Prod.Lex.toLex_le_toLex]

/-- File, line and name, compared in this order. -/
def Node.place (n : Node) : String ×ₗ (Bool ×ₗ Int) ×ₗ String :=
  toLex (n.file, toLex (lineRank n.line, n.name))

theorem Node.le_iff (a b : Node) : a.le b = true ↔ a.place ≤ b.place := by
  simp only [Node.le, place, Prod.Lex.toLex_le_toLex, Bool.or_eq_true, Bool.and_eq_true, decide_eq_true_eq]
  refine or_congr_right (and_congr_right fun _ => ?_)
  by_cases h : a.line = b.line
  · simp [h]
  · simp [h, leLine_iff, lt_iff_le_and_ne, lineRank_injective.eq_iff]

theorem pairwise_mergeSort_node (ns : List Node) : (ns.mergeSort Node.le).Pairwise fun a b => a.le b = true := by
  refine List.pairwise_mergeSort (fun a b c => ?_) (fun a b => ?_) ns
  · simp only [Node.le_iff]
    exact le_trans
  · simp only [Bool.or_eq_true, Node.le_iff]
    exact le_total _ _

theorem pairwise_mergeSort_edge (es : List Edge) : (es.mergeSort Edge.le).Pairwise fun a b => a.le b = true := by
  refine List.pairwise_mergeSort (fun a b c => ?_) (fun a b => ?_) es
  · simp only [Edge.le_iff]
    exact le_trans
  · simp only [Bool.or_eq_true, Edge.le_iff]
    exact le_total _ _

/-! ## What a column of numbers keeps -/

/-- A time as a table keeps it. -/
def storedTime (time : Double) : Double := (TableGraph.stored time).getD time

theorem stored_eq_some {x : Double} (h : x.isNaN = false) : TableGraph.stored x = some (storedTime x) := by
  unfold storedTime TableGraph.stored
  by_cases hkey : x.key = 0 <;> simp [h, hkey]

theorem isNaN_storedTime (time : Double) : (storedTime time).isNaN = time.isNaN := by
  unfold storedTime TableGraph.stored
  split
  · rfl
  split
  · next hnumber _ => simpa [Double.isNaN, Double.zero, Double.magnitude] using hnumber
  · rfl

theorem key_storedTime (time : Double) : (storedTime time).key = time.key := by
  unfold storedTime TableGraph.stored
  split
  · rfl
  split
  · next hkey => exact hkey.symm
  · rfl

theorem lt_storedTime (time other : Double) : (storedTime time).lt other = time.lt other := by
  rw [Double.lt, Double.lt, isNaN_storedTime, key_storedTime]

theorem same_storedTime {time : Double} (h : time.isNaN = false) : time.same (storedTime time) = true := by
  simp [Double.same, isNaN_storedTime, key_storedTime, h]

namespace Edge

/-- The weight, if there is one, is a number. -/
def isNumeric (e : Edge) : Bool := e.weight.all (!·.isNaN)

/-- Equality of edges, their weights compared as numbers. -/
def same (a b : Edge) : Bool :=
  a.sameKey b && a.metadata = b.metadata &&
    match a.weight, b.weight with
    | none, none => true
    | some x, some y => x.same y
    | _, _ => false

@[simp]
theorem key_stored (e : Edge) : e.stored.key = e.key := rfl

theorem same_stored {e : Edge} (h : e.isNumeric = true) : e.same e.stored = true := by
  obtain ⟨source, target, kind, weight, metadata⟩ := e
  cases weight with
  | none => simp [same, sameKey, stored]
  | some w =>
    have hw : w.isNaN = false := by simpa [isNumeric] using h
    simp [same, sameKey, stored, stored_eq_some hw, same_storedTime hw]

end Edge

namespace View

/-- What tables keep of the edges and times. -/
def stored (v : View) : View where
  node? := v.node?
  edge? k := (v.edge? k).map Edge.stored
  time? file := (v.time? file).map storedTime

variable {v : View}

theorem stored_putEdges (v : View) (e : Edge) : (v.putEdges [e]).stored = v.stored.putEdges [e.stored] := by
  ext1
  · rfl
  · funext k
    simp only [stored, putEdges, latest_cons, latest_nil, Option.none_or, Edge.key_stored]
    by_cases hk : e.key = k <;> simp [hk]
  · rfl

theorem stored_setTime (v : View) (file : String) (time : Double) :
    (v.setTime file time).stored = v.stored.setTime file (storedTime time) := by
  ext1
  · rfl
  · rfl
  · funext f
    simp only [stored, setTime]
    split <;> simp

theorem stored_deleteFile (v : View) (file : String) : (v.deleteFile file).stored = v.stored.deleteFile file := by
  have hfile : ∀ id, v.stored.HasFile file id ↔ v.HasFile file id := fun _ => Iff.rfl
  ext1
  · rfl
  · funext k
    ext e
    rw [edge?_deleteFile, hfile, hfile]
    simp only [stored, Option.map_eq_some_iff, edge?_deleteFile]
    exact ⟨fun ⟨a, ⟨ha, hapart⟩, he⟩ => ⟨⟨a, ha, he⟩, hapart⟩, fun ⟨⟨a, ha, he⟩, hapart⟩ => ⟨a, ⟨ha, hapart⟩, he⟩⟩
  · funext f
    simp only [stored, deleteFile]
    split <;> simp

theorem touched_stored (v : View) (id : String) : v.stored.Touched id ↔ v.Touched id := by
  simp [Touched, stored]

theorem stored_prune (v : View) (kinds : List String) : (v.prune kinds).stored = v.stored.prune kinds := by
  ext1
  · funext id
    ext n
    rw [node?_prune, touched_stored]
    exact node?_prune
  · rfl
  · rfl

end View

/-! ## Removals are counted alike -/

theorem TableGraph.prune_cons (g : TableGraph) (kind : String) (kinds : List String) :
    Store.prune (kind :: kinds) g = Store.prune kinds (g.pruneKind kind) := rfl

theorem TableGraph.length_nodes_prune_le (g : TableGraph) (kinds : List String) :
    (Store.prune kinds g).nodes.length ≤ g.nodes.length := by
  induction kinds generalizing g with
  | nil => exact le_rfl
  | cons kind kinds ih =>
    rw [prune_cons]
    exact (ih _).trans (List.length_filter_le _ _)

/-- The rows that the removals kind by kind take away are those that are missing in the end. -/
theorem TableGraph.pruneCount_eq (g : TableGraph) (kinds : List String) :
    Store.pruneCount kinds g = g.nodes.length - (Store.prune kinds g).nodes.length := by
  change TableGraph.pruneCount kinds g = _
  induction kinds generalizing g with
  | nil => exact (Nat.sub_self _).symm
  | cons kind kinds ih =>
    have hfirst : (g.pruneKind kind).nodes.length ≤ g.nodes.length := List.length_filter_le _ _
    have hrest := (g.pruneKind kind).length_nodes_prune_le kinds
    rw [pruneCount, ih, prune_cons]
    omega

theorem MemoryGraph.pruneCount_eq (g : MemoryGraph) (kinds : List String) :
    Store.pruneCount kinds g = g.nodes.length - (Store.prune kinds g).nodes.length := by
  have hparts := List.length_eq_length_filter_add (l := g.nodes)
    fun entry => kinds.contains entry.2.kind && !g.touches entry.1
  have hkept : (Store.prune kinds g).nodes =
      g.nodes.filter fun entry => !(kinds.contains entry.2.kind && !g.touches entry.1) := by
    simp [Store.prune]
  have hgone : Store.pruneCount kinds g =
      (g.nodes.filter fun entry => kinds.contains entry.2.kind && !g.touches entry.1).length := rfl
  rw [hkept, hgone]
  omega

/-! ## Agreement -/

/-- The weights and times that a request brings are numbers. -/
def Request.isNumeric : Request → Bool
  | .write (.edges es) => es.all Edge.isNumeric
  | .write (.mtime _ time) => !time.isNaN
  | _ => true

/-- The tables hold what the memory holds, as far as tables keep it, and the memory holds numbers only. -/
structure Agrees (m : MemoryGraph) (t : TableGraph) : Prop where
  inOrder : m.InOrder
  oneRow : t.OneRowAKey
  view : t.view = m.view.stored
  weights : ∀ e ∈ m.edges, e.isNumeric = true
  times : ∀ entry ∈ m.mtimes, entry.2.isNaN = false

namespace Agrees

variable {m : MemoryGraph} {t : TableGraph}

theorem empty : Agrees Store.empty Store.empty where
  inOrder := LawfulStore.valid_empty (σ := MemoryGraph)
  oneRow := LawfulStore.valid_empty (σ := TableGraph)
  view := rfl
  weights := by simp [Store.empty]
  times := by simp [Store.empty]

theorem putNode (h : Agrees m t) (n : Node) : Agrees (Store.putNode n m) (Store.putNode n t) where
  inOrder := LawfulStore.valid_putNode (σ := MemoryGraph) h.inOrder n
  oneRow := LawfulStore.valid_putNode (σ := TableGraph) h.oneRow n
  view := by
    have hm : (Store.putNode n m).view = m.view.putNodes [n] :=
      LawfulStore.view_putNode (σ := MemoryGraph) h.inOrder n
    have ht : (Store.putNode n t).view = t.view.putNodes [n] :=
      LawfulStore.view_putNode (σ := TableGraph) h.oneRow n
    rw [hm, ht, h.view]
    rfl
  weights := h.weights
  times := h.times

theorem putEdge (h : Agrees m t) {e : Edge} (he : e.isNumeric = true) :
    Agrees (Store.putEdge e m) (Store.putEdge e t) where
  inOrder := LawfulStore.valid_putEdge (σ := MemoryGraph) h.inOrder e
  oneRow := LawfulStore.valid_putEdge (σ := TableGraph) h.oneRow e
  view := by rw [m.view_putEdge, t.view_putEdge, h.view, View.stored_putEdges]
  weights f hf := (MemoryGraph.mem_insertEdge hf).elim (fun heq => heq ▸ he) (h.weights f)
  times := h.times

theorem setMtime (h : Agrees m t) (file : String) {time : Double} (htime : time.isNaN = false) :
    Agrees (Store.setMtime file time m) (Store.setMtime file time t) where
  inOrder := LawfulStore.valid_setMtime (σ := MemoryGraph) h.inOrder file time
  oneRow := LawfulStore.valid_setMtime (σ := TableGraph) h.oneRow file time
  view := by
    rw [m.view_setMtime, t.view_setMtime, h.view, View.stored_setTime]
    rfl
  weights := h.weights
  times entry hentry := (Dict.mem_put hentry).elim (fun heq => heq ▸ htime) (h.times entry)

theorem deleteFile (h : Agrees m t) (file : String) :
    Agrees (Store.deleteFile file m) (Store.deleteFile file t) where
  inOrder := LawfulStore.valid_deleteFile (σ := MemoryGraph) h.inOrder file
  oneRow := LawfulStore.valid_deleteFile (σ := TableGraph) h.oneRow file
  view := by rw [h.inOrder.view_deleteFile, h.oneRow.view_deleteFile, h.view, View.stored_deleteFile]
  weights e he := h.weights e (List.mem_of_mem_filter he)
  times entry hentry := h.times entry (List.mem_of_mem_filter hentry)

theorem prune (h : Agrees m t) (kinds : List String) : Agrees (Store.prune kinds m) (Store.prune kinds t) where
  inOrder := LawfulStore.valid_prune (σ := MemoryGraph) h.inOrder kinds
  oneRow := LawfulStore.valid_prune (σ := TableGraph) h.oneRow kinds
  view := by rw [h.inOrder.view_prune, (h.oneRow.prune kinds).2, h.view, View.stored_prune]
  weights := h.weights
  times := h.times

/-! Rows are compared as lists: the same ones, in another order. -/

theorem node?_eq_some (h : Agrees m t) {n : Node} : n ∈ t.nodes ↔ (n.id, n) ∈ m.nodes := by
  rw [← h.inOrder.node?_eq_some, ← and_iff_left (a := n ∈ t.nodes) (Eq.refl n.id), ← h.oneRow.node?_eq_some, h.view]
  rfl

theorem nodes_perm (h : Agrees m t) : (m.nodes.map (·.2)).Perm t.nodes := by
  have hnodup : (m.nodes.map (·.2)).Nodup := by
    refine List.pairwise_map.mpr (h.inOrder.nodes.imp_of_mem fun ha hb hlt heq => ne_of_lt hlt ?_)
    rw [← h.inOrder.ids _ ha, ← h.inOrder.ids _ hb, heq]
  refine (List.perm_ext_iff_of_nodup hnodup h.oneRow.nodes.nodup).mpr fun n => ?_
  rw [h.node?_eq_some, List.mem_map]
  refine ⟨?_, fun hn => ⟨_, hn, rfl⟩⟩
  rintro ⟨entry, hentry, rfl⟩
  rw [h.inOrder.ids entry hentry]
  exact hentry

theorem edges_perm (h : Agrees m t) : (m.edges.map Edge.stored).Perm t.edges := by
  have hkeyed : Keyed Edge.key (m.edges.map Edge.stored) := List.pairwise_map.mpr h.inOrder.keyed
  refine (List.perm_ext_iff_of_nodup hkeyed.nodup h.oneRow.edges.nodup).mpr fun e => ?_
  rw [← and_iff_left (a := e ∈ t.edges) (Eq.refl e.key), ← h.oneRow.edge?_eq_some, h.view]
  simp only [View.stored, Option.map_eq_some_iff, h.inOrder.edge?_eq_some, List.mem_map]
  refine exists_congr fun a => ⟨fun h => ⟨⟨h.1, h.2 ▸ rfl⟩, h.2⟩, fun h => ⟨h.1.1, h.2⟩⟩

theorem files_perm (h : Agrees m t) : (m.mtimes.map (·.1)).Perm (t.mtimes.map (·.1)) := by
  refine (List.perm_ext_iff_of_nodup h.inOrder.mtimes.nodup (List.pairwise_map.mpr h.oneRow.mtimes)).mpr
    fun file => ?_
  have hmemory : file ∈ m.mtimes.map (·.1) ↔ (m.view.time? file).isSome :=
    LawfulStore.mem_indexedFiles (σ := MemoryGraph) h.inOrder
  have htable : file ∈ (t.mtimes.map (·.1)).mergeSort (· ≤ ·) ↔ (t.view.time? file).isSome :=
    LawfulStore.mem_indexedFiles (σ := TableGraph) h.oneRow
  rw [List.mem_mergeSort, h.view] at htable
  rw [hmemory, htable]
  simp [View.stored]

theorem deleteCount_eq (h : Agrees m t) (file : String) : Store.deleteCount file t = Store.deleteCount file m := by
  have hlength := (h.nodes_perm.filter (·.file = file)).length_eq
  rw [List.filter_map, List.length_map] at hlength
  exact hlength.symm

theorem pruneCount_eq (h : Agrees m t) (kinds : List String) :
    Store.pruneCount kinds t = Store.pruneCount kinds m := by
  have hbefore := h.nodes_perm.length_eq
  have hafter := (h.prune kinds).nodes_perm.length_eq
  rw [List.length_map] at hbefore hafter
  rw [t.pruneCount_eq, m.pruneCount_eq, hbefore, hafter]

/-- One request keeps the agreement, and both stores carry it out with the same answer. -/
theorem run (h : Agrees m t) {r : Request} (hr : r.isNumeric = true) :
    Agrees (r.run m).1 (r.run t).1 ∧ (r.run t).2 = (r.run m).2 ∧ ∃ n, (r.run m).2 = .ok n := by
  match r with
  | .write (.nodes ns) =>
    refine ⟨?_, rfl, none, rfl⟩
    change Agrees (ns.foldl _ m) (ns.foldl _ t)
    clear hr
    induction ns generalizing m t with
    | nil => exact h
    | cons n ns ih => exact ih (h.putNode n)
  | .write (.edges es) =>
    refine ⟨?_, rfl, none, rfl⟩
    change Agrees (es.foldl _ m) (es.foldl _ t)
    replace hr : ∀ e ∈ es, e.isNumeric = true := List.all_eq_true.mp hr
    induction es generalizing m t with
    | nil => exact h
    | cons e es ih =>
      exact ih (h.putEdge (hr e List.mem_cons_self)) fun e' he' => hr e' (List.mem_cons_of_mem e he')
  | .write (.mtime file time) =>
    have htime : time.isNaN = false := by simpa [Request.isNumeric] using hr
    have hm : Store.recordMtime m file time = .ok (Store.setMtime file time m) := rfl
    have ht : Store.recordMtime t file time = .ok (Store.setMtime file time t) := by
      simp [Store.recordMtime, Store.mtimeFault, htime]
    simp only [Request.run, hm, ht]
    exact ⟨h.setMtime file htime, trivial, none, rfl⟩
  | .write (.deleteFile file) =>
    exact ⟨h.deleteFile file, congrArg (Except.ok <| some ·) (h.deleteCount_eq file), _, rfl⟩
  | .write (.prune kinds) =>
    exact ⟨h.prune kinds, congrArg (Except.ok <| some ·) (h.pruneCount_eq kinds), _, rfl⟩
  | .clear => exact ⟨empty, rfl, none, rfl⟩

theorem runAll (h : Agrees m t) {rs : List Request} (hrs : ∀ r ∈ rs, r.isNumeric = true) :
    Agrees (Request.runAll m rs).1 (Request.runAll t rs).1 ∧
      (Request.runAll t rs).2 = (Request.runAll m rs).2 ∧
      ∀ answer ∈ (Request.runAll m rs).2, ∃ n, answer = .ok n := by
  induction rs generalizing m t with
  | nil => exact ⟨h, rfl, nofun⟩
  | cons r rs ih =>
    obtain ⟨hstep, hanswer, hok⟩ := h.run (hrs r List.mem_cons_self)
    obtain ⟨hall, hanswers, hoks⟩ := ih hstep fun r' hr' => hrs r' (List.mem_cons_of_mem r hr')
    refine ⟨hall, ?_, ?_⟩
    · simp only [Request.runAll, hanswer, hanswers]
    · simp only [Request.runAll, List.forall_mem_cons]
      exact ⟨hok, hoks⟩

end Agrees

/-! ## Answers -/

section Reach

variable {f : Edge → Edge} (hf : ∀ e, (f e).target = e.target)

include hf

theorem walkRound_map (outgoing : String → List Edge) (frontier reached : List String) :
    walkRound (fun id => (outgoing id).map f) frontier reached =
      ((walkRound outgoing frontier reached).1.map f, (walkRound outgoing frontier reached).2) := by
  induction frontier generalizing reached with
  | nil => rfl
  | cons id rest ih =>
    have htargets : ((outgoing id).map f).map (·.target) = (outgoing id).map (·.target) := by
      rw [List.map_map]
      exact List.map_congr_left fun e _ => hf e
    simp only [walkRound, htargets, ih, List.map_append]

theorem walk_map (outgoing : String → List Edge) (rounds : Nat) (frontier reached : List String) :
    walk (fun id => (outgoing id).map f) rounds frontier reached =
      (walk outgoing rounds frontier reached).map f := by
  induction rounds generalizing frontier reached with
  | zero => rfl
  | succ rounds ih =>
    cases frontier with
    | nil => rfl
    | cons id frontier => simp only [walk, walkRound_map hf, ih, List.map_append]

end Reach

/-- Every question has the same answer in both stores. Edges and times of the tables are those of the memory as
tables keep them, and they are the same numbers. -/
structure SameAnswers (m : MemoryGraph) (t : TableGraph) : Prop where
  node? : ∀ id, Store.node? t id = Store.node? m id
  edge? : ∀ k, (LawfulStore.view t).edge? k = ((LawfulStore.view m).edge? k).map Edge.stored
  mtime? : ∀ file, Store.mtime? t file = (Store.mtime? m file).map storedTime
  sameWeights : ∀ e ∈ Store.allEdges m, e.same e.stored = true
  sameTimes : ∀ file time, Store.mtime? m file = some time → time.same (storedTime time) = true
  neighbors : ∀ id kinds depth,
    Store.neighbors t id kinds depth = (Store.neighbors m id kinds depth).map Edge.stored
  stale : ∀ times, Store.stale t times = Store.stale m times
  indexedFiles : Store.indexedFiles t = Store.indexedFiles m
  stats : Store.stats t = Store.stats m
  find : ∀ q, (Store.find t q).Perm (Store.find m q) ∧
    (Store.find t q).Pairwise (fun a b => a.le b = true) ∧ (Store.find m q).Pairwise (fun a b => a.le b = true)
  nodesOf : ∀ file, (Store.nodesOf t file).Perm (Store.nodesOf m file) ∧
    (Store.nodesOf t file).Pairwise (fun a b => a.le b = true) ∧
    (Store.nodesOf m file).Pairwise (fun a b => a.le b = true)
  incoming : ∀ file, (Store.incoming t file).Perm ((Store.incoming m file).map Edge.stored)
  allEdges : (Store.allEdges t).Perm ((Store.allEdges m).map Edge.stored)

namespace Agrees

variable {m : MemoryGraph} {t : TableGraph}

/-- Sorting the rows that leave a node gives the order in which the memory keeps them. -/
theorem outgoing_eq (h : Agrees m t) (id : String) :
    Store.outgoing t id = (Store.outgoing m id).map Edge.stored := by
  have hrows : (t.edges.filter (·.source = id)).Perm ((m.edges.filter (·.source = id)).map Edge.stored) := by
    refine (h.edges_perm.symm.filter _).trans (.of_eq ?_)
    rw [List.filter_map]
    rfl
  have hascending : ((m.edges.filter (·.source = id)).map Edge.stored).Pairwise fun a b => a.place < b.place :=
    List.pairwise_map.mpr (h.inOrder.edges.sublist List.filter_sublist)
  have hsorted : ((m.edges.filter (·.source = id)).map Edge.stored).Pairwise fun a b => a.le b = true :=
    hascending.imp fun hlt => (Edge.le_iff _ _).mpr hlt.le
  have hkeyed : Keyed Edge.key t.edges := h.oneRow.edges
  refine List.Perm.eq_of_pairwise (fun a b ha hb hab hba => ?_) (pairwise_mergeSort_edge _) hsorted
    ((List.mergeSort_perm _ _).trans hrows)
  have hplace : a.place = b.place := le_antisymm ((Edge.le_iff a b).mp hab) ((Edge.le_iff b a).mp hba)
  have ha' : a ∈ t.edges := List.mem_of_mem_filter (List.mem_mergeSort.mp ha)
  have hb' : b ∈ t.edges := List.mem_of_mem_filter (hrows.mem_iff.mpr hb)
  have hfound := (h.oneRow.edge?_eq_some (k := b.key)).mpr ⟨ha', (Edge.place_eq_iff a b).mp hplace⟩
  rw [(h.oneRow.edge?_eq_some (k := b.key)).mpr ⟨hb', rfl⟩] at hfound
  exact (Option.some.inj hfound).symm

theorem neighbors_eq (h : Agrees m t) (id : String) (kinds : Option (List EdgeKind)) (depth : Nat) :
    Store.neighbors t id kinds depth = (Store.neighbors m id kinds depth).map Edge.stored := by
  unfold Store.neighbors within
  rw [← walk_map (f := Edge.stored) (fun _ => rfl)]
  congr 1
  funext source
  rw [h.outgoing_eq, List.filter_map]
  rfl

theorem mtime?_eq (h : Agrees m t) (file : String) :
    Store.mtime? t file = (Store.mtime? m file).map storedTime := by
  change t.view.time? file = (m.view.time? file).map storedTime
  rw [h.view]
  rfl

theorem stale_eq (h : Agrees m t) (times : List (String × Double)) :
    Store.stale t times = Store.stale m times := by
  have hlater : ∀ entry : String × Double,
      (Store.mtime? t entry.1).all (·.lt entry.2) = (Store.mtime? m entry.1).all (·.lt entry.2) := by
    intro entry
    rw [h.mtime?_eq]
    cases Store.mtime? m entry.1 with
    | none => rfl
    | some time => exact lt_storedTime time entry.2
  simp only [Store.stale, hlater]

theorem indexedFiles_eq (h : Agrees m t) : Store.indexedFiles t = Store.indexedFiles m := by
  have hsorted : ((t.mtimes.map (·.1)).mergeSort (· ≤ ·)).Pairwise fun a b => decide (a ≤ b) = true :=
    List.pairwise_mergeSort (fun a b c => by simpa using le_trans) (fun a b => by simpa using le_total a b) _
  have hascending : (m.mtimes.map (·.1)).Pairwise fun a b => decide (a ≤ b) = true :=
    List.pairwise_map.mpr (h.inOrder.mtimes.imp fun hlt => by simpa using hlt.le)
  refine List.Perm.eq_of_pairwise (fun a b _ _ hab hba => ?_) hsorted hascending
    ((List.mergeSort_perm _ _).trans h.files_perm.symm)
  exact le_antisymm (of_decide_eq_true hab) (of_decide_eq_true hba)

theorem stats_eq (h : Agrees m t) : Store.stats t = Store.stats m := by
  have hnodes := h.nodes_perm
  have hedges := h.edges_perm
  have hfiles := h.files_perm.length_eq
  have hkinds : (t.edges.map (·.kind.text)).Perm (m.edges.map (·.kind.text)) := by
    refine (hedges.symm.map _).trans (.of_eq ?_)
    rw [List.map_map]
    rfl
  simp only [List.length_map] at hfiles
  change Stats.of t.nodes t.edges t.mtimes.length = Stats.of (m.nodes.map (·.2)) m.edges m.mtimes.length
  rw [Stats.of, Stats.of, hnodes.length_eq, ← hedges.length_eq, List.length_map, hfiles,
    Dict.tally_perm (hnodes.map (·.kind)), Dict.tally_perm hkinds]

theorem find_perm (h : Agrees m t) (q : NodeQuery) : (Store.find t q).Perm (Store.find m q) :=
  ((List.mergeSort_perm _ _).trans (h.nodes_perm.symm.filter _)).trans (List.mergeSort_perm _ _).symm

theorem incoming_perm (h : Agrees m t) (file : String) :
    (Store.incoming t file).Perm ((Store.incoming m file).map Edge.stored) := by
  have hfile : ∀ id, (t.idsOf file).contains id = m.hasFile file id := by
    intro id
    rw [Bool.eq_iff_iff, h.oneRow.contains_idsOf, MemoryGraph.hasFile_iff, h.view]
    rfl
  refine (List.mergeSort_perm _ _).trans ((h.edges_perm.symm.filter _).trans (.of_eq ?_))
  rw [List.filter_map]
  simp only [hfile]
  rfl

theorem sameAnswers (h : Agrees m t) : SameAnswers m t where
  node? id := by
    change t.view.node? id = m.view.node? id
    rw [h.view]
    rfl
  edge? k := by
    change t.view.edge? k = (m.view.edge? k).map Edge.stored
    rw [h.view]
    rfl
  mtime? := h.mtime?_eq
  sameWeights e he := Edge.same_stored (h.weights e he)
  sameTimes file time htime := same_storedTime (h.times (file, time) (Dict.mem_of_lookup htime))
  neighbors := h.neighbors_eq
  stale := h.stale_eq
  indexedFiles := h.indexedFiles_eq
  stats := h.stats_eq
  find q := ⟨h.find_perm q, pairwise_mergeSort_node _, pairwise_mergeSort_node _⟩
  nodesOf _ := ⟨h.find_perm _, pairwise_mergeSort_node _, pairwise_mergeSort_node _⟩
  incoming := h.incoming_perm
  allEdges := (List.mergeSort_perm _ _).trans h.edges_perm.symm

end Agrees

/-- After any requests whose weights and times are numbers, a graph in tables and a graph in memory have answered
each of them alike and answer every question alike. -/
theorem table_answers_as_memory (rs : List Request) (hrs : ∀ r ∈ rs, r.isNumeric = true) :
    (Request.runAll (Store.empty : TableGraph) rs).2 = (Request.runAll (Store.empty : MemoryGraph) rs).2 ∧
      (∀ answer ∈ (Request.runAll (Store.empty : MemoryGraph) rs).2, ∃ n, answer = .ok n) ∧
      SameAnswers (Request.runAll (Store.empty : MemoryGraph) rs).1
        (Request.runAll (Store.empty : TableGraph) rs).1 := by
  obtain ⟨hagrees, hanswers, hcarried⟩ := Agrees.empty.runAll hrs
  exact ⟨hanswers, hcarried, hagrees.sameAnswers⟩

/-- A node that moves to another file, a weight of minus zero, an edge to a node that is missing, and a kind that
is pruned twice. -/
def movingRequests : List Request :=
  [.write (.nodes [{ id := "f", kind := "function", name := "f", file := "a" },
      { id := "m", kind := "module", name := "m", file := "" },
      { id := "n", kind := "module", name := "n", file := "" }]),
    .write (.edges [{ source := "f", target := "m", kind := .imports, weight := some (.neg .zero) },
      { source := "f", target := "gone", kind := .calls }]),
    .write (.mtime "a" (.ofNat 7)),
    .write (.nodes [{ id := "f", kind := "function", name := "f", file := "b" }]),
    .write (.deleteFile "a"),
    .write (.prune ["module", "module"]),
    .write (.deleteFile "b"),
    .write (.prune ["module", "module"])]

theorem table_answers_as_memory_moving :
    (∀ r ∈ movingRequests, r.isNumeric = true) ∧
      (Request.runAll (Store.empty : TableGraph) movingRequests).2 =
        [.ok none, .ok none, .ok none, .ok none, .ok (some 0), .ok (some 1), .ok (some 1), .ok (some 1)] ∧
      SameAnswers (Request.runAll (Store.empty : MemoryGraph) movingRequests).1
        (Request.runAll (Store.empty : TableGraph) movingRequests).1 := by
  have hnumeric : ∀ r ∈ movingRequests, r.isNumeric = true := by decide
  obtain ⟨hanswers, _, hsame⟩ := table_answers_as_memory movingRequests hnumeric
  refine ⟨hnumeric, hanswers.trans ?_, hsame⟩
  decide +kernel

/-- A time that is no number is recorded in memory and refused by tables. -/
theorem nan_time_refused_by_tables :
    (Request.run (Store.empty : MemoryGraph) (.write (.mtime "a" ⟨0x7ff8000000000000⟩))).2 = .ok none ∧
      Store.indexedFiles (Request.run (Store.empty : MemoryGraph) (.write (.mtime "a" ⟨0x7ff8000000000000⟩))).1 =
        ["a"] ∧
      (Request.run (Store.empty : TableGraph) (.write (.mtime "a" ⟨0x7ff8000000000000⟩))).2 =
        .error (.database
          "error returned from database: (code: 1299) NOT NULL constraint failed: graph_file_mtime.mtime") ∧
      Store.indexedFiles (Request.run (Store.empty : TableGraph) (.write (.mtime "a" ⟨0x7ff8000000000000⟩))).1 =
        [] := by
  decide +kernel

end CodeIndex.Graph
