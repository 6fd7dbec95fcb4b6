import Mathlib.Data.Nat.Find
import CodeIndex.Proofs.Graph.Agreement

/-!
# Neighbours are found breadth first

A node is at the distance of the fewest edges that lead to it. One round of a walk leaves the nodes at one
distance and finds those at the next (`Level.next`); so a whole walk leaves every node that is near enough once,
the nearest first (`exists_visits`). The edges that leave a node come by target and kind in both stores, and with
this the answer to a question for neighbours is told for every graph that requests can build.
-/

namespace CodeIndex.Graph

/-! ## Distances -/

/-- A node to which so many allowed edges lead from the start. -/
def Reaches (allowed : Edge → Prop) (start : String) : Nat → String → Prop
  | 0, id => id = start
  | n + 1, id => ∃ e, allowed e ∧ Reaches allowed start n e.source ∧ e.target = id

/-- The fewest edges that lead to a node. -/
def Distance (allowed : Edge → Prop) (start id : String) (n : Nat) : Prop :=
  Reaches allowed start n id ∧ ∀ m < n, ¬Reaches allowed start m id

section Distance

variable {allowed : Edge → Prop} {start id : String} {m n : Nat}

theorem Distance.eq (hm : Distance allowed start id m) (hn : Distance allowed start id n) : m = n := by
  rcases Nat.lt_trichotomy m n with hlt | heq | hlt
  · exact absurd hm.1 (hn.2 m hlt)
  · exact heq
  · exact absurd hn.1 (hm.2 n hlt)

theorem exists_distance (h : Reaches allowed start n id) : ∃ m ≤ n, Distance allowed start id m := by
  classical
  have hfound : ∃ m, Reaches allowed start m id := ⟨n, h⟩
  exact ⟨Nat.find hfound, Nat.find_min' hfound h, Nat.find_spec hfound, fun m hlt => Nat.find_min hfound hlt⟩

theorem distance_zero : Distance allowed start id 0 ↔ id = start :=
  ⟨fun h => h.1, fun h => ⟨h, nofun⟩⟩

/-- A node is one edge further than another exactly if an edge leads there and nothing shorter does. -/
theorem distance_succ : Distance allowed start id (n + 1) ↔
    (∃ e, allowed e ∧ Distance allowed start e.source n ∧ e.target = id) ∧
      ∀ m ≤ n, ¬Reaches allowed start m id := by
  constructor
  · rintro ⟨⟨e, he, hsource, rfl⟩, hshorter⟩
    refine ⟨⟨e, he, ⟨hsource, fun m hlt hm => ?_⟩, rfl⟩, fun m hle => hshorter m (by omega)⟩
    -- a shorter way to the source would be one to the target, too
    exact hshorter (m + 1) (by omega) ⟨e, he, hm, rfl⟩
  · rintro ⟨⟨e, he, hsource, rfl⟩, hshorter⟩
    exact ⟨⟨e, he, hsource.1, rfl⟩, fun m hlt => hshorter m (by omega)⟩

end Distance

/-! ## One round -/

theorem nodup_eraseDups : ∀ xs : List String, xs.eraseDups.Nodup
  | [] => List.nodup_nil
  | x :: xs => by
    rw [List.eraseDups_cons, List.nodup_cons]
    exact ⟨by simp [List.mem_eraseDups], nodup_eraseDups _⟩
termination_by xs => xs.length
decreasing_by exact Nat.lt_succ_of_le (List.length_filter_le _ _)

section Round

variable (outgoing : String → List Edge)

theorem walkRound_edges (frontier reached : List String) :
    (walkRound outgoing frontier reached).1 = frontier.flatMap outgoing := by
  induction frontier generalizing reached with
  | nil => rfl
  | cons id rest ih => simp only [walkRound, ih, List.flatMap_cons]

theorem walkRound_reached (frontier reached : List String) :
    (walkRound outgoing frontier reached).2.2 = reached ++ (walkRound outgoing frontier reached).2.1 := by
  induction frontier generalizing reached with
  | nil => simp [walkRound]
  | cons id rest ih => simp only [walkRound, ih, List.append_assoc]

/-- The nodes that an edge of the round leads to and that were not reached before. -/
theorem mem_walkRound_next {frontier reached : List String} {id : String} :
    id ∈ (walkRound outgoing frontier reached).2.1 ↔
      (∃ e ∈ frontier.flatMap outgoing, e.target = id) ∧ id ∉ reached := by
  induction frontier generalizing reached with
  | nil => simp [walkRound]
  | cons node rest ih =>
    simp only [walkRound, List.mem_append, List.mem_filter, List.mem_eraseDups, List.mem_map, ih, List.flatMap_cons,
      Bool.not_eq_true', List.contains_eq_mem, decide_eq_false_iff_not]
    constructor
    · rintro (⟨⟨e, he, hid⟩, hnew⟩ | ⟨⟨e, he, hid⟩, hnew⟩)
      · exact ⟨⟨e, .inl he, hid⟩, hnew⟩
      · exact ⟨⟨e, .inr he, hid⟩, fun hold => hnew (.inl hold)⟩
    · rintro ⟨⟨e, he, hid⟩, hnew⟩
      by_cases hfirst : ∃ e ∈ outgoing node, e.target = id
      · exact .inl ⟨hfirst, hnew⟩
      · have hlater := he.resolve_left fun he => hfirst ⟨e, he, hid⟩
        exact .inr ⟨⟨e, hlater, hid⟩, fun hold => hold.elim hnew fun hfresh => hfirst hfresh.1⟩

theorem nodup_walkRound_next (frontier reached : List String) :
    (walkRound outgoing frontier reached).2.1.Nodup := by
  induction frontier generalizing reached with
  | nil => exact List.nodup_nil
  | cons id rest ih =>
    simp only [walkRound]
    refine List.nodup_append.mpr ⟨(nodup_eraseDups _).filter _, ih _, ?_⟩
    rintro a hfirst _ hlater rfl
    exact ((mem_walkRound_next outgoing).mp hlater).2 (List.mem_append_right _ hfirst)

end Round

/-- A walk on its way: the frontier has the nodes at a distance, and those up to it were reached. -/
structure Level (allowed : Edge → Prop) (start : String) (n : Nat) (frontier reached : List String) : Prop where
  mem_frontier : ∀ id, id ∈ frontier ↔ Distance allowed start id n
  mem_reached : ∀ id, id ∈ reached ↔ ∃ m ≤ n, Reaches allowed start m id
  nodup : frontier.Nodup

namespace Level

variable {allowed : Edge → Prop} {outgoing : String → List Edge} {start : String} {n : Nat}
  {frontier reached : List String}

theorem zero (allowed : Edge → Prop) (start : String) : Level allowed start 0 [start] [start] where
  mem_frontier id := by rw [List.mem_singleton, distance_zero]
  mem_reached id := by simp [Reaches]
  nodup := List.nodup_singleton start

/-- A round leads from one distance to the next. -/
theorem next (houtgoing : ∀ id e, e ∈ outgoing id ↔ allowed e ∧ e.source = id)
    (h : Level allowed start n frontier reached) :
    Level allowed start (n + 1) (walkRound outgoing frontier reached).2.1
      (walkRound outgoing frontier reached).2.2 := by
  have hfrontier : ∀ id, id ∈ (walkRound outgoing frontier reached).2.1 ↔ Distance allowed start id (n + 1) := by
    intro id
    rw [mem_walkRound_next, distance_succ, h.mem_reached]
    simp only [List.mem_flatMap, houtgoing, h.mem_frontier, not_exists, not_and]
    refine and_congr_left fun _ => exists_congr fun e => ?_
    constructor
    · rintro ⟨⟨_, hsource, he, rfl⟩, hid⟩
      exact ⟨he, hsource, hid⟩
    · rintro ⟨he, hsource, hid⟩
      exact ⟨⟨e.source, hsource, he, rfl⟩, hid⟩
  refine ⟨hfrontier, fun id => ?_, nodup_walkRound_next outgoing frontier reached⟩
  rw [walkRound_reached, List.mem_append, h.mem_reached, hfrontier]
  constructor
  · rintro (⟨m, hle, hm⟩ | hnext)
    · exact ⟨m, by omega, hm⟩
    · exact ⟨n + 1, le_rfl, hnext.1⟩
  · rintro ⟨m, hle, hm⟩
    by_cases hbefore : ∃ m ≤ n, Reaches allowed start m id
    · exact .inl hbefore
    · have hshorter : ∀ m ≤ n, ¬Reaches allowed start m id := fun m hle hm => hbefore ⟨m, hle, hm⟩
      obtain rfl : m = n + 1 := by
        by_contra hne
        exact hshorter m (by omega) hm
      exact .inr ⟨hm, fun m hlt => hshorter m (by omega)⟩

/-- Behind an empty frontier there is nothing. -/
theorem no_distance (h : Level allowed start n [] reached) {id : String} {d : Nat} (hle : n ≤ d) :
    ¬Distance allowed start id d := by
  induction d, hle using Nat.le_induction generalizing id with
  | base => exact fun hd => List.not_mem_nil ((h.mem_frontier id).mpr hd)
  | succ d _ ih =>
    intro hd
    obtain ⟨⟨e, -, hsource, -⟩, -⟩ := distance_succ.mp hd
    exact ih hsource

end Level

/-! ## A whole walk -/

/-- The nodes at distances from `low` up to and without `high`, each once, the nearest first. -/
structure Visits (allowed : Edge → Prop) (start : String) (low high : Nat) (order : List String) : Prop where
  mem_iff : ∀ id, id ∈ order ↔ ∃ d, low ≤ d ∧ d < high ∧ Distance allowed start id d
  nodup : order.Nodup
  ascending : order.Pairwise fun a b => ∀ m n, Distance allowed start a m → Distance allowed start b n → m ≤ n

section Walk

variable {allowed : Edge → Prop} {outgoing : String → List Edge} {start : String} {low high : Nat}
  {frontier reached order : List String}

theorem visits_nil (h : ∀ id d, low ≤ d → d < high → ¬Distance allowed start id d) :
    Visits allowed start low high [] where
  mem_iff id := ⟨nofun, fun ⟨d, hlow, hhigh, hd⟩ => absurd hd (h id d hlow hhigh)⟩
  nodup := List.nodup_nil
  ascending := List.Pairwise.nil

/-- The nodes at one distance come before those that are further away. -/
theorem Level.visits_append (hlevel : Level allowed start low frontier reached) (hlt : low < high)
    (h : Visits allowed start (low + 1) high order) : Visits allowed start low high (frontier ++ order) where
  mem_iff id := by
    rw [List.mem_append, hlevel.mem_frontier, h.mem_iff]
    constructor
    · rintro (hd | ⟨d, hlow, hhigh, hd⟩)
      · exact ⟨low, le_rfl, hlt, hd⟩
      · exact ⟨d, by omega, hhigh, hd⟩
    · rintro ⟨d, hlow, hhigh, hd⟩
      rcases Nat.eq_or_lt_of_le hlow with rfl | hbehind
      · exact .inl hd
      · exact .inr ⟨d, hbehind, hhigh, hd⟩
  nodup := by
    refine List.nodup_append.mpr ⟨hlevel.nodup, h.nodup, ?_⟩
    rintro id hfirst _ hlater rfl
    obtain ⟨d, hlow, -, hd⟩ := (h.mem_iff id).mp hlater
    have := ((hlevel.mem_frontier id).mp hfirst).eq hd
    omega
  ascending := by
    have hfrontier : ∀ {id m}, id ∈ frontier → Distance allowed start id m → m = low := fun hid hm =>
      hm.eq ((hlevel.mem_frontier _).mp hid)
    refine List.pairwise_append.mpr ⟨?_, h.ascending, fun a ha b hb m n hm hn => ?_⟩
    · refine hlevel.nodup.imp_of_mem fun ha hb _ m n hm hn => ?_
      rw [hfrontier ha hm, hfrontier hb hn]
    · obtain ⟨d, hlow, -, hd⟩ := (h.mem_iff b).mp hb
      rw [hfrontier ha hm, hn.eq hd]
      omega

/-- A walk gives the edges that leave the nodes near enough, node by node. -/
theorem exists_visits (houtgoing : ∀ id e, e ∈ outgoing id ↔ allowed e ∧ e.source = id) (rounds : Nat)
    (h : Level allowed start low frontier reached) :
    ∃ order, walk outgoing rounds frontier reached = order.flatMap outgoing ∧
      Visits allowed start low (low + rounds) order := by
  induction rounds generalizing low frontier reached with
  | zero => exact ⟨[], rfl, visits_nil fun id d hlow hhigh => by omega⟩
  | succ rounds ih =>
    cases frontier with
    | nil => exact ⟨[], rfl, visits_nil fun id d hlow _ => h.no_distance hlow⟩
    | cons node rest =>
      obtain ⟨order, hwalk, hvisits⟩ := ih (h.next houtgoing)
      refine ⟨node :: rest ++ order, ?_, h.visits_append (by omega) ?_⟩
      · simp only [walk, hwalk, walkRound_edges, List.flatMap_append]
      · rwa [show low + (rounds + 1) = low + 1 + rounds by omega]

end Walk

/-- The allowed edges that leave the nodes less than `rounds` edges away, each once: those of nearer nodes first,
those of one node by target and place of the kind. -/
structure BreadthFirst (allowed : Edge → Prop) (start : String) (rounds : Nat) (answer : List Edge) : Prop where
  mem_iff : ∀ e, e ∈ answer ↔ allowed e ∧ ∃ n ≤ rounds - 1, Reaches allowed start n e.source
  nodup : answer.Nodup
  nearest_first : answer.Pairwise fun a b =>
    ∀ m n, Distance allowed start a.source m → Distance allowed start b.source n → m ≤ n
  by_target : answer.Pairwise fun a b =>
    a.source = b.source → a.target < b.target ∨ a.target = b.target ∧ a.kind.rank < b.kind.rank

theorem breadthFirst_within {allowed : Edge → Prop} {outgoing : String → List Edge}
    (houtgoing : ∀ id e, e ∈ outgoing id ↔ allowed e ∧ e.source = id)
    (hascending : ∀ id, (outgoing id).Pairwise fun a b => a.place < b.place) (start : String) (depth : Nat) :
    BreadthFirst allowed start (max depth 1) (within outgoing start depth) := by
  obtain ⟨order, hwalk, hvisits⟩ := exists_visits houtgoing (max depth 1) (Level.zero allowed start)
  have hsource : ∀ {id e}, e ∈ outgoing id → e.source = id := fun he => ((houtgoing _ _).mp he).2
  have hapart : order.Pairwise fun a b => ∀ e ∈ outgoing a, ∀ f ∈ outgoing b, e.source ≠ f.source := by
    refine hvisits.nodup.imp fun hne e he f hf heq => hne ?_
    rw [← hsource he, heq, hsource hf]
  have hplace : (order.flatMap outgoing).Pairwise fun a b => a.source = b.source → a.place < b.place := by
    refine List.pairwise_flatMap.mpr ⟨fun id _ => (hascending id).imp ?_, hapart.imp ?_⟩
    · exact fun hlt _ => hlt
    · exact fun hne e he f hf heq => absurd heq (hne e he f hf)
  rw [within, hwalk]
  refine ⟨fun e => ?_, ?_, ?_, ?_⟩
  · simp only [List.mem_flatMap, houtgoing, hvisits.mem_iff]
    constructor
    · rintro ⟨_, ⟨d, -, hlt, hd⟩, he, rfl⟩
      exact ⟨he, d, by omega, hd.1⟩
    · rintro ⟨he, n, hle, hn⟩
      obtain ⟨d, hshorter, hd⟩ := exists_distance hn
      exact ⟨e.source, ⟨d, Nat.zero_le d, by omega, hd⟩, he, rfl⟩
  · refine hplace.imp ?_
    rintro a b hlt rfl
    exact lt_irrefl _ (hlt rfl)
  · refine List.pairwise_flatMap.mpr ⟨fun id _ => ?_, hvisits.ascending.imp fun hle e he f hf => ?_⟩
    · refine (hascending id).imp_of_mem fun ha hb _ m n hm hn => ?_
      rw [hsource ha] at hm
      rw [hsource hb] at hn
      exact (hm.eq hn).le
    · rw [hsource he, hsource hf]
      exact hle
  · refine hplace.imp fun hlt heq => ?_
    simpa [Edge.place, heq, Prod.Lex.toLex_lt_toLex] using hlt heq

/-! ## Stores -/

/-- An edge of the graph whose kind is asked for. -/
def Allowed {σ : Type} [Store σ] (s : σ) (kinds : Option (List EdgeKind)) (e : Edge) : Prop :=
  e ∈ Store.allEdges s ∧ kinds.all (·.contains e.kind) = true

/-- The edges that leave a node are those of the graph with that source, by target and place of the kind. -/
structure EdgesLeave {σ : Type} [Store σ] (s : σ) : Prop where
  mem_outgoing : ∀ id e, e ∈ Store.outgoing s id ↔ e ∈ Store.allEdges s ∧ e.source = id
  ascending : ∀ id, (Store.outgoing s id).Pairwise fun a b => a.place < b.place

theorem EdgesLeave.breadthFirst {σ : Type} [Store σ] {s : σ} (h : EdgesLeave s) (id : String)
    (kinds : Option (List EdgeKind)) (depth : Nat) :
    BreadthFirst (Allowed s kinds) id (max depth 1) (Store.neighbors s id kinds depth) := by
  refine breadthFirst_within (fun source e => ?_) (fun source => (h.ascending source).filter _) id depth
  rw [List.mem_filter, h.mem_outgoing, Allowed, and_right_comm]

theorem MemoryGraph.InOrder.edgesLeave {g : MemoryGraph} (h : g.InOrder) : EdgesLeave g where
  mem_outgoing id e := by simp [Store.outgoing, Store.allEdges]
  ascending id := h.edges.filter _

theorem TableGraph.OneRowAKey.edgesLeave {g : TableGraph} (h : g.OneRowAKey) : EdgesLeave g where
  mem_outgoing id e := by simp [Store.outgoing, Store.allEdges]
  ascending id := by
    have hkeyed : (Store.outgoing g id).Pairwise fun a b => a.key ≠ b.key := by
      have hrows : (g.edges.filter (·.source = id)).Pairwise fun a b => a.key ≠ b.key := h.edges.filter _
      exact (List.mergeSort_perm _ _).symm.pairwise hrows fun hne => hne.symm
    refine (pairwise_mergeSort_edge (g.edges.filter (·.source = id))).imp₂ (fun a b hle hne => ?_) hkeyed
    exact lt_of_le_of_ne ((Edge.le_iff _ _).mp hle) fun heq => hne ((Edge.place_eq_iff _ _).mp heq)

section Requests

open LawfulStore

variable {σ : Type} [Store σ] [LawfulStore σ] {s : σ}

theorem valid_run (h : Valid s) (r : Request) : Valid (r.run s).1 := by
  match r with
  | .write (.nodes ns) => exact List.foldlRecOn ns _ h fun s hs n _ => valid_putNode hs n
  | .write (.edges es) => exact List.foldlRecOn es _ h fun s hs e _ => valid_putEdge hs e
  | .write (.mtime file time) =>
    simp only [Request.run, Store.recordMtime]
    cases Store.mtimeFault s time with
    | none => exact valid_setMtime h file time
    | some fault => exact h
  | .write (.deleteFile file) => exact valid_deleteFile h file
  | .write (.prune kinds) => exact valid_prune h kinds
  | .clear => exact valid_empty

theorem valid_runAll (h : Valid s) (rs : List Request) : Valid (Request.runAll s rs).1 := by
  induction rs generalizing s with
  | nil => exact h
  | cons r rs ih => exact ih (valid_run h r)

end Requests

/-- Whatever requests built a graph, in memory or in tables, the neighbours of a node are the edges of the kinds asked
for that leave the nodes at most `max depth 1 - 1` such edges away, each once, the nearest first and those of one node
by target and kind. -/
theorem neighbors_breadth_first (rs : List Request) (id : String) (kinds : Option (List EdgeKind)) (depth : Nat) :
    let m := (Request.runAll (Store.empty : MemoryGraph) rs).1
    let t := (Request.runAll (Store.empty : TableGraph) rs).1
    BreadthFirst (Allowed m kinds) id (max depth 1) (Store.neighbors m id kinds depth) ∧
      BreadthFirst (Allowed t kinds) id (max depth 1) (Store.neighbors t id kinds depth) := by
  intro m t
  have hm : m.InOrder := valid_runAll (σ := MemoryGraph) LawfulStore.valid_empty rs
  have ht : t.OneRowAKey := valid_runAll (σ := TableGraph) LawfulStore.valid_empty rs
  exact ⟨hm.edgesLeave.breadthFirst id kinds depth, ht.edgesLeave.breadthFirst id kinds depth⟩

/-- A circle with a loop, two kinds of edges between its nodes and an edge that is too far away. -/
example :
    let edge (source target : String) (kind : EdgeKind) : Edge := { source, target, kind }
    let g := (Request.runAll (Store.empty : MemoryGraph) [.write (.edges [edge "a" "b" .imports, edge "a" "b" .calls,
      edge "b" "a" .calls, edge "b" "b" .calls, edge "b" "c" .calls, edge "c" "d" .calls])]).1
    (Store.neighbors g "a" none 2).map (fun e => (e.source, e.target)) =
      [("a", "b"), ("a", "b"), ("b", "a"), ("b", "b"), ("b", "c")] := by
  decide +kernel

end CodeIndex.Graph
