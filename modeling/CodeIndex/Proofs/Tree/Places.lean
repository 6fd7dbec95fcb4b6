import Mathlib.Data.List.Basic
import CodeIndex.Language.Basic

/-!
# Places in trees and patterns

A match gives every place of a pattern a node of the tree, at or below the node of the place above it
(`exists_assigned_of_mem_matchAt`). So a definition that a pattern captures around a name is a node around the name,
and where children are nested in their parents it starts no later and ends no earlier.
-/

namespace CodeIndex.Tree

/-! ## Nodes below nodes -/

/-- A node at or below another one, with its ancestors. -/
inductive Below (top : Located) : Located → Prop where
  | self : Below top top
  | child {l : Located} {c : Node} : Below top l → c ∈ l.node.children → Below top ⟨c, l.node :: l.ancestors⟩

theorem Below.trans {a b c : Located} (hab : Below a b) (hbc : Below b c) : Below a c := by
  induction hbc with
  | self => exact hab
  | child _ hc ih => exact .child ih hc

theorem below_of_mem_children {l c : Located} (h : c ∈ l.children) : Below l c := by
  obtain ⟨n, hn, rfl⟩ := List.mem_map.mp h
  exact .child .self hn

theorem below_iff {top l : Located} :
    Below top l ↔ l = top ∨ ∃ c ∈ top.node.children, Below ⟨c, top.node :: top.ancestors⟩ l := by
  constructor
  · intro h
    induction h with
    | self => exact .inl rfl
    | child _ hc ih =>
      rcases ih with rfl | ⟨d, hd, hbelow⟩
      · exact .inr ⟨_, hc, .self⟩
      · exact .inr ⟨d, hd, .child hbelow hc⟩
  · rintro (rfl | ⟨c, hc, hbelow⟩)
    · exact .self
    · exact (Below.child .self hc).trans hbelow

mutual

/-- The pre-order lists exactly what is at or below a node. -/
theorem mem_preorder_iff (ancestors : List Node) (l : Located) :
    (n : Node) → (l ∈ preorder ancestors n ↔ Below ⟨n, ancestors⟩ l)
  | ⟨_, _, _, _, _, _, _, _, _, children⟩ => by
    rw [preorder, List.mem_cons, mem_preorderAll_iff _ l children, below_iff]

theorem mem_preorderAll_iff (ancestors : List Node) (l : Located) :
    (nodes : List Node) → (l ∈ preorderAll ancestors nodes ↔ ∃ c ∈ nodes, Below ⟨c, ancestors⟩ l)
  | [] => by simp [preorderAll]
  | c :: rest => by
    rw [preorderAll, List.mem_append, mem_preorder_iff ancestors l c, mem_preorderAll_iff ancestors l rest]
    simp

end

/-- Every child lies within its parent. -/
def Nested (root : Node) : Prop :=
  ∀ l ∈ preorder [] root, ∀ c ∈ l.node.children, l.node.start ≤ c.start ∧ c.stop ≤ l.node.stop

instance (root : Node) : Decidable (Nested root) :=
  inferInstanceAs (Decidable (∀ l ∈ preorder [] root, ∀ c ∈ l.node.children,
    l.node.start ≤ c.start ∧ c.stop ≤ l.node.stop))

/-- What is below a node lies within it. -/
theorem Nested.within {root : Node} (h : Nested root) {d n : Located} (hd : Below ⟨root, []⟩ d) (hn : Below d n) :
    d.node.start ≤ n.node.start ∧ n.node.stop ≤ d.node.stop := by
  induction hn with
  | self => exact ⟨Nat.le_refl _, Nat.le_refl _⟩
  | child hl hc ih =>
    obtain ⟨hstart, hstop⟩ := h _ ((mem_preorder_iff [] _ root).mpr (hd.trans hl)) _ hc
    exact ⟨Nat.le_trans ih.1 hstart, Nat.le_trans hstop ih.2⟩

/-! ## Places of a pattern -/

mutual

/-- What a pattern captures, with the places from its root down, in pre-order. -/
def Pattern.places : Pattern → List (Capture × List Nat)
  | ⟨_, _, capture, _, children⟩ => capture.toList.map (·, []) ++ Pattern.placesBelow 0 children

/-- The places of patterns that are children, counted from `i`. -/
def Pattern.placesBelow (i : Nat) : List Pattern → List (Capture × List Nat)
  | [] => []
  | p :: ps => p.places.map (fun place => (place.1, i :: place.2)) ++ Pattern.placesBelow (i + 1) ps

end

/-- The definition that a pattern captures is around the name. -/
def Pattern.NamesWithin (p : Pattern) : Prop :=
  ∀ d ∈ p.places.lookup .definition, ∀ n ∈ p.places.lookup .name, d <+: n

instance (p : Pattern) : Decidable p.NamesWithin :=
  inferInstanceAs (Decidable (∀ d ∈ p.places.lookup .definition, ∀ n ∈ p.places.lookup .name, d <+: n))

theorem Pattern.exists_cons_of_mem_placesBelow {i : Nat} {ps : List Pattern} {place : Capture × List Nat}
    (h : place ∈ placesBelow i ps) : ∃ j rest, place.2 = j :: rest ∧ i ≤ j := by
  induction ps generalizing i with
  | nil => cases h
  | cons p ps ih =>
    rw [placesBelow, List.mem_append] at h
    rcases h with h | h
    · obtain ⟨inner, -, rfl⟩ := List.mem_map.mp h
      exact ⟨i, inner.2, rfl, Nat.le_refl i⟩
    · obtain ⟨j, rest, hplace, hle⟩ := ih h
      exact ⟨j, rest, hplace, Nat.le_of_succ_le hle⟩

/-! ## Matches -/

theorem mem_atEach_iff {f : α → List α → List β} {xs : List α} {b : β} :
    b ∈ atEach f xs ↔ ∃ front a rest, xs = front ++ a :: rest ∧ b ∈ f a rest := by
  induction xs with
  | nil => simp [atEach]
  | cons x xs ih =>
    rw [atEach, List.mem_append, ih]
    constructor
    · rintro (h | ⟨front, a, rest, rfl, h⟩)
      · exact ⟨[], x, xs, rfl, h⟩
      · exact ⟨x :: front, a, rest, rfl, h⟩
    · rintro ⟨front, a, rest, hsplit, h⟩
      cases front with
      | nil =>
        obtain ⟨rfl, rfl⟩ := List.cons.inj hsplit
        exact .inl h
      | cons y front => exact .inr ⟨front, a, rest, (List.cons.inj hsplit).2, h⟩

/-- Nodes for places: at the root the given one, and each at or below that of the place above. -/
structure Assigned (l : Located) (node : List Nat → Located) : Prop where
  root : node [] = l
  step : ∀ place i, Below (node place) (node (place ++ [i]))

theorem Assigned.below {l : Located} {node : List Nat → Located} (h : Assigned l node) {d n : List Nat}
    (hfront : d <+: n) : Below (node d) (node n) := by
  obtain ⟨rest, rfl⟩ := hfront
  induction rest generalizing d with
  | nil =>
    rw [List.append_nil]
    exact .self
  | cons i rest ih =>
    have hrest := @ih (d ++ [i])
    rw [List.append_assoc, List.singleton_append] at hrest
    exact (h.step d i).trans hrest

/-- The nodes of one more child, at the place `i`, beside those of others. -/
def joined (l : Located) (first others : List Nat → Located) (i : Nat) : List Nat → Located
  | [] => l
  | j :: rest => if j = i then first rest else others (j :: rest)

theorem joined_self (l : Located) (first others : List Nat → Located) (i : Nat) (place : List Nat) :
    joined l first others i (i :: place) = first place :=
  if_pos rfl

theorem joined_ne (l : Located) (first others : List Nat → Located) {i j : Nat} (h : j ≠ i) (place : List Nat) :
    joined l first others i (j :: place) = others (j :: place) :=
  if_neg h

theorem Assigned.joined {l c : Located} {first others : List Nat → Located} (hfirst : Assigned c first)
    (hc : Below l c) (hothers : Assigned l others) (i : Nat) :
    Assigned l (joined l first others i) where
  root := rfl
  step place k := by
    cases place with
    | nil =>
      by_cases hk : k = i
      · rw [hk, List.nil_append, joined_self, hfirst.root]
        exact hc
      · rw [List.nil_append, joined_ne l first others hk]
        exact hothers.root ▸ hothers.step [] k
    | cons j rest =>
      by_cases hj : j = i
      · rw [hj, List.cons_append, joined_self, joined_self]
        exact hfirst.step rest k
      · rw [List.cons_append, joined_ne l first others hj, joined_ne l first others hj]
        exact hothers.step (j :: rest) k

mutual

/-- Every match gives nodes to the places of its pattern. -/
theorem exists_assigned_of_mem_matchAt {s : Source} {l : Located} {m : Match} :
    (p : Pattern) → m ∈ p.matchAt s l →
      ∃ node, Assigned l node ∧ m = p.places.map fun place => (place.1, node place.2)
  | ⟨kind, field, capture, text, children⟩, h => by
    rw [Pattern.matchAt] at h
    split at h
    · obtain ⟨inner, hinner, rfl⟩ := List.mem_map.mp h
      obtain ⟨node, hnode, rfl⟩ := exists_assigned_of_mem_matchChildren children 0 (fun n hn => hn) hinner
      refine ⟨node, hnode, ?_⟩
      cases capture with
      | none => simp [Pattern.places]
      | some c => simp [Pattern.places, hnode.root]
    · cases h

theorem exists_assigned_of_mem_matchChildren {s : Source} {l : Located} {m : Match} :
    (ps : List Pattern) → (i : Nat) → {nodes : List Located} → (∀ n ∈ nodes, n ∈ l.children) →
      m ∈ Pattern.matchChildren s ps nodes →
      ∃ node, Assigned l node ∧ m = (Pattern.placesBelow i ps).map fun place => (place.1, node place.2)
  | [], i, nodes, hnodes, h => by
    rw [Pattern.matchChildren, List.mem_singleton] at h
    exact ⟨fun _ => l, ⟨rfl, fun _ _ => .self⟩, by rw [h, Pattern.placesBelow, List.map_nil]⟩
  | p :: ps, i, nodes, hnodes, h => by
    rw [Pattern.matchChildren, mem_atEach_iff] at h
    obtain ⟨front, c, after, rfl, h⟩ := h
    obtain ⟨own, hown, h⟩ := List.mem_flatMap.mp h
    obtain ⟨others, hothers, rfl⟩ := List.mem_map.mp h
    obtain ⟨first, hfirst, rfl⟩ := exists_assigned_of_mem_matchAt p hown
    obtain ⟨rest, hrest, rfl⟩ := exists_assigned_of_mem_matchChildren ps (i + 1)
      (fun n hn => hnodes n (List.mem_append_right front (List.mem_cons_of_mem c hn))) hothers
    have hc : Below l c := below_of_mem_children (hnodes c (by simp))
    refine ⟨joined l first rest i, hfirst.joined hc hrest i, ?_⟩
    rw [Pattern.placesBelow, List.map_append, List.map_map]
    congr 1
    · exact List.map_congr_left fun place _ => by rw [Function.comp_apply, joined_self]
    · refine List.map_congr_left fun place hplace => ?_
      obtain ⟨j, tail, hj, hle⟩ := Pattern.exists_cons_of_mem_placesBelow hplace
      rw [hj, joined_ne l first rest (by omega)]

end

theorem lookup_map_snd {κ α β : Type} [BEq κ] (f : α → β) (entries : List (κ × α)) (k : κ) :
    (entries.map fun e => (e.1, f e.2)).lookup k = (entries.lookup k).map f := by
  induction entries with
  | nil => rfl
  | cons e rest ih =>
    rw [List.map_cons, List.lookup_cons, List.lookup_cons, ih]
    cases k == e.1 <;> rfl

variable {p : Pattern} {s : Source} {l d n : Located} {m : Match} {c : Capture}

/-- What is captured is at or below the node of the match. -/
theorem below_of_mem_matchAt (hm : m ∈ p.matchAt s l) (hn : m.get? c = some n) : Below l n := by
  obtain ⟨node, hnode, rfl⟩ := exists_assigned_of_mem_matchAt p hm
  rw [Match.get?, lookup_map_snd] at hn
  obtain ⟨place, -, rfl⟩ := Option.map_eq_some_iff.mp hn
  exact hnode.root ▸ hnode.below (List.nil_prefix (l := place))

/-- A captured definition is around the captured name. -/
theorem Pattern.NamesWithin.below (h : p.NamesWithin) (hm : m ∈ p.matchAt s l)
    (hd : m.get? .definition = some d) (hn : m.get? .name = some n) : Below d n := by
  obtain ⟨node, hnode, rfl⟩ := exists_assigned_of_mem_matchAt p hm
  rw [Match.get?, lookup_map_snd] at hd hn
  obtain ⟨outer, houter, rfl⟩ := Option.map_eq_some_iff.mp hd
  obtain ⟨inner, hinner, rfl⟩ := Option.map_eq_some_iff.mp hn
  exact hnode.below (h outer houter inner hinner)

theorem Query.mem_run {q : Query} {s : Source} {root : Node} {m : Match} :
    m ∈ q.run s root ↔
      q.compiles ∧ m ∈ q.patterns.flatMap fun pattern => (preorder [] root).flatMap (pattern.matchAt s) := by
  unfold run
  split <;> simp_all

/-- A match is found at a node of the tree, by one of the patterns. -/
theorem Query.exists_matchAt {q : Query} {root : Node} (h : m ∈ q.run s root) :
    ∃ pattern ∈ q.patterns, ∃ l, Below ⟨root, []⟩ l ∧ m ∈ pattern.matchAt s l := by
  obtain ⟨pattern, hpattern, h⟩ := List.mem_flatMap.mp (Query.mem_run.mp h).2
  obtain ⟨l, hl, h⟩ := List.mem_flatMap.mp h
  exact ⟨pattern, hpattern, l, (mem_preorder_iff [] l root).mp hl, h⟩

end CodeIndex.Tree
