import Mathlib.Data.List.Find
import CodeIndex.Proofs.Tree.Places
import CodeIndex.Tree.Cursor

/-!
# The first syntax error

The cursor of a search for errors stands, one after the other and in pre-order, at the nodes all of whose ancestors
report an error: each move takes the first of them away from what lies ahead (`Cursor.reached_of_next?`). So a search
makes fewer moves than the tree has nodes, and finds the first broken node among them (`Cursor.findError_eq`).
-/

namespace CodeIndex.Tree

/-! ## Nodes that are reached -/

/-- All nodes above report an error. -/
def Located.isReached (l : Located) : Bool :=
  l.ancestors.all (·.hasError)

theorem Below.ancestors_suffix {top l : Located} (h : Below top l) : top.ancestors <:+ l.ancestors := by
  induction h with
  | self => exact List.suffix_refl _
  | child _ _ ih => exact ih.trans (List.suffix_cons _ _)

/-- Every ancestor is a node of the tree. -/
theorem Below.exists_of_mem_ancestors {root a : Node} {l : Located} (h : Below ⟨root, []⟩ l) (ha : a ∈ l.ancestors) :
    ∃ top : Located, top.node = a ∧ Below ⟨root, []⟩ top ∧ Below top l := by
  induction h with
  | self => cases ha
  | @child l c hl hc ih =>
    rcases List.mem_cons.mp ha with rfl | ha
    · exact ⟨l, rfl, hl, .child .self hc⟩
    · obtain ⟨top, htop, hroot, hbelow⟩ := ih ha
      exact ⟨top, htop, hroot, .child hbelow hc⟩

/-- Nothing is reached below a node that reports no error. -/
theorem filter_preorderAll_of_silent {n : Node} (h : n.hasError = false) (ancestors nodes : List Node) :
    (preorderAll (n :: ancestors) nodes).filter Located.isReached = [] := by
  rw [List.filter_eq_nil_iff]
  intro l hl hreached
  obtain ⟨c, -, hbelow⟩ := (mem_preorderAll_iff _ l nodes).mp hl
  have hn : n ∈ l.ancestors := hbelow.ancestors_suffix.subset List.mem_cons_self
  have := List.all_eq_true.mp hreached n hn
  rw [h] at this
  cases this

/-! ## Moves -/

namespace Cursor

variable {c d : Cursor}

theorem firstChild?_eq_none (h : c.firstChild? = none) : c.node.children = [] := by
  unfold firstChild? at h
  split at h
  · next hchildren => exact hchildren
  · cases h

theorem ancestors_of_firstChild? (h : c.firstChild? = some d) : d.ancestors = c.node :: c.ancestors := by
  obtain ⟨child, later, -, rfl⟩ := firstChild?_eq_some h
  rfl

theorem ancestors_of_nextSibling? (h : c.nextSibling? = some d) : d.ancestors = c.ancestors := by
  obtain ⟨sibling, later, -, rfl⟩ := nextSibling?_eq_some h
  rfl

theorem ancestors_of_parent? (h : c.parent? = some d) : c.ancestors = d.node :: d.ancestors := by
  rw [ancestors, parent?_eq_some h]
  rfl

theorem parent?_eq_none (h : c.parent? = none) : c.above = [] := by
  unfold parent? at h
  split at h
  · next habove => exact habove
  · cases h

/-- A cursor that goes onward comes out under some of the same nodes. -/
theorem ancestors_of_onward? (h : c.onward? = some d) : d.ancestors <:+ c.ancestors := by
  fun_induction onward? c with
  | case1 c e hnext =>
    cases h
    exact ⟨[], ancestors_of_nextSibling? hnext⟩
  | case2 c _ p hparent ih =>
    rw [ancestors_of_parent? hparent]
    exact (ih h).trans (List.suffix_cons _ _)
  | case3 => cases h

/-- A cursor that cannot go onward has nothing behind it. -/
theorem behind_of_onward?_none (h : c.onward? = none) : c.behind = [] := by
  fun_induction onward? c with
  | case1 => cases h
  | case2 c hnext p hparent ih => rw [behind_of_parent? hnext hparent, ih h]
  | case3 c hnext hparent =>
    rw [behind, nextSibling?_eq_none hnext, parent?_eq_none hparent, preorderAll]
    rfl

theorem next?_eq_none (h : c.next? = none) : (c.node.hasError = true → c.firstChild? = none) ∧ c.onward? = none := by
  unfold next? at h
  split at h
  · cases h
  · next hchild => exact ⟨fun hreports => by rwa [if_pos hreports] at hchild, h⟩

/-! ## Runs -/

/-- The nodes that a search reaches from the cursor on. -/
def reached (c : Cursor) : List Located :=
  c.ahead.filter Located.isReached

/-- A node below which the cursor does not go is reached, and then what is behind it. -/
theorem reached_of_stay (hc : c.located.isReached = true) (hstay : c.node.hasError = true → c.firstChild? = none) :
    c.reached = c.located :: c.behind.filter Located.isReached := by
  rw [reached, ahead_eq, List.filter_cons_of_pos hc, List.filter_append]
  -- what is below the node is not reached, or there is nothing
  cases hreports : c.node.hasError with
  | false => rw [filter_preorderAll_of_silent hreports, List.nil_append]
  | true =>
    rw [firstChild?_eq_none (hstay hreports), preorderAll]
    rfl

/-- A move goes from one node that is reached to the next. -/
theorem reached_of_next? (hc : c.located.isReached = true) (h : c.next? = some d) :
    d.located.isReached = true ∧ c.reached = c.located :: d.reached := by
  obtain ⟨hreports, hchild⟩ | ⟨hstay, honward⟩ := next?_cases h
  · refine ⟨?_, ?_⟩
    · rw [Located.isReached, located, ancestors_of_firstChild? hchild, List.all_cons, hreports]
      exact hc
    · rw [reached, ahead_of_firstChild? hchild, List.filter_cons_of_pos hc]
      rfl
  · refine ⟨?_, ?_⟩
    · -- the nodes above the new place are above the old one too
      exact List.all_eq_true.mpr fun n hn =>
        List.all_eq_true.mp hc n ((ancestors_of_onward? honward).subset hn)
    · rw [reached_of_stay hc hstay, behind_of_onward? honward]
      rfl

theorem reached_of_next?_none (hc : c.located.isReached = true) (h : c.next? = none) : c.reached = [c.located] := by
  obtain ⟨hstay, honward⟩ := next?_eq_none h
  rw [reached_of_stay hc hstay, behind_of_onward?_none honward]
  rfl

/-- The first node that is reached is that of the cursor. -/
theorem exists_reached (hc : c.located.isReached = true) : ∃ rest, c.reached = c.located :: rest := by
  cases hnext : c.next? with
  | none => exact ⟨[], reached_of_next?_none hc hnext⟩
  | some d => exact ⟨d.reached, (reached_of_next? hc hnext).2⟩

/-- A number of moves of a search, one after the other. -/
inductive Moves : Nat → Cursor → Cursor → Prop where
  | refl (c : Cursor) : Moves 0 c c
  | step {n : Nat} {c d e : Cursor} : c.next? = some d → Moves n d e → Moves (n + 1) c e

/-- After `n` moves the cursor stands at the node with the number `n` among those that are reached. -/
theorem Moves.reached {n : Nat} {c d : Cursor} (h : Moves n c d) (hc : c.located.isReached = true) :
    c.reached[n]? = some d.located := by
  induction h with
  | refl c =>
    obtain ⟨rest, hreached⟩ := exists_reached hc
    rw [hreached, List.getElem?_cons_zero]
  | step hnext _ ih =>
    obtain ⟨hd, hreached⟩ := reached_of_next? hc hnext
    rw [hreached, List.getElem?_cons_succ, ih hd]

/-- A search comes to a broken node or to the end. -/
theorem exists_stop (c : Cursor) : ∃ n d, Moves n c d ∧ (d.node.isBroken = true ∨ d.next? = none) := by
  fun_induction findError c with
  | case1 c hbroken => exact ⟨0, c, .refl c, .inl hbroken⟩
  | case2 c _ d hnext ih =>
    obtain ⟨n, e, hmoves, hstop⟩ := ih
    exact ⟨n + 1, e, .step hnext hmoves, hstop⟩
  | case3 c _ hnext => exact ⟨0, c, .refl c, .inr hnext⟩

/-- A search finds the first broken node that it reaches. -/
theorem findError_eq (c : Cursor) (hc : c.located.isReached = true) :
    c.findError = (c.reached.find? (·.node.isBroken)).map (·.node) := by
  fun_induction findError c with
  | case1 c hbroken =>
    obtain ⟨rest, hreached⟩ := exists_reached hc
    rw [hreached, List.find?_cons_of_pos (a := c.located) hbroken]
    rfl
  | case2 c hbroken d hnext ih =>
    obtain ⟨hd, hreached⟩ := reached_of_next? hc hnext
    rw [hreached, List.find?_cons_of_neg (a := c.located) hbroken, ih hd]
  | case3 c hbroken hnext =>
    rw [reached_of_next?_none hc hnext, List.find?_cons_of_neg (a := c.located) hbroken]
    rfl

theorem reached_ofRoot (root : Node) : (ofRoot root).reached = (preorder [] root).filter Located.isReached := by
  simp [reached, ahead, behind, ofRoot, ancestors, behindAbove, preorderAll]

end Cursor

/-! ## The line of the first error -/

theorem findError_ofRoot (root : Node) :
    (Cursor.ofRoot root).findError =
      ((preorder [] root).find? fun l => l.isReached && l.node.isBroken).map (·.node) := by
  rw [Cursor.findError_eq _ rfl, Cursor.reached_ofRoot, List.find?_filter]
  simp only [Bool.decide_and, Bool.decide_eq_true]

/-- Exactly the nodes with something broken at or below them report an error. -/
def Marked (root : Node) : Prop :=
  ∀ l ∈ preorder [] root, l.node.hasError = (preorder l.ancestors l.node).any (·.node.isBroken)

instance (root : Node) : Decidable (Marked root) :=
  inferInstanceAs (Decidable (∀ l ∈ preorder [] root, _ = _))

theorem Marked.hasError_iff {root : Node} (h : Marked root) {top : Located} (htop : Below ⟨root, []⟩ top) :
    top.node.hasError = true ↔ ∃ l, Below top l ∧ l.node.isBroken = true := by
  rw [h top ((mem_preorder_iff [] top root).mpr htop), List.any_eq_true]
  simp only [mem_preorder_iff]

/-- Where the marks are right, every broken node is reached. -/
theorem Marked.isReached {root : Node} (h : Marked root) {l : Located} (hl : Below ⟨root, []⟩ l)
    (hbroken : l.node.isBroken = true) : l.isReached = true := by
  refine List.all_eq_true.mpr fun n hn => ?_
  obtain ⟨top, rfl, htop, hbelow⟩ := hl.exists_of_mem_ancestors hn
  exact (h.hasError_iff htop).mpr ⟨l, hbelow, hbroken⟩

theorem Marked.find?_eq {root : Node} (h : Marked root) :
    ((preorder [] root).find? fun l => l.isReached && l.node.isBroken) =
      (preorder [] root).find? (·.node.isBroken) := by
  refine List.find?_congr fun l hl => ?_
  cases hbroken : l.node.isBroken with
  | false => rw [Bool.and_false]
  | true => rw [h.isReached ((mem_preorder_iff [] l root).mp hl) hbroken, Bool.and_true]

theorem errorLine_of_reports {root : Node} (h : root.hasError = true) (s : Source) :
    errorLine s root = some (((preorder [] root).find? fun l => l.isReached && l.node.isBroken).elim
      (s.row root.start + 1) fun l => s.row l.node.start + 1) := by
  rw [errorLine, if_pos h, findError_ofRoot]
  cases (preorder [] root).find? fun l => l.isReached && l.node.isBroken <;> rfl

theorem errorLine_eq_none (s : Source) (root : Node) : errorLine s root = none ↔ root.hasError = false := by
  unfold errorLine
  cases root.hasError <;> simp

theorem Marked.errorLine_eq {root : Node} (h : Marked root) (s : Source) :
    errorLine s root = ((preorder [] root).find? (·.node.isBroken)).map fun l => s.row l.node.start + 1 := by
  have hroot := h.hasError_iff (.self : Below ⟨root, []⟩ ⟨root, []⟩)
  cases hfirst : (preorder [] root).find? (·.node.isBroken) with
  | none =>
    -- no node is broken, so the root reports nothing
    rw [Option.map_none, errorLine_eq_none, Bool.eq_false_iff]
    intro hreports
    obtain ⟨l, hl, hbroken⟩ := hroot.mp hreports
    exact List.find?_eq_none.mp hfirst l ((mem_preorder_iff [] l root).mpr hl) hbroken
  | some l =>
    have hl := (mem_preorder_iff [] l root).mp (List.mem_of_find?_eq_some hfirst)
    have hbroken := List.find?_some hfirst
    rw [errorLine_of_reports (hroot.mpr ⟨l, hl, hbroken⟩), h.find?_eq, hfirst]
    rfl

/-- A search for errors stops after fewer moves than the tree has nodes, and goes in pre-order through the nodes all of
whose ancestors report an error. Its answer is the line of the first broken one of them, or of the root if there is
none; where the marks are right, it is the line of the first broken node. -/
theorem errorLine_first (s : Source) (root : Node) :
    (∃ n c, Cursor.Moves n (.ofRoot root) c ∧ n < (preorder [] root).length ∧
      (c.node.isBroken = true ∨ c.next? = none)) ∧
    (∀ n c, Cursor.Moves n (.ofRoot root) c →
      ((preorder [] root).filter Located.isReached)[n]? = some c.located) ∧
    (errorLine s root = none ↔ root.hasError = false) ∧
    (root.hasError = true →
      errorLine s root = some (((preorder [] root).find? fun l => l.isReached && l.node.isBroken).elim
        (s.row root.start + 1) fun l => s.row l.node.start + 1)) ∧
    (Marked root →
      errorLine s root = ((preorder [] root).find? (·.node.isBroken)).map fun l => s.row l.node.start + 1) := by
  have hplace : ∀ n c, Cursor.Moves n (.ofRoot root) c →
      ((preorder [] root).filter Located.isReached)[n]? = some c.located := by
    intro n c hmoves
    rw [← Cursor.reached_ofRoot]
    exact hmoves.reached rfl
  obtain ⟨n, c, hmoves, hstop⟩ := Cursor.exists_stop (.ofRoot root)
  obtain ⟨hlt, -⟩ := List.getElem?_eq_some_iff.mp (hplace n c hmoves)
  exact ⟨⟨n, c, hmoves, Nat.lt_of_lt_of_le hlt (List.length_filter_le _ _), hstop⟩, hplace, errorLine_eq_none s root,
    fun h => errorLine_of_reports h s, fun h => h.errorLine_eq s⟩

/-- A function without errors and a class whose name is missing, on the third line. -/
def unnamedClass : Node :=
  let node (kind : String) (start stop : Nat) (missing reports : Bool) (children : List Node) : Node :=
    { kind, field := none, isNamed := true, isError := false, isMissing := missing, isExtra := false,
      hasError := reports, start, stop, children }
  node "module" 0 26 false true
    [node "function_definition" 0 11 false false [node "identifier" 4 5 false false []],
     node "class_definition" 13 26 false true [node "identifier" 18 18 true true []]]

theorem errorLine_first_unnamed :
    Marked unnamedClass ∧ unnamedClass.hasError = true ∧
      errorLine (.ofString "def f(): 1\n\nclass : pass\n") unnamedClass = some 3 :=
  ⟨by decide, rfl, ((errorLine_first _ unnamedClass).2.2.2.2 (by decide)).trans (by decide)⟩

end CodeIndex.Tree
