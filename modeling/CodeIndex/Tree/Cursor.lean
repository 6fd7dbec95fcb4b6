import CodeIndex.Tree.Basic

/-!
# Walking a tree

A cursor stands at a node and keeps the way it came: the siblings behind the node, and the nodes above it
with the siblings behind each. It moves to the first child, to the next sibling or to the parent, and does
not leave the tree that it was set on. A search for the first syntax error moves it.
-/

namespace CodeIndex.Tree

structure Cursor where
  node : Node
  /-- The siblings behind the node. -/
  later : List Node
  /-- The nodes above, the parent first, each with the siblings behind it. -/
  above : List (Node × List Node)

namespace Cursor

def ofRoot (root : Node) : Cursor :=
  ⟨root, [], []⟩

def firstChild? (c : Cursor) : Option Cursor :=
  match c.node.children with
  | [] => none
  | child :: later => some ⟨child, later, (c.node, c.later) :: c.above⟩

def nextSibling? (c : Cursor) : Option Cursor :=
  match c.later with
  | [] => none
  | sibling :: later => some ⟨sibling, later, c.above⟩

def parent? (c : Cursor) : Option Cursor :=
  match c.above with
  | [] => none
  | (node, later) :: above => some ⟨node, later, above⟩

variable {c d : Cursor}

theorem firstChild?_eq_some (h : c.firstChild? = some d) :
    ∃ child later, c.node.children = child :: later ∧ d = ⟨child, later, (c.node, c.later) :: c.above⟩ := by
  unfold firstChild? at h
  split at h
  · cases h
  · next child later hchildren => exact ⟨child, later, hchildren, (Option.some.inj h).symm⟩

theorem nextSibling?_eq_some (h : c.nextSibling? = some d) :
    ∃ sibling later, c.later = sibling :: later ∧ d = ⟨sibling, later, c.above⟩ := by
  unfold nextSibling? at h
  split at h
  · cases h
  · next sibling later hlater => exact ⟨sibling, later, hlater, (Option.some.inj h).symm⟩

theorem nextSibling?_eq_none (h : c.nextSibling? = none) : c.later = [] := by
  unfold nextSibling? at h
  split at h
  · next hlater => exact hlater
  · cases h

theorem parent?_eq_some (h : c.parent? = some d) : c.above = (d.node, d.later) :: d.above := by
  unfold parent? at h
  split at h
  · cases h
  · next habove =>
    cases h
    exact habove

/-- The next sibling, or that of the nearest node above that has one. -/
def onward? (c : Cursor) : Option Cursor :=
  match c.nextSibling? with
  | some d => some d
  | none =>
    match _h : c.parent? with
    | some p => p.onward?
    | none => none
termination_by c.above.length
decreasing_by
  rw [parent?_eq_some _h, List.length_cons]
  omega

/-! ## What lies ahead -/

def ancestors (c : Cursor) : List Node :=
  c.above.map (·.1)

def located (c : Cursor) : Located :=
  ⟨c.node, c.ancestors⟩

/-- The nodes behind those above, in pre-order. -/
def behindAbove : List (Node × List Node) → List Located
  | [] => []
  | (_, later) :: above => preorderAll (above.map (·.1)) later ++ behindAbove above

/-- The nodes behind the cursor's subtree, in pre-order. -/
def behind (c : Cursor) : List Located :=
  preorderAll c.ancestors c.later ++ behindAbove c.above

/-- The nodes from the cursor on, in pre-order. -/
def ahead (c : Cursor) : List Located :=
  preorder c.ancestors c.node ++ c.behind

theorem ahead_eq (c : Cursor) :
    c.ahead = c.located :: (preorderAll (c.node :: c.ancestors) c.node.children ++ c.behind) := by
  rw [ahead, preorder_eq]
  rfl

theorem ahead_of_firstChild? (h : c.firstChild? = some d) : c.ahead = c.located :: d.ahead := by
  obtain ⟨child, later, hchildren, rfl⟩ := firstChild?_eq_some h
  rw [ahead_eq, hchildren, preorderAll, List.append_assoc]
  rfl

theorem behind_of_nextSibling? (h : c.nextSibling? = some d) : c.behind = d.ahead := by
  obtain ⟨sibling, later, hlater, rfl⟩ := nextSibling?_eq_some h
  rw [behind, hlater, preorderAll, List.append_assoc]
  rfl

theorem behind_of_parent? (hlast : c.nextSibling? = none) (h : c.parent? = some d) : c.behind = d.behind := by
  rw [behind, nextSibling?_eq_none hlast, parent?_eq_some h, preorderAll]
  rfl

/-- Nothing before the place to which a cursor goes onward is skipped. -/
theorem behind_of_onward? (h : c.onward? = some d) : c.behind = d.ahead := by
  fun_induction onward? c with
  | case1 c e hnext =>
    cases h
    exact behind_of_nextSibling? hnext
  | case2 c hnext p hparent ih => rw [behind_of_parent? hnext hparent, ih h]
  | case3 => cases h

/-! ## The first syntax error -/

/-- Where a search for errors goes from a node that is none itself: below it if it reports an error. -/
def next? (c : Cursor) : Option Cursor :=
  match if c.node.hasError then c.firstChild? else none with
  | some d => some d
  | none => c.onward?

theorem next?_cases (h : c.next? = some d) :
    (c.node.hasError = true ∧ c.firstChild? = some d) ∨
      ((c.node.hasError = true → c.firstChild? = none) ∧ c.onward? = some d) := by
  unfold next? at h
  split at h
  · next hchild =>
    cases h
    split at hchild
    · next hreports => exact .inl ⟨hreports, hchild⟩
    · cases hchild
  · next hchild => exact .inr ⟨fun hreports => by rwa [if_pos hreports] at hchild, h⟩

/-- Every move leaves a node behind. -/
theorem length_ahead_of_next? (h : c.next? = some d) : d.ahead.length < c.ahead.length := by
  obtain ⟨-, hchild⟩ | ⟨-, honward⟩ := next?_cases h
  · rw [ahead_of_firstChild? hchild, List.length_cons]
    omega
  · rw [← behind_of_onward? honward, ahead_eq c, List.length_cons, List.length_append]
    omega

/-- The first error or missing node from the cursor on, looking only below nodes that report an error. -/
def findError (c : Cursor) : Option Node :=
  if c.node.isBroken then some c.node
  else
    match _h : c.next? with
    | some d => d.findError
    | none => none
termination_by c.ahead.length
decreasing_by exact length_ahead_of_next? _h

end Cursor

/-- The line of the first syntax error; the root's line when the tree reports one that is not found. -/
def errorLine (s : Source) (root : Node) : Option Nat :=
  if root.hasError then some (((Cursor.ofRoot root).findError.getD root).startLine s) else none

end CodeIndex.Tree
