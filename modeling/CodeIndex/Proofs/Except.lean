/-!
# Runs that can fail

What the steps of a run have given when the run succeeds, and what it gives when a step fails.
-/

namespace CodeIndex

variable {α β ε : Type}

theorem exists_of_bind_eq_ok {x : Except ε α} {f : α → Except ε β} {b : β} (h : x >>= f = .ok b) :
    ∃ a, x = .ok a ∧ f a = .ok b := by
  cases x with
  | error e => cases h
  | ok a => exact ⟨a, rfl, h⟩

theorem exists_of_map_eq_ok {x : Except ε α} {f : α → β} {b : β} (h : x.map f = .ok b) :
    ∃ a, x = .ok a ∧ f a = b := by
  cases x with
  | error e => cases h
  | ok a =>
    cases h
    exact ⟨a, rfl, rfl⟩

theorem exists_of_isOk {x : Except ε α} (h : x.isOk = true) : ∃ a, x = .ok a := by
  cases x with
  | error e => cases h
  | ok a => exact ⟨a, rfl⟩

theorem eq_ok_of_toOption {x : Except ε α} {a : α} (h : x.toOption = some a) : x = .ok a := by
  cases x with
  | error e => cases h
  | ok b =>
    cases h
    rfl

variable {f : α → Except ε β} {a : α} {as more : List α} {bs : List β}

theorem mapM_cons_eq_ok :
    (a :: as).mapM f = .ok bs ↔ ∃ b rest, f a = .ok b ∧ as.mapM f = .ok rest ∧ bs = b :: rest := by
  rw [List.mapM_cons]
  cases f a <;> cases as.mapM f <;> simp [bind, Except.bind, pure, Except.pure, eq_comm]

theorem mapM_append_eq_ok :
    (as ++ more).mapM f = .ok bs ↔
      ∃ front back, as.mapM f = .ok front ∧ more.mapM f = .ok back ∧ bs = front ++ back := by
  rw [List.mapM_append]
  cases as.mapM f <;> cases more.mapM f <;> simp [bind, Except.bind, pure, Except.pure, eq_comm]

/-- Every result comes from an element. -/
theorem exists_of_mapM (h : as.mapM f = .ok bs) : ∀ b ∈ bs, ∃ a ∈ as, f a = .ok b := by
  induction as generalizing bs with
  | nil =>
    cases h
    exact List.forall_mem_nil _
  | cons a as ih =>
    obtain ⟨b, rest, hb, hrest, rfl⟩ := mapM_cons_eq_ok.mp h
    intro c hc
    rcases List.mem_cons.mp hc with rfl | hc
    · exact ⟨a, List.mem_cons_self, hb⟩
    · obtain ⟨a', ha', hc⟩ := ih hrest c hc
      exact ⟨a', List.mem_cons_of_mem a ha', hc⟩

/-- Every element gives a result. -/
theorem exists_result_of_mapM (h : as.mapM f = .ok bs) (ha : a ∈ as) : ∃ b ∈ bs, f a = .ok b := by
  induction as generalizing bs with
  | nil => cases ha
  | cons first as ih =>
    obtain ⟨b, rest, hb, hrest, rfl⟩ := mapM_cons_eq_ok.mp h
    rcases List.mem_cons.mp ha with rfl | ha
    · exact ⟨b, List.mem_cons_self, hb⟩
    · obtain ⟨c, hc, hfa⟩ := ih hrest ha
      exact ⟨c, List.mem_cons_of_mem b hc, hfa⟩

theorem length_of_mapM (h : as.mapM f = .ok bs) : bs.length = as.length := by
  induction as generalizing bs with
  | nil =>
    cases h
    rfl
  | cons a as ih =>
    obtain ⟨b, rest, _, hrest, rfl⟩ := mapM_cons_eq_ok.mp h
    rw [List.length_cons, List.length_cons, ih hrest]

theorem mapM_eq_map {g : α → β} (hg : ∀ a b, f a = .ok b → b = g a) (h : as.mapM f = .ok bs) : bs = as.map g := by
  induction as generalizing bs with
  | nil =>
    cases h
    rfl
  | cons a as ih =>
    obtain ⟨b, rest, hb, hrest, rfl⟩ := mapM_cons_eq_ok.mp h
    rw [List.map_cons, hg a b hb, ih hrest]

/-- The first element that fails gives the error. -/
theorem mapM_eq_error {i : Nat} {e : ε} (hfront : (as.take i).mapM f = .ok bs) (ha : as[i]? = some a)
    (he : f a = .error e) : as.mapM f = .error e := by
  have hsplit : as = as.take i ++ a :: as.drop (i + 1) := by
    obtain ⟨hi, rfl⟩ := List.getElem?_eq_some_iff.mp ha
    rw [List.getElem_cons_drop, List.take_append_drop]
  rw [hsplit, List.mapM_append, hfront, List.mapM_cons, he]
  rfl

end CodeIndex
