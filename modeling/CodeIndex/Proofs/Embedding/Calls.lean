import CodeIndex.Embedding.Calls

/-!
# Answers in the order of the calls

What is collected from calls under way is what calls made one after the other give, however many may be under
way and in whatever order their answers arrive.
-/

namespace CodeIndex.Calls

variable {α β ε : Type}

/-- Every answer that is known is the answer to the call in its place. -/
def Known (f : α → β) (known : List (Option β)) (calls : List α) : Prop :=
  ∀ (i : Nat) (b : β), known[i]? = some (some b) → calls[i]?.map f = some b

section Step

variable {f : α → β} {known : List (Option β)} {a : α} {calls : List α}

theorem known_nil (f : α → β) (calls : List α) : Known f [] calls := by
  intro i b hb
  simp at hb

theorem Known.advance (h : Known f known calls) (limit : Nat) (arrives : Nat → Bool) :
    Known f (Calls.advance f limit arrives known calls) calls := by
  intro i b hb
  rw [Calls.advance, List.getElem?_mapIdx, Option.map_eq_some_iff] at hb
  obtain ⟨a, ha, hb⟩ := hb
  have hcall : calls[i]? = some a := by
    rw [List.getElem?_take] at ha
    split at ha
    · exact ha
    · cases ha
  cases hknown : known[i]?.join with
  | some b' =>
    rw [hknown, Option.some_or, Option.some.injEq] at hb
    subst hb
    exact h i b' (Option.join_eq_some_iff.mp hknown)
  | none =>
    rw [hknown, Option.none_or] at hb
    split at hb
    · rw [hcall, Option.map_some, hb]
    · cases hb

theorem Known.head_eq (h : Known f known (a :: calls)) : known.head?.join.getD (f a) = f a := by
  cases hhead : known.head?.join with
  | none => rfl
  | some b =>
    have hb : known[0]? = some (some b) := by
      rw [← List.head?_eq_getElem?]
      exact Option.join_eq_some_iff.mp hhead
    exact (Option.some.inj (h 0 b hb)).symm

theorem Known.tail (h : Known f known (a :: calls)) : Known f known.tail calls := by
  intro i b hb
  rw [List.getElem?_tail] at hb
  exact h (i + 1) b hb

end Step

theorem Known.collect_eq {f : α → Except ε β} {known : List (Option (Except ε β))} {calls : List α}
    (h : Known f known calls) (limit : Nat) (early : List α → Nat → Bool) :
    collect f limit early known calls = calls.mapM f := by
  induction calls generalizing known with
  | nil => rfl
  | cons a rest ih =>
    have hadvanced := h.advance limit (early (a :: rest))
    rw [collect, List.mapM_cons, hadvanced.head_eq, ih hadvanced.tail]

/-- Neither the limit nor the order in which answers arrive changes what is collected. -/
theorem collect_eq_mapM (f : α → Except ε β) (limit : Nat) (early : List α → Nat → Bool) (calls : List α) :
    collect f limit early [] calls = calls.mapM f :=
  (known_nil f calls).collect_eq limit early

end CodeIndex.Calls
