/-!
# Calls under way

Calls are made in their order, a limited number of them at a time, and answered in any order. The answers are
taken in the order of the calls; the first that is an error ends it.
-/

namespace CodeIndex.Calls

/-- The answers of the calls that are under way, the first ones of `calls`: those that are known already and
those that arrive. -/
def advance (f : α → β) (limit : Nat) (arrives : Nat → Bool) (known : List (Option β)) (calls : List α) :
    List (Option β) :=
  (calls.take limit).mapIdx fun i a => (known[i]?.join).or (if arrives i then some (f a) else none)

/-- The answers in the order of the calls. While the first of the calls left is awaited, those of the others
under way that `early` names are answered. -/
def collect (f : α → Except ε β) (limit : Nat) (early : List α → Nat → Bool) :
    (known : List (Option (Except ε β))) → (calls : List α) → Except ε (List β)
  | _, [] => .ok []
  | known, a :: rest => do
    let known := advance f limit (early (a :: rest)) known (a :: rest)
    let b ← (known.head?.join).getD (f a)
    return b :: (← collect f limit early known.tail rest)

end CodeIndex.Calls
