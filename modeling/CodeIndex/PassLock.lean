import CodeIndex.Error

/-!
# One pass at a time

Passes over a repository share a lock, which a running pass holds to its end. One that comes meanwhile is refused and
does nothing, so that passes act one after another, in the order in which they were let in (`act_run`).
-/

namespace CodeIndex

/-- What passes act on, with the pass that holds the lock. -/
structure Locked (σ : Type) where
  root : String
  state : σ
  running : Option (σ → σ) := none

namespace Locked

variable {σ : Type}

/-- Lets a pass in, unless one is running. -/
def start (x : Locked σ) (pass : σ → σ) : Except IndexError (Locked σ) :=
  match x.running with
  | some _ => .error (.busy x.root)
  | none => .ok { x with running := some pass }

/-- Ends the pass that is running. -/
def finish (x : Locked σ) : Locked σ :=
  match x.running with
  | some pass => { x with state := pass x.state, running := none }
  | none => x

/-- A pass comes, or the running one ends. -/
inductive Event (σ : Type) where
  | comes (pass : σ → σ)
  | ends

def step (x : Locked σ) : Event σ → Locked σ
  | .comes pass => (x.start pass).toOption.getD x
  | .ends => x.finish

def run (x : Locked σ) (events : List (Event σ)) : Locked σ :=
  events.foldl step x

/-- Of the passes that come, those that are let in. -/
def admitted (x : Locked σ) : List (Event σ) → List (σ → σ)
  | [] => []
  | .comes pass :: rest => (x.start pass).toOption.toList.map (fun _ => pass) ++ admitted (x.step (.comes pass)) rest
  | .ends :: rest => admitted x.finish rest

/-- What passes make of a state one after another. -/
def act (passes : List (σ → σ)) (state : σ) : σ :=
  passes.foldl (fun state pass => pass state) state

theorem act_append (passes more : List (σ → σ)) (state : σ) : act (passes ++ more) state = act more (act passes state) :=
  List.foldl_append

/-- Once a pass is through, the running one has acted on what it found. -/
theorem act_finish (x : Locked σ) : act x.finish.running.toList x.finish.state = act x.running.toList x.state := by
  unfold finish
  cases h : x.running with
  | some pass => rfl
  | none => simp only [h]

theorem act_start (x : Locked σ) (pass : σ → σ) :
    act (x.step (.comes pass)).running.toList (x.step (.comes pass)).state =
      act ((x.start pass).toOption.toList.map fun _ => pass) (act x.running.toList x.state) := by
  simp only [step, start]
  cases h : x.running with
  | some other =>
    simp only [Except.toOption, Option.getD_none, h]
    rfl
  | none => rfl

/-- Whatever comes and ends when, the passes that were let in have acted one after another, but for the one that is
still running. -/
theorem act_run (x : Locked σ) (events : List (Event σ)) :
    act (x.run events).running.toList (x.run events).state =
      act (x.admitted events) (act x.running.toList x.state) := by
  induction events generalizing x with
  | nil => rfl
  | cons e rest ih =>
    rw [run, List.foldl_cons, ← run, ih]
    cases e with
    | comes pass => rw [admitted, act_append, act_start]
    | ends =>
      rw [admitted, ← act_finish x]
      rfl

end Locked

end CodeIndex
