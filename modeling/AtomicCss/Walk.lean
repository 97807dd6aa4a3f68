import AtomicCss.Error

/-!
# Walks

Expansion and extraction change a state, can fail, and may go on for ever: a
pattern rule can answer a name with an ever longer one, and a shortcut can lead
back to itself through a nested list. A `Walk` makes all of it explicit. It gets
a budget of nested steps from its caller; a walk that needs more has no result,
which is neither a value nor an error, and the same walk with a greater budget
may have one.

- `Walk`: a result or an error together with the state at that point, or nothing.
- `Walk.unfinished`: the walk whose budget is spent.
- `Walk.collect`: a walk for each element of a list, results joined.
- `Walk.within`: a walk on a part of a larger state.
-/

namespace AtomicCss

/-- A computation on a state of type `σ` that can fail, keeping the state it has
reached, and that has no result if its budget is spent. -/
abbrev Walk (σ α : Type) := ExceptT Error (StateT σ Option) α

namespace Walk

variable {σ τ α β : Type}

/-- The walk whose budget is spent. -/
def unfinished : Walk σ α := fun _ => none

/-- A walk given by what it does to the state. -/
def ofStep (f : σ → Option (Except Error α × σ)) : Walk σ α := f

/-- Run a walk from a state. -/
def runFrom (w : Walk σ α) (s : σ) : Option (Except Error α × σ) := w s

/-- A walk that always succeeds at once. -/
def step (f : σ → α × σ) : Walk σ α := fun s => some (.ok (f s).1, (f s).2)

/-- Walk through a list and join what the walks of its elements give. -/
def collect (f : α → Walk σ (List β)) : List α → Walk σ (List β)
  | [] => pure []
  | a :: as => do
    let here ← f a
    let rest ← collect f as
    return here ++ rest

/-- A walk on a part of the state, given by a getter and a setter. -/
def within (get : τ → σ) (set : σ → τ → τ) (w : Walk σ α) : Walk τ α := fun t =>
  match w (get t) with
  | none => none
  | some (r, s) => some (r, set s t)

/-- The result of a walk without its state. -/
def result? (r : Option (Except Error α × σ)) : Option (Except Error α) := r.map Prod.fst

end Walk

end AtomicCss
