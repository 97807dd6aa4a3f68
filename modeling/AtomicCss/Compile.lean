import AtomicCss.Engine

/-!
# Compiling calls

A batch of calls, each a list of items, is compiled by one engine in order.

- `Compilation`: the names of each call, the unknown shortcuts of all calls, the
  stylesheet and the number of rules.
- `compileCalls`: compile a batch; the first error ends it.
-/

namespace AtomicCss

/-- The result of a batch. -/
structure Compilation where
  names : List (List String)
  unknown : List String
  css : String
  ruleCount : Nat
  deriving DecidableEq, Repr

/-- Use the items of every call in order. -/
def useCalls {σ : Type} (budget : Nat) :
    List (List StyleItem) → Walk (Engine σ) (List UseOutcome) :=
  Walk.collect fun call => do return [← Engine.useStyles budget call]

/-- The compilation of an engine that has used every call. -/
def Compilation.of {σ : Type} (outcomes : List UseOutcome) (e : Engine σ) : Compilation :=
  { names := outcomes.map UseOutcome.names
    unknown := distinct (outcomes.flatMap UseOutcome.unknown)
    css := e.renderStyles
    ruleCount := e.store.size }

/-- Compile a batch of calls with a new engine. -/
def compileCalls {σ : Type} (budget : Nat) (config : EngineConfig σ) (shared : σ)
    (calls : List (List StyleItem)) : Option (Except Error (Compilation × List Warning)) :=
  match Engine.create config shared with
  | none => none
  | some (.error e) => some (.error e)
  | some (.ok (engine, warnings)) =>
    match useCalls budget calls engine with
    | none => none
    | some (.error e, _) => some (.error e)
    | some (.ok outcomes, engine) => some (.ok (Compilation.of outcomes engine, warnings))

end AtomicCss
