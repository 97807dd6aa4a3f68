import AtomicCss.Alias.Rules
import AtomicCss.Style.Value
import AtomicCss.Walk

/-!
# Expansion of aliases

Where the answer of an alias is a list, its elements can name aliases again. The
expansion of an alias replaces every element that has an answer by its own
expansion, until no element has one. A name that is met inside its own expansion
is a cycle.

- `AliasRules.expand`: the expansion, which is remembered as the answer of the
  alias. Answers of the rules that were met on the way to an error stay
  remembered as they are.
- `AliasRules.expandSelector`: a selector without an answer stands for itself.
- `AliasRules.expandShortcut`: a shortcut without an answer has no expansion.
-/

namespace AtomicCss.AliasRules

variable {α : Type}

/-- Expand the elements of an answer from left to right. An element without a
name, or whose name has no expansion, stays. -/
def expandElements (name? : α → Option String)
    (expand : String → Walk (AliasRules (List α)) (Option (List α))) :
    List α → Walk (AliasRules (List α)) (List α) :=
  Walk.collect fun element => do
    match name? element with
    | none => return [element]
    | some name =>
      match ← expand name with
      | none => return [element]
      | some expansion => return expansion

/-- The expansion of an alias. `path` holds the names that are being expanded,
outermost first. -/
def expand (kind : AliasKind) (name? : α → Option String) :
    (budget : Nat) → (path : List String) → (input : String) →
      Walk (AliasRules (List α)) (Option (List α))
  | 0, _, _ => Walk.unfinished
  | budget + 1, path, input => do
    if input ∈ path then throw (.cyclic kind (path ++ [input]))
    match ← Walk.step (·.resolve input) with
    | none => return none
    | some answer =>
      let expansion ← expandElements name? (expand kind name? budget (path ++ [input])) answer
      Walk.step fun r => ((), r.remember input expansion)
      return some expansion

/-- The selectors that a selector stands for. -/
def expandSelector (budget : Nat) (selector : String) :
    Walk (AliasRules (List String)) (List String) := do
  match ← expand .selector some budget [] selector with
  | some expansion => return expansion
  | none => return [selector]

/-- The items that a shortcut stands for, if it is one. -/
def expandShortcut (budget : Nat) (name : String) :
    Walk (AliasRules (List StyleItem)) (Option (List StyleItem)) :=
  expand .shortcut StyleItem.shortcut? budget [] name

end AtomicCss.AliasRules
