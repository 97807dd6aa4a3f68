import AtomicCss.Plugin.Pipeline
import AtomicCss.Selector.Chain

/-!
# Extraction

Extraction walks through a style in source order and lists what it says: an
assignment for each property, and the name of each shortcut that is left when the
plugins have had their say. The keys of nested definitions and item lists form
the chain of selectors.

- `Extraction.definition`: what a definition says under a chain.
- `Extraction.items`: what a list of items says under a chain.

The plugins see every chain, every definition and every list of items on the way,
and can replace them, so the depth of the walk is bounded by a budget only.
-/

namespace AtomicCss.Extraction

variable {σ : Type}

/-- What a list of items says, given what a definition says. -/
def itemsWith (budget : Nat)
    (deeper : List String → StyleDefinition → Walk (Pipeline σ) (List Extracted))
    (chain : List String) (items : List StyleItem) : Walk (Pipeline σ) (List Extracted) := do
  let items ← Pipeline.transformItems budget items
  Walk.collect (fun
    | .shortcut name => return [.unknown name]
    | .definition d => deeper chain d) items

/-- What an entry of a definition says: `selectors` is the normal form of the
chain, under which its properties are set. -/
def entryWith (budget : Nat)
    (deeper : List String → StyleDefinition → Walk (Pipeline σ) (List Extracted))
    (chain selectors : List String) : String × StyleValue → Walk (Pipeline σ) (List Extracted)
  | (key, .property value) =>
    return [.assignment ⟨selectors, propertyName key, value.normalize⟩]
  | (key, .nested d) => deeper (chain ++ [key]) d
  | (key, .items items) => itemsWith budget deeper (chain ++ [key]) items

/-- What a definition says under a chain. -/
def definition (defaultSelector : String) :
    (budget : Nat) → (chain : List String) → StyleDefinition →
      Walk (Pipeline σ) (List Extracted)
  | 0, _, _ => Walk.unfinished
  | budget + 1, chain, d => do
    let replaced ← Pipeline.transformSelectors budget chain
    let selectors := Selector.normalize replaced defaultSelector
    let definitions ← Pipeline.transformDefinitions [d]
    Walk.collect (fun d =>
      Walk.collect
        (entryWith budget (definition defaultSelector budget) chain selectors) d) definitions

/-- What a list of items says under a chain. -/
def items (defaultSelector : String) (budget : Nat) (chain : List String)
    (list : List StyleItem) : Walk (Pipeline σ) (List Extracted) :=
  itemsWith budget (definition defaultSelector budget) chain list

end AtomicCss.Extraction
