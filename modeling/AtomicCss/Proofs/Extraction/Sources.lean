import AtomicCss.Extraction
import AtomicCss.Proofs.Walk.Lockstep

/-!
# Extraction with sources

An assignment comes from one entry of one definition, which extraction does not write down.
Here it does, beside the assignment and without any effect on it: the definition is the one
that the walk has entered, as it stands before the plugins replace it.

- `Sourced`: an assignment with the definition in which it is written, or an unknown name.
- `Extraction.sourcedDefinition`, `Extraction.sourcedItems`: extraction with sources.
- `Extraction.items_eq_sourced`: without the sources this is extraction, whatever the plugins.
-/

namespace AtomicCss

variable {σ : Type}

/-- What extraction lists, an assignment with the definition in which it is written. -/
inductive Sourced where
  | assignment (source : StyleDefinition) (a : Assignment)
  | unknown (name : String)

/-- What is listed, without its source. -/
def Sourced.extracted : Sourced → Extracted
  | .assignment _ a => .assignment a
  | .unknown name => .unknown name

namespace Extraction

open Walk

/-- What a list of items says with its sources, given what a definition says. -/
def sourcedItemsWith (budget : Nat)
    (deeper : List String → StyleDefinition → Walk (Pipeline σ) (List Sourced))
    (chain : List String) (items : List StyleItem) : Walk (Pipeline σ) (List Sourced) := do
  let items ← Pipeline.transformItems budget items
  Walk.collect (fun
    | .shortcut name => return [.unknown name]
    | .definition d => deeper chain d) items

/-- What an entry of a definition says with its sources. -/
def sourcedEntryWith (budget : Nat)
    (deeper : List String → StyleDefinition → Walk (Pipeline σ) (List Sourced))
    (source : StyleDefinition) (chain selectors : List String) :
    String × StyleValue → Walk (Pipeline σ) (List Sourced)
  | (key, .property value) =>
    return [.assignment source ⟨selectors, propertyName key, value.normalize⟩]
  | (key, .nested d) => deeper (chain ++ [key]) d
  | (key, .items items) => sourcedItemsWith budget deeper (chain ++ [key]) items

/-- What a definition says under a chain with its sources. -/
def sourcedDefinition (defaultSelector : String) :
    (budget : Nat) → (chain : List String) → StyleDefinition →
      Walk (Pipeline σ) (List Sourced)
  | 0, _, _ => Walk.unfinished
  | budget + 1, chain, source => do
    let replaced ← Pipeline.transformSelectors budget chain
    let selectors := Selector.normalize replaced defaultSelector
    let definitions ← Pipeline.transformDefinitions [source]
    Walk.collect (fun d =>
      Walk.collect (sourcedEntryWith budget (sourcedDefinition defaultSelector budget) source
        chain selectors) d) definitions

/-- What a list of items says under a chain with its sources. -/
def sourcedItems (defaultSelector : String) (budget : Nat) (chain : List String)
    (list : List StyleItem) : Walk (Pipeline σ) (List Sourced) :=
  sourcedItemsWith budget (sourcedDefinition defaultSelector budget) chain list

/-! ## Without the sources -/

/-- The second walk lists without sources what the first one lists with them. -/
abbrev Erases (w : Walk (Pipeline σ) (List Sourced)) (w' : Walk (Pipeline σ) (List Extracted)) :
    Prop := Lockstep Eq (List.Forall₂ fun x y => x.extracted = y) w w'

/-- A walk that is the same on both sides. -/
theorem lockstep_self {α : Type} (w : Walk (Pipeline σ) α) : Lockstep Eq Eq w w :=
  fun _ _ h => h ▸ Alike.refl _

variable (budget : Nat) {deeper : List String → StyleDefinition → Walk (Pipeline σ) (List Sourced)}
  {deeper' : List String → StyleDefinition → Walk (Pipeline σ) (List Extracted)}

theorem erases_itemsWith (h : ∀ chain d, Erases (deeper chain d) (deeper' chain d))
    (chain : List String) (items : List StyleItem) :
    Erases (sourcedItemsWith budget deeper chain items) (itemsWith budget deeper' chain items) := by
  refine lockstep_bind (lockstep_self _) fun items _ heq => ?_
  subst heq
  refine lockstep_collect_same (fun item => ?_) items
  cases item with
  | shortcut name => exact lockstep_pure (forall₂_image_iff.2 rfl)
  | definition d => exact h chain d

theorem erases_entryWith (h : ∀ chain d, Erases (deeper chain d) (deeper' chain d))
    (source : StyleDefinition) (chain selectors : List String) (e : String × StyleValue) :
    Erases (sourcedEntryWith budget deeper source chain selectors e)
      (entryWith budget deeper' chain selectors e) := by
  obtain ⟨key, value⟩ := e
  cases value with
  | property value => exact lockstep_pure (forall₂_image_iff.2 rfl)
  | nested d => exact h (chain ++ [key]) d
  | items items => exact erases_itemsWith budget h (chain ++ [key]) items

theorem erases_definition (host : String) (budget : Nat) (chain : List String)
    (d : StyleDefinition) :
    Erases (σ := σ) (sourcedDefinition host budget chain d) (definition host budget chain d) := by
  induction budget generalizing chain d with
  | zero => exact lockstep_unfinished
  | succ budget ih =>
    refine lockstep_bind (lockstep_self _) fun replaced _ heq => ?_
    subst heq
    refine lockstep_bind (lockstep_self _) fun definitions _ heq => ?_
    subst heq
    -- the same definitions are gone through, entry by entry
    exact lockstep_collect_same (lockstep_collect_same (erases_entryWith budget ih d chain _))
      definitions

/-- What extraction lists, it lists with sources, which are then dropped. -/
theorem items_eq_sourced (host : String) (budget : Nat) (chain : List String)
    (list : List StyleItem) (p : Pipeline σ) :
    items host budget chain list p = (sourcedItems host budget chain list p).map fun x =>
      (x.1.map (List.map Sourced.extracted), x.2) := by
  have h := erases_itemsWith budget (erases_definition host budget) chain list p p rfl
  exact (h.imp fun _ _ => forall₂_image_iff.1).eq_map

end Extraction

end AtomicCss
