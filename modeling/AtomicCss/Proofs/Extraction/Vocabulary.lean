import AtomicCss.Alias.Expansion
import AtomicCss.Extraction
import AtomicCss.Proofs.Alias.Unfolding

/-!
# What items say

What items say to an engine with the bundled plugins depends on four things that
never change: the answers of the two kinds of alias rules, the configured default
of the important flag, and the default selector. Together they are a vocabulary,
and what items say in it is a reading.

- `Vocabulary`: what the bundled plugins and the engine have been told.
- `Vocabulary.selectors`, `Vocabulary.expansion`: what a chain and a list of items
  stand for.
- `Vocabulary.definition`, `Vocabulary.items`: what is said under a chain.
- `Vocabulary.extractAll`: what a list of items says.
- `Vocabulary.rising_extractAll`: more budget says no less.
- `Vocabulary.isCycle_of_extractAll`: the only errors are those of cycles.
-/

namespace AtomicCss

open Reading AliasRules Relation

/-- What the bundled plugins and the engine have been told. -/
structure Vocabulary where
  selector? : String → Option (List String)
  shortcut? : String → Option (List StyleItem)
  important : Bool
  host : String

/-- The error is that of a cycle. -/
def Error.IsCycle (e : Error) : Prop := ∃ kind chain, e = .cyclic kind chain

namespace Vocabulary

variable (v : Vocabulary)

/-! ## Aliases -/

/-- The selectors that a selector stands for. -/
def selector (budget : Nat) (selector : String) : Reading (List String) := do
  return (← unfold .selector some v.selector? budget [] selector).getD [selector]

/-- The selectors that a chain stands for. -/
def selectors (budget : Nat) (chain : List String) : Reading (List String) :=
  Walk.collect (v.selector budget) chain

/-- The items that an item stands for. -/
def item (budget : Nat) : StyleItem → Reading (List StyleItem)
  | .shortcut name => do
    return (← unfold .shortcut StyleItem.shortcut? v.shortcut? budget [] name).getD
      [.shortcut name]
  | .definition d => pure [.definition d]

/-- The items that a list of items stands for. -/
def expansion (budget : Nat) (items : List StyleItem) : Reading (List StyleItem) :=
  Walk.collect (v.item budget) items

/-! ## Definitions and items -/

/-- What an expanded item says, given what a definition says. -/
def part (deeper : StyleDefinition → Reading (List Extracted)) :
    StyleItem → Reading (List Extracted)
  | .shortcut name => pure [.unknown name]
  | .definition d => deeper d

/-- What an entry of a definition says. -/
def entry (budget : Nat)
    (deeper : List String → StyleDefinition → Reading (List Extracted))
    (chain selectors : List String) : String × StyleValue → Reading (List Extracted)
  | (key, .property value) =>
    pure [.assignment ⟨selectors, propertyName key, value.normalize⟩]
  | (key, .nested d) => deeper (chain ++ [key]) d
  | (key, .items items) => do
    Walk.collect (part (deeper (chain ++ [key]))) (← v.expansion budget items)

/-- What a definition says under a chain. -/
def definition : (budget : Nat) → (chain : List String) → StyleDefinition →
    Reading (List Extracted)
  | 0, _, _ => Walk.unfinished
  | budget + 1, chain, d => do
    let replaced ← v.selectors budget chain
    let selectors := Selector.normalize replaced v.host
    Walk.collect (v.entry budget (definition budget) chain selectors)
      (Important.apply v.important d)

/-- What a list of items says under a chain. -/
def items (budget : Nat) (chain : List String) (list : List StyleItem) :
    Reading (List Extracted) := do
  Walk.collect (part (v.definition budget chain)) (← v.expansion budget list)

/-- What an item says. -/
def extractItem (budget : Nat) : StyleItem → Reading (List Extracted)
  | .shortcut name => v.items budget [] [.shortcut name]
  | .definition d => v.definition budget [] d

/-- What a list of items says. -/
def extractAll (budget : Nat) (items : List StyleItem) : Reading (List Extracted) :=
  Walk.collect (v.extractItem budget) items

/-! ## More budget -/

/-- What a chain expands to does not change with a greater budget. -/
theorem rising_selectors (chain : List String) : Rising fun b => v.selectors b chain :=
  rising_collect (fun _ => rising_bind (rising_unfold _ _) fun _ => rising_const _) chain

theorem rising_item : ∀ item : StyleItem, Rising fun b => v.item b item
  | .shortcut _ => rising_bind (rising_unfold _ _) fun _ => rising_const _
  | .definition _ => rising_const _

/-- What items expand to does not change with a greater budget. -/
theorem rising_expansion (items : List StyleItem) : Rising fun b => v.expansion b items :=
  rising_collect v.rising_item items

/-- An item gives no less if definitions give no less. -/
theorem below_part {deeper deeper' : StyleDefinition → Reading (List Extracted)}
    (h : ∀ d, Below (deeper d) (deeper' d)) :
    ∀ item : StyleItem, Below (part deeper item) (part deeper' item)
  | .shortcut _ => Below.refl _
  | .definition d => h d

/-- An entry gives no less if nested definitions give no less. -/
theorem below_entry {b c : Nat} (hbc : b ≤ c)
    {deeper deeper' : List String → StyleDefinition → Reading (List Extracted)}
    (h : ∀ chain d, Below (deeper chain d) (deeper' chain d)) (chain selectors : List String) :
    ∀ e, Below (v.entry b deeper chain selectors e) (v.entry c deeper' chain selectors e)
  | (_, .property _) => Below.refl _
  | (_, .nested _) => h _ _
  | (_, .items items) =>
    below_bind (v.rising_expansion items b c hbc) fun _ =>
      below_collect (below_part (h _)) _

/-- What a definition says does not change with a greater budget, at any depth. -/
theorem below_definition : ∀ {b c : Nat}, b ≤ c → ∀ (chain : List String)
    (d : StyleDefinition), Below (v.definition b chain d) (v.definition c chain d)
  | 0, _, _, _, _ => below_unfinished _
  | b + 1, c + 1, hbc, chain, _ => by
    have hbc' := Nat.le_of_succ_le_succ hbc
    refine below_bind (v.rising_selectors chain b c hbc') fun _ => below_collect (fun e => ?_) _
    exact v.below_entry hbc' (below_definition hbc') chain _ e

theorem rising_definition (chain : List String) (d : StyleDefinition) :
    Rising fun b => v.definition b chain d :=
  fun _ _ hbc => v.below_definition hbc chain d

/-- What a list says does not change with a greater budget. -/
theorem rising_items (chain : List String) (list : List StyleItem) :
    Rising fun b => v.items b chain list :=
  fun b c hbc => below_bind (v.rising_expansion list b c hbc) fun _ =>
    below_collect (below_part (v.below_definition hbc chain)) _

theorem rising_extractItem : ∀ item : StyleItem, Rising fun b => v.extractItem b item
  | .shortcut name => v.rising_items [] [.shortcut name]
  | .definition d => v.rising_definition [] d

theorem rising_extractAll (items : List StyleItem) : Rising fun b => v.extractAll b items :=
  rising_collect v.rising_extractItem items

/-! ## Errors -/

variable {v} {b : Nat} {e : Error}

/-- The only error of a chain is a cycle. -/
theorem isCycle_of_selectors {chain : List String}
    (h : Gives (v.selectors b chain) (.error e)) : e.IsCycle := by
  obtain ⟨s, -, hs⟩ := exists_of_collect_error h
  exact ⟨_, exists_chain_of_unfold_error (gives_map_error.1 hs)⟩

/-- The only error of expanding items is a cycle. -/
theorem isCycle_of_expansion {items : List StyleItem}
    (h : Gives (v.expansion b items) (.error e)) : e.IsCycle := by
  obtain ⟨i, -, hi⟩ := exists_of_collect_error h
  cases i with
  | definition d => cases gives_pure.1 hi
  | shortcut name => exact ⟨_, exists_chain_of_unfold_error (gives_map_error.1 hi)⟩

/-- If cycles are the only errors of definitions, they are the only ones of items. -/
theorem isCycle_of_items {chain : List String} {list : List StyleItem}
    (hdeeper : ∀ d, Gives (v.definition b chain d) (.error e) → e.IsCycle)
    (h : Gives (v.items b chain list) (.error e)) : e.IsCycle := by
  rcases gives_bind.1 h with ⟨e', he, heq⟩ | ⟨out, -, hout⟩
  · obtain rfl := Except.error.inj heq
    exact isCycle_of_expansion he
  · obtain ⟨i, -, hi⟩ := exists_of_collect_error hout
    cases i with
    | definition d => exact hdeeper d hi
    | shortcut name => cases gives_pure.1 hi

/-- The only error of a definition is a cycle, at any depth. -/
theorem isCycle_of_definition {chain : List String} {d : StyleDefinition}
    (h : Gives (v.definition b chain d) (.error e)) : e.IsCycle := by
  induction b generalizing chain d with
  | zero => exact absurd h not_gives_unfinished
  | succ b ih =>
    rcases gives_bind.1 h with ⟨e', he, heq⟩ | ⟨out, -, hentries⟩
    · obtain rfl := Except.error.inj heq
      exact isCycle_of_selectors he
    · obtain ⟨⟨key, value⟩, -, hentry⟩ := exists_of_collect_error hentries
      cases value with
      | property value => cases gives_pure.1 hentry
      | nested d' => exact ih hentry
      | items items => exact isCycle_of_items (fun _ => ih) hentry

/-- Items say something or are cyclic: there is no other error. -/
theorem isCycle_of_extractAll {items : List StyleItem}
    (h : Gives (v.extractAll b items) (.error e)) : e.IsCycle := by
  obtain ⟨i, -, hi⟩ := exists_of_collect_error h
  cases i with
  | definition d => exact isCycle_of_definition hi
  | shortcut name => exact isCycle_of_items (fun _ => isCycle_of_definition) hi

/-- A shortcut that leads to itself says nothing. -/
theorem not_gives_ok_of_cyclic {items : List StyleItem} {name : String}
    (hname : .shortcut name ∈ items)
    (hcycle : TransGen (Mentions StyleItem.shortcut? v.shortcut?) name name)
    (parts : List Extracted) : ¬ Gives (v.extractAll b items) (.ok parts) := by
  intro h
  -- the shortcut would have been expanded, and so would have been unfolded
  obtain ⟨here, hhere⟩ := h.of_collect_ok _ hname
  rcases gives_bind.1 hhere with ⟨_, -, heq⟩ | ⟨out, hout, -⟩
  · cases heq
  · obtain ⟨full, hfull⟩ := hout.of_collect_ok _ List.mem_cons_self
    rcases gives_bind.1 hfull with ⟨_, -, heq⟩ | ⟨answer, hanswer, -⟩
    · cases heq
    · exact not_transGen_self_of_unfold hanswer hcycle

end Vocabulary

end AtomicCss
