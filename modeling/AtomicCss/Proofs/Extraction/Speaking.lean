import AtomicCss.Proofs.Alias.Expansion
import AtomicCss.Proofs.Extraction.Vocabulary

/-!
# Pipelines that speak a vocabulary

The bundled plugins, with any static and pattern rules and whatever these remember,
say in every place what their vocabulary says. What they remember and what the
plugins share does not matter.

- `Pipeline.bundled`, `Pipeline.plain`: the bundled plugins in the order of calls, with the
  one for importance and without it.
- `Pipeline.Speaks`: a pipeline of bundled plugins whose rules are sound.
- `Pipeline.transformSelectors_run`, `Pipeline.transformItems_run`,
  `Pipeline.transformDefinitions_run`: the hooks of such a pipeline; those without the plugin
  for importance have the same names with `plain`.
- `Extraction.tracks_definition`, `Extraction.tracks_items`: extraction with such a
  pipeline gives what the vocabulary gives.
-/

namespace AtomicCss

open Reading AliasRules

variable {σ : Type}

namespace Pipeline

/-- The bundled plugins in the order of calls. -/
def bundled (aliases : AliasRules (List String)) (shortcuts : AliasRules (List StyleItem))
    (declared : List (String × String)) (important : Bool) : List (Plugin σ) :=
  [.selectors aliases, .shortcuts shortcuts, .variables declared, .keyframes,
    .important important]

/-- The bundled plugins in the order of calls, without the one for importance. -/
def plain (aliases : AliasRules (List String)) (shortcuts : AliasRules (List StyleItem))
    (declared : List (String × String)) : List (Plugin σ) :=
  [.selectors aliases, .shortcuts shortcuts, .variables declared, .keyframes]

/-- A pipeline of bundled plugins, whose rules answer by the vocabulary and remember
nothing else. `shared` is what the plugins share. -/
structure Speaks (v : Vocabulary) (shared : σ) (p : Pipeline σ) : Prop where
  plugins : ∃ aliases shortcuts declared,
    p.plugins = bundled aliases shortcuts declared v.important ∧
    Sound .selector some v.selector? aliases ∧
    Sound .shortcut StyleItem.shortcut? v.shortcut? shortcuts
  shared : p.shared = shared

/-! ## The hooks of bundled plugins -/

section

variable (budget : Nat) (aliases : AliasRules (List String))
  (shortcuts : AliasRules (List StyleItem)) (declared : List (String × String))
  (important : Bool) (shared : σ)

/-- Plugins behind the selectors that pass a chain on do not matter to it. -/
theorem transformSelectors_plain_append {chain : List String} {rest : List (Plugin σ)}
    (hrest : ∀ chain s, through (Plugin.transformSelectors budget) rest chain s =
      some (.ok chain, rest, s)) :
    transformSelectors budget chain ⟨plain aliases shortcuts declared ++ rest, shared⟩ =
      (Walk.collect (expandSelector budget) chain aliases).map fun x =>
        (x.1, ⟨plain x.2 shortcuts declared ++ rest, shared⟩) := by
  unfold transformSelectors run plain
  rcases h : Walk.collect (expandSelector budget) chain aliases with _ | ⟨_ | _, _⟩ <;>
    simp [through, Plugin.transformSelectors, Plugin.ofWalk, Plugin.pass, h, hrest]

/-- Plugins behind the shortcuts that pass items on do not matter to them. -/
theorem transformItems_plain_append {items : List StyleItem} {rest : List (Plugin σ)}
    (hrest : ∀ items s, through (Plugin.transformItems budget) rest items s =
      some (.ok items, rest, s)) :
    transformItems budget items ⟨plain aliases shortcuts declared ++ rest, shared⟩ =
      (Walk.collect (Plugin.expandItem budget) items shortcuts).map fun x =>
        (x.1, ⟨plain aliases x.2 declared ++ rest, shared⟩) := by
  unfold transformItems run plain
  rcases h : Walk.collect (Plugin.expandItem budget) items shortcuts with _ | ⟨_ | _, _⟩ <;>
    simp [through, Plugin.transformItems, Plugin.ofWalk, Plugin.pass, h, hrest]

/-- Of the bundled plugins only the one for selectors changes a chain. -/
theorem transformSelectors_run (chain : List String) :
    transformSelectors budget chain ⟨bundled aliases shortcuts declared important, shared⟩ =
      (Walk.collect (expandSelector budget) chain aliases).map fun x =>
        (x.1, ⟨bundled x.2 shortcuts declared important, shared⟩) :=
  transformSelectors_plain_append budget aliases shortcuts declared shared fun _ _ => rfl

/-- Of the bundled plugins only the one for shortcuts changes items. -/
theorem transformItems_run (items : List StyleItem) :
    transformItems budget items ⟨bundled aliases shortcuts declared important, shared⟩ =
      (Walk.collect (Plugin.expandItem budget) items shortcuts).map fun x =>
        (x.1, ⟨bundled aliases x.2 declared important, shared⟩) :=
  transformItems_plain_append budget aliases shortcuts declared shared fun _ _ => rfl

/-- Of the bundled plugins only the one for importance changes definitions. -/
theorem transformDefinitions_run (ds : List StyleDefinition) :
    transformDefinitions ds ⟨bundled aliases shortcuts declared important, shared⟩ =
      some (.ok (ds.map (Important.apply important)),
        ⟨bundled aliases shortcuts declared important, shared⟩) := rfl

theorem transformSelectors_plain (chain : List String) :
    transformSelectors budget chain ⟨plain aliases shortcuts declared, shared⟩ =
      (Walk.collect (expandSelector budget) chain aliases).map fun x =>
        (x.1, ⟨plain x.2 shortcuts declared, shared⟩) :=
  transformSelectors_plain_append budget aliases shortcuts declared shared fun _ _ => rfl

theorem transformItems_plain (items : List StyleItem) :
    transformItems budget items ⟨plain aliases shortcuts declared, shared⟩ =
      (Walk.collect (Plugin.expandItem budget) items shortcuts).map fun x =>
        (x.1, ⟨plain aliases x.2 declared, shared⟩) :=
  transformItems_plain_append budget aliases shortcuts declared shared fun _ _ => rfl

theorem transformDefinitions_plain (ds : List StyleDefinition) :
    transformDefinitions ds ⟨plain aliases shortcuts declared, shared⟩ =
      some (.ok ds, ⟨plain aliases shortcuts declared, shared⟩) := rfl

end

end Pipeline

/-! ## Rules that speak a vocabulary -/

namespace Vocabulary

variable (v : Vocabulary) (b : Nat)

/-- An expansion in sound rules, looked at through a function. -/
theorem tracks_expand {α β : Type} {kind : AliasKind} {name? : α → Option String}
    {lookup? : String → Option (List α)} (input : String) (view : Option (List α) → β) :
    Walk.Tracks (Sound kind name? lookup?) b
      (do return view (← expand kind name? b [] input))
      fun c => do return view (← unfold kind name? lookup? c [] input) := by
  refine Walk.tracks_bind (o := fun c => unfold kind name? lookup? c [] input)
    ⟨rising_unfold [] input, ?_, ?_⟩ fun _ => Walk.tracks_pure _
  · intro r res r' hr h
    obtain ⟨hlater, hgiven, -⟩ := expand_done hr (.nil _ _ _) h
    exact ⟨hlater.sound, hgiven⟩
  · exact fun hr h => expand_follows hr (.nil _ _ _) h

/-- Sound rules expand a chain as the vocabulary does. -/
theorem tracks_selectors (chain : List String) :
    Walk.Tracks (Sound .selector some v.selector?) b
      (Walk.collect (expandSelector b) chain) fun c => v.selectors c chain := by
  refine Walk.tracks_collect (fun selector => ?_) chain
  rw [expandSelector_eq]
  exact tracks_expand b selector fun full => full.getD [selector]

/-- A shortcut without an expansion stands for itself. -/
theorem expandItem_shortcut (name : String) :
    Plugin.expandItem b (.shortcut name) =
      do return (← expand .shortcut StyleItem.shortcut? b [] name).getD [.shortcut name] := by
  show expand .shortcut StyleItem.shortcut? b [] name >>= _ = _ >>= _
  congr 1
  funext full
  cases full <;> rfl

/-- Sound rules expand items as the vocabulary does. -/
theorem tracks_expansion (items : List StyleItem) :
    Walk.Tracks (Sound .shortcut StyleItem.shortcut? v.shortcut?) b
      (Walk.collect (Plugin.expandItem b) items) fun c => v.expansion c items := by
  refine Walk.tracks_collect (fun item => ?_) items
  cases item with
  | definition d => exact Walk.tracks_pure _
  | shortcut name =>
    rw [expandItem_shortcut]
    exact tracks_expand b name fun full => full.getD [StyleItem.shortcut name]

end Vocabulary

/-! ## Extraction -/

namespace Extraction

variable {v : Vocabulary} {shared : σ} {b : Nat}

/-- A pipeline that speaks the vocabulary makes of a chain what the vocabulary makes of it. -/
theorem tracks_transformSelectors (chain : List String) :
    Walk.Tracks (Pipeline.Speaks v shared) b (Pipeline.transformSelectors b chain)
      fun c => v.selectors c chain := by
  refine Walk.tracks_part (v.tracks_selectors b chain) ?_
  rintro ⟨plugins, shared'⟩ ⟨⟨aliases, shortcuts, declared, rfl, ha, hs⟩, rfl⟩
  -- only the rules for selectors are asked, and they stay sound
  refine ⟨aliases, fun a => ⟨Pipeline.bundled a shortcuts declared v.important, shared'⟩, ha, ?_,
    Pipeline.transformSelectors_run ..⟩
  exact fun a ha' => ⟨⟨a, shortcuts, declared, rfl, ha', hs⟩, rfl⟩

/-- A pipeline that speaks the vocabulary makes of items what the vocabulary makes of them. -/
theorem tracks_transformItems (items : List StyleItem) :
    Walk.Tracks (Pipeline.Speaks v shared) b (Pipeline.transformItems b items)
      fun c => v.expansion c items := by
  refine Walk.tracks_part (v.tracks_expansion b items) ?_
  rintro ⟨plugins, shared'⟩ ⟨⟨aliases, shortcuts, declared, rfl, ha, hs⟩, rfl⟩
  refine ⟨shortcuts, fun s => ⟨Pipeline.bundled aliases s declared v.important, shared'⟩, hs, ?_,
    Pipeline.transformItems_run ..⟩
  exact fun s hs' => ⟨⟨aliases, s, declared, rfl, ha, hs'⟩, rfl⟩

/-- A definition is marked and walked through, entry by entry. -/
theorem transformDefinitions_bind_run {p : Pipeline σ} (hp : p.Speaks v shared)
    (d : StyleDefinition) (f : StyleDefinition → Walk (Pipeline σ) (List Extracted)) :
    (Pipeline.transformDefinitions [d] >>= Walk.collect f) p =
      f (Important.apply v.important d) p := by
  obtain ⟨plugins, shared'⟩ := p
  obtain ⟨⟨aliases, shortcuts, declared, rfl, -, -⟩, rfl⟩ := hp
  rw [Walk.bind_run_ok (Pipeline.transformDefinitions_run ..)]
  exact congrFun (Walk.collect_singleton f _) _

/-- Items say what the vocabulary says if the definitions they stand for do. -/
theorem tracks_itemsWith {deeper : List String → StyleDefinition →
      Walk (Pipeline σ) (List Extracted)}
    {reading : Nat → List String → StyleDefinition → Reading (List Extracted)}
    (h : ∀ chain d, Walk.Tracks (Pipeline.Speaks v shared) b (deeper chain d)
      fun c => reading c chain d) (chain : List String) (items : List StyleItem) :
    Walk.Tracks (Pipeline.Speaks v shared) b (itemsWith b deeper chain items)
      fun c => v.expansion c items >>= Walk.collect (Vocabulary.part (reading c chain)) := by
  refine Walk.tracks_bind (tracks_transformItems items) fun items => ?_
  refine Walk.tracks_collect (fun item => ?_) items
  cases item with
  | shortcut name => exact Walk.tracks_pure _
  | definition d => exact h chain d

/-- An entry says what the vocabulary says if what is nested in it does. -/
theorem tracks_entryWith {deeper : List String → StyleDefinition →
      Walk (Pipeline σ) (List Extracted)}
    {reading : Nat → List String → StyleDefinition → Reading (List Extracted)}
    (h : ∀ chain d, Walk.Tracks (Pipeline.Speaks v shared) b (deeper chain d)
      fun c => reading c chain d) (chain selectors : List String) (e : String × StyleValue) :
    Walk.Tracks (Pipeline.Speaks v shared) b (entryWith b deeper chain selectors e)
      fun c => v.entry c (reading c) chain selectors e := by
  obtain ⟨key, value⟩ := e
  cases value with
  | property value => exact Walk.tracks_pure _
  | nested d => exact h (chain ++ [key]) d
  | items items => exact tracks_itemsWith h (chain ++ [key]) items

/-- What a definition says does not depend on what the plugins remember. -/
theorem tracks_definition (chain : List String) (d : StyleDefinition) :
    Walk.Tracks (Pipeline.Speaks v shared) b (definition (σ := σ) v.host b chain d)
      fun c => v.definition c chain d := by
  induction b generalizing chain d with
  | zero =>
    exact Walk.tracks_unfinished (v.rising_definition chain d) fun _ => not_gives_unfinished
  | succ b ih =>
    refine Walk.tracks_succ ?_ rfl fun c => rfl
    refine Walk.tracks_bind (tracks_transformSelectors chain) fun replaced => ?_
    -- the plugins give back the one definition, marked, and change nothing else
    have hentries := Walk.tracks_collect
      (tracks_entryWith ih chain (Selector.normalize replaced v.host))
      (Important.apply v.important d)
    exact Walk.tracks_congr hentries fun p hp => transformDefinitions_bind_run hp d _

/-- Nor does what a list of items says. -/
theorem tracks_items (chain : List String) (list : List StyleItem) :
    Walk.Tracks (Pipeline.Speaks v shared) b (items (σ := σ) v.host b chain list)
      fun c => v.items c chain list :=
  tracks_itemsWith tracks_definition chain list

end Extraction

end AtomicCss
