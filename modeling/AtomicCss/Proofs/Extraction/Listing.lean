import AtomicCss.Proofs.Alias.History
import AtomicCss.Proofs.Budget
import AtomicCss.Proofs.Extraction.Speaking
import Mathlib.Data.List.Forall2

/-!
# Extraction lists leaves

With the plugins for selectors and for shortcuts, extraction lists the leaves of a
definition in source order, after the shortcuts in its lists of items were expanded in
place. Every leaf is listed once, under the selectors that the keys around it stand
for, each of them asked by itself.

- `Leaf`, `entriesLeaves`: the properties and the names in a definition, with the keys
  around them, in source order.
- `ExpandsEntries`: a definition and its expansion, however deep its items lie.
- `ExpandsEntries.unique`: there is no other expansion.
- `Leaf.Says`: what extraction lists for a leaf.
- `Extraction.lists_leaves`: extraction lists this for each leaf of the expansion.
-/

namespace AtomicCss

open Reading AliasRules

variable {σ : Type}

/-! ## Leaves -/

/-- A place in a style that says something: a property with the keys around it, or a
name. -/
inductive Leaf where
  | property (path : List String) (key : String) (value : PropertyValue)
  | name (name : String)
  deriving DecidableEq

mutual

/-- The leaves of the value of a key, from the left to the right. -/
def StyleValue.leaves (path : List String) (key : String) : StyleValue → List Leaf
  | .property value => [.property path key value]
  | .nested d => entriesLeaves (path ++ [key]) d
  | .items items => itemsLeaves (path ++ [key]) items
termination_by structural v => v

/-- The leaves of an item. -/
def StyleItem.leaves (path : List String) : StyleItem → List Leaf
  | .shortcut name => [.name name]
  | .definition d => entriesLeaves path d
termination_by structural i => i

/-- The leaves of the entries of a definition. -/
def entriesLeaves (path : List String) : List (String × StyleValue) → List Leaf
  | [] => []
  | (key, v) :: entries => v.leaves path key ++ entriesLeaves path entries
termination_by structural entries => entries

/-- The leaves of items. -/
def itemsLeaves (path : List String) : List StyleItem → List Leaf
  | [] => []
  | i :: items => i.leaves path ++ itemsLeaves path items
termination_by structural items => items

end

/-! ## Aliases, asked by themselves -/

namespace AliasRules

/-- A selector stands for the selectors that the rules come to when they are asked. -/
def StandsFor (rules : AliasRules (List String)) (selector : String) (full : List String) : Prop :=
  ∃ b r, expandSelector b selector rules = some (.ok full, r)

/-- A shortcut has the answer that the rules come to when they are asked. -/
def Answers (rules : AliasRules (List StyleItem)) (name : String)
    (answer : Option (List StyleItem)) : Prop :=
  ∃ b r, expandShortcut b name rules = some (.ok answer, r)

theorem StandsFor.unique {rules : AliasRules (List String)} {selector : String}
    {full full' : List String} (h : rules.StandsFor selector full)
    (h' : rules.StandsFor selector full') : full = full' := by
  obtain ⟨b, r, hrun⟩ := h
  obtain ⟨b', r', hrun'⟩ := h'
  have heq := Walk.unique_of_kept (fun _ _ hbc => kept_expandSelector hbc selector) hrun hrun'
  exact Except.ok.inj (Prod.mk.inj heq).1

theorem Answers.unique {rules : AliasRules (List StyleItem)} {name : String}
    {answer answer' : Option (List StyleItem)} (h : rules.Answers name answer)
    (h' : rules.Answers name answer') : answer = answer' := by
  obtain ⟨b, r, hrun⟩ := h
  obtain ⟨b', r', hrun'⟩ := h'
  have heq := Walk.unique_of_kept (fun _ _ hbc => kept_expand hbc [] name) hrun hrun'
  exact Except.ok.inj (Prod.mk.inj heq).1

end AliasRules

/-! ## Expansion in place -/

section

variable (rules : AliasRules (List StyleItem))

mutual

/-- A value and its expansion. -/
inductive ExpandsValue : StyleValue → StyleValue → Prop
  | property (value : PropertyValue) : ExpandsValue (.property value) (.property value)
  | nested {d d' : List (String × StyleValue)} :
      ExpandsEntries d d' → ExpandsValue (.nested d) (.nested d')
  | items {items items' : List StyleItem} :
      ExpandsItems items items' → ExpandsValue (.items items) (.items items')

/-- The entries of a definition and their expansions. -/
inductive ExpandsEntries : List (String × StyleValue) → List (String × StyleValue) → Prop
  | nil : ExpandsEntries [] []
  | cons {key : String} {v v' : StyleValue} {d d' : List (String × StyleValue)} :
      ExpandsValue v v' → ExpandsEntries d d' → ExpandsEntries ((key, v) :: d) ((key, v') :: d')

/-- Items and what stands in their place: for a shortcut the expansion of its answer,
and the shortcut itself if it has no answer. -/
inductive ExpandsItems : List StyleItem → List StyleItem → Prop
  | nil : ExpandsItems [] []
  | answered {name : String} {full full' items items' : List StyleItem} :
      rules.Answers name (some full) → ExpandsItems full full' → ExpandsItems items items' →
      ExpandsItems (.shortcut name :: items) (full' ++ items')
  | unanswered {name : String} {items items' : List StyleItem} :
      rules.Answers name none → ExpandsItems items items' →
      ExpandsItems (.shortcut name :: items) (.shortcut name :: items')
  | definition {d d' : List (String × StyleValue)} {items items' : List StyleItem} :
      ExpandsEntries d d' → ExpandsItems items items' →
      ExpandsItems (.definition d :: items) (.definition d' :: items')

end

end

section

variable {rules : AliasRules (List StyleItem)}

mutual

theorem ExpandsValue.unique : ∀ {v v₁ v₂ : StyleValue},
    ExpandsValue rules v v₁ → ExpandsValue rules v v₂ → v₁ = v₂
  | _, _, _, .property _, .property _ => rfl
  | _, _, _, .nested h₁, .nested h₂ => by rw [h₁.unique h₂]
  | _, _, _, .items h₁, .items h₂ => by rw [h₁.unique h₂]

/-- A definition has at most one expansion. -/
theorem ExpandsEntries.unique : ∀ {d d₁ d₂ : List (String × StyleValue)},
    ExpandsEntries rules d d₁ → ExpandsEntries rules d d₂ → d₁ = d₂
  | _, _, _, .nil, .nil => rfl
  | _, _, _, .cons hv₁ h₁, .cons hv₂ h₂ => by rw [hv₁.unique hv₂, h₁.unique h₂]

theorem ExpandsItems.unique : ∀ {items items₁ items₂ : List StyleItem},
    ExpandsItems rules items items₁ → ExpandsItems rules items items₂ → items₁ = items₂
  | _, _, _, .nil, .nil => rfl
  | _, _, _, .answered ha₁ hfull₁ h₁, .answered ha₂ hfull₂ h₂ => by
    obtain rfl := Option.some.inj (ha₁.unique ha₂)
    rw [hfull₁.unique hfull₂, h₁.unique h₂]
  | _, _, _, .answered ha₁ _ _, .unanswered ha₂ _ => nomatch ha₁.unique ha₂
  | _, _, _, .unanswered ha₁ _, .answered ha₂ _ _ => nomatch ha₁.unique ha₂
  | _, _, _, .unanswered _ h₁, .unanswered _ h₂ => by rw [h₁.unique h₂]
  | _, _, _, .definition hd₁ h₁, .definition hd₂ h₂ => by rw [hd₁.unique hd₂, h₁.unique h₂]

end

end

/-! ## What is listed -/

/-- What extraction lists for a leaf: for a property an assignment under the selectors
that the keys around it stand for, one after the other and in normal form. -/
inductive Leaf.Says (rules : AliasRules (List String)) (host : String) : Leaf → Extracted → Prop
  | property {path : List String} {key : String} {value : PropertyValue}
      {fulls : List (List String)} :
      List.Forall₂ rules.StandsFor path fulls →
      Says rules host (.property path key value)
        (.assignment ⟨Selector.normalize fulls.flatten host, propertyName key, value.normalize⟩)
  | name (name : String) : Says rules host (.name name) (.unknown name)

theorem Leaf.Says.unique {rules : AliasRules (List String)} {host : String} {leaf : Leaf}
    {part part' : Extracted} (h : leaf.Says rules host part) (h' : leaf.Says rules host part') :
    part = part' := by
  cases h with
  | name name =>
    cases h'
    rfl
  | property hpath =>
    cases h' with
    | property hpath' =>
      have hunique : Relator.RightUnique rules.StandsFor := fun _ _ _ => StandsFor.unique
      rw [List.right_unique_forall₂' hunique hpath hpath']

/-- The vocabulary of the rules of two plugins, which is not to mark anything. -/
def Vocabulary.ofRules (aliases : AliasRules (List String)) (shortcuts : AliasRules (List StyleItem))
    (host : String) : Vocabulary :=
  ⟨aliases.lookup?, shortcuts.lookup?, false, host⟩

section

variable {aliases : AliasRules (List String)} {shortcuts : AliasRules (List StyleItem)}
  {host : String} {c : Nat}

/-- What the vocabulary of fresh rules gives for a chain, the rules come to, key by
key. -/
theorem exists_standsFor (hfresh : aliases.memo = {}) {chain replaced : List String}
    (h : Gives ((Vocabulary.ofRules aliases shortcuts host).selectors c chain) (.ok replaced)) :
    ∃ fulls, List.Forall₂ aliases.StandsFor chain fulls ∧ replaced = fulls.flatten := by
  induction chain generalizing replaced with
  | nil => exact ⟨[], .nil, Except.ok.inj (gives_pure.1 h)⟩
  | cons key chain ih =>
    obtain ⟨full, rest, hkey, hrest, rfl⟩ := gives_collect_ok_cons.1 h
    obtain ⟨fulls, hchain, rfl⟩ := ih hrest
    have htracks := (Vocabulary.ofRules aliases shortcuts host).tracks_selectors c [key]
    simp only [Vocabulary.selectors, Walk.collect_singleton] at htracks
    obtain ⟨r, hrun⟩ := htracks.follows (sound_of_fresh hfresh) hkey
    exact ⟨full :: fulls, .cons ⟨c, r, hrun⟩ hchain, rfl⟩

theorem answers_of_unfold (hfresh : shortcuts.memo = {}) {name : String}
    {answer : Option (List StyleItem)}
    (h : Gives (unfold .shortcut StyleItem.shortcut? shortcuts.lookup? c [] name) (.ok answer)) :
    shortcuts.Answers name answer := by
  obtain ⟨r, hrun⟩ := expand_follows (sound_of_fresh hfresh) (.nil _ _ _) h
  exact ⟨c, r, hrun⟩

/-- What a shortcut is expanded to has no answers any more. -/
theorem answers_none_of_unfold (hfresh : shortcuts.memo = {}) {name : String}
    {full : List StyleItem}
    (h : Gives (unfold .shortcut StyleItem.shortcut? shortcuts.lookup? c [] name)
      (.ok (some full))) {inner : String} (hinner : .shortcut inner ∈ full) :
    shortcuts.Answers inner none := by
  have hnone : shortcuts.lookup? inner = none := (Unfolds.of_unfold h).settled hinner rfl
  exact ⟨1, _, expand_of_settled (sound_of_fresh hfresh) hnone List.not_mem_nil⟩

/-- An item whose definition, if it is one, was expanded. -/
inductive ExpandsInside (rules : AliasRules (List StyleItem)) : StyleItem → StyleItem → Prop
  | shortcut (name : String) : ExpandsInside rules (.shortcut name) (.shortcut name)
  | definition {d d' : List (String × StyleValue)} :
      ExpandsEntries rules d d' → ExpandsInside rules (.definition d) (.definition d')

/-- Where no name has an answer, only definitions are expanded. -/
theorem expandsItems_of_settled {items items' : List StyleItem}
    (h : List.Forall₂ (ExpandsInside shortcuts) items items')
    (hsettled : ∀ name, .shortcut name ∈ items → shortcuts.Answers name none) :
    ExpandsItems shortcuts items items' := by
  induction h with
  | nil => exact .nil
  | cons hitem _ ih =>
    have hrest := ih fun name hname => hsettled name (List.mem_cons_of_mem _ hname)
    cases hitem with
    | shortcut name => exact .unanswered (hsettled name List.mem_cons_self) hrest
    | definition hd => exact .definition hd hrest

/-- Items are expanded by expanding first their names and then the definitions that
stand there. -/
theorem expandsItems_of_expansion (hfresh : shortcuts.memo = {})
    {items flat flat' : List StyleItem}
    (h : Gives ((Vocabulary.ofRules aliases shortcuts host).expansion c items) (.ok flat))
    (hflat : List.Forall₂ (ExpandsInside shortcuts) flat flat') :
    ExpandsItems shortcuts items flat' := by
  induction items generalizing flat flat' with
  | nil =>
    obtain rfl := Except.ok.inj (gives_pure.1 h)
    cases hflat
    exact .nil
  | cons item items ih =>
    obtain ⟨here, rest, hhere, hrest, rfl⟩ := gives_collect_ok_cons.1 h
    -- the expansion of the first item, and what stands behind it
    have hleft := (List.forall₂_take_append _ _ _ hflat.flip).flip
    have hright := ih hrest (List.forall₂_drop_append _ _ _ hflat.flip).flip
    rw [← List.take_append_drop here.length flat']
    generalize flat'.take here.length = here' at hleft ⊢
    cases item with
    | definition d =>
      obtain rfl := Except.ok.inj (gives_pure.1 hhere)
      cases hleft with
      | cons hitem hnil =>
        cases hnil
        cases hitem with
        | definition hd => exact .definition hd hright
    | shortcut name =>
      rcases gives_bind.1 hhere with ⟨_, -, heq⟩ | ⟨answer, hanswer, hpure⟩
      · cases heq
      obtain rfl := Except.ok.inj (gives_pure.1 hpure)
      cases answer with
      | none =>
        cases hleft with
        | cons hitem hnil =>
          cases hnil
          cases hitem with
          | shortcut => exact .unanswered (answers_of_unfold hfresh hanswer) hright
      | some full =>
        refine .answered (answers_of_unfold hfresh hanswer) ?_ hright
        exact expandsItems_of_settled hleft fun _ => answers_none_of_unfold hfresh hanswer

end

/-! ## Walking through the plugins -/

/-- A pipeline of the two plugins, whose rules answer by the vocabulary and remember
nothing else. -/
def Pipeline.Resolves (v : Vocabulary) (p : Pipeline σ) : Prop :=
  ∃ aliases shortcuts, p.plugins = [.selectors aliases, .shortcuts shortcuts] ∧
    Sound .selector some v.selector? aliases ∧
    Sound .shortcut StyleItem.shortcut? v.shortcut? shortcuts

namespace Extraction

variable {v : Vocabulary} {b : Nat}

theorem selectors_of_resolves (chain : List String) :
    Walk.Ensures (Pipeline.Resolves (σ := σ) v) (Pipeline.transformSelectors b chain)
      fun replaced => ∃ c, Gives (v.selectors c chain) (.ok replaced) := by
  refine (Walk.tracks_part (v.tracks_selectors b chain) ?_).ensures
  rintro ⟨plugins, shared⟩ ⟨aliases, shortcuts, rfl, ha, hs⟩
  refine ⟨aliases, fun a => ⟨[.selectors a, .shortcuts shortcuts], shared⟩, ha,
    fun a ha' => ⟨a, shortcuts, rfl, ha', hs⟩, ?_⟩
  -- the plugin for shortcuts passes the chain on
  unfold Pipeline.transformSelectors Pipeline.run
  rcases h : Walk.collect (expandSelector b) chain aliases with _ | ⟨_ | _, _⟩ <;>
    simp [Pipeline.through, Plugin.transformSelectors, Plugin.ofWalk, Plugin.pass, h]

theorem items_of_resolves (items : List StyleItem) :
    Walk.Ensures (Pipeline.Resolves (σ := σ) v) (Pipeline.transformItems b items)
      fun flat => ∃ c, Gives (v.expansion c items) (.ok flat) := by
  refine (Walk.tracks_part (v.tracks_expansion b items) ?_).ensures
  rintro ⟨plugins, shared⟩ ⟨aliases, shortcuts, rfl, ha, hs⟩
  refine ⟨shortcuts, fun s => ⟨[.selectors aliases, .shortcuts s], shared⟩, hs,
    fun s hs' => ⟨aliases, s, rfl, ha, hs'⟩, ?_⟩
  -- the plugin for selectors passes the items on
  unfold Pipeline.transformItems Pipeline.run
  rcases h : Walk.collect (Plugin.expandItem b) items shortcuts with _ | ⟨_ | _, _⟩ <;>
    simp [Pipeline.through, Plugin.transformItems, Plugin.ofWalk, Plugin.pass, h]

/-- Neither plugin replaces definitions. -/
theorem definitions_of_resolves (ds : List StyleDefinition) :
    Walk.Ensures (Pipeline.Resolves (σ := σ) v) (Pipeline.transformDefinitions ds) (· = ds) := by
  rintro ⟨plugins, shared⟩ r p' ⟨aliases, shortcuts, rfl, ha, hs⟩ hrun
  obtain ⟨rfl, rfl⟩ := Prod.mk.inj (Option.some.inj hrun)
  exact ⟨⟨aliases, shortcuts, rfl, ha, hs⟩, fun _ h => (Except.ok.inj h).symm⟩

variable {aliases : AliasRules (List String)} {shortcuts : AliasRules (List StyleItem)}
  {host : String}

/-- The parts are what extraction is to list for a definition under a chain. -/
def Lists (aliases : AliasRules (List String)) (shortcuts : AliasRules (List StyleItem))
    (host : String) (chain : List String) (d : StyleDefinition) (parts : List Extracted) : Prop :=
  ∃ tree, ExpandsEntries shortcuts d tree ∧
    List.Forall₂ (Leaf.Says aliases host) (entriesLeaves chain tree) parts

section

variable {deeper : List String → StyleDefinition → Walk (Pipeline σ) (List Extracted)}
  (hdeeper : ∀ chain d, Walk.Ensures (Pipeline.Resolves (.ofRules aliases shortcuts host))
    (deeper chain d) (Lists aliases shortcuts host chain d))

include hdeeper

theorem lists_itemsWith (hs : shortcuts.memo = {}) (chain : List String)
    (items : List StyleItem) :
    Walk.Ensures (Pipeline.Resolves (.ofRules aliases shortcuts host))
      (itemsWith b deeper chain items) fun parts => ∃ items', ExpandsItems shortcuts items items' ∧
        List.Forall₂ (Leaf.Says aliases host) (itemsLeaves chain items') parts := by
  refine Walk.ensures_bind (items_of_resolves items) fun flat hflat => ?_
  obtain ⟨c, hflat⟩ := hflat
  have hitem (item : StyleItem) :
      Walk.Ensures (Pipeline.Resolves (.ofRules aliases shortcuts host))
        (match item with
          | .shortcut name => pure [.unknown name]
          | .definition d => deeper chain d)
        fun here => ∃ item', ExpandsInside shortcuts item item' ∧
          List.Forall₂ (Leaf.Says aliases host) (item'.leaves chain) here := by
    cases item with
    | shortcut name =>
      exact Walk.ensures_pure ⟨_, .shortcut name, .cons (.name name) .nil⟩
    | definition d =>
      refine (hdeeper chain d).mono fun here hhere => ?_
      obtain ⟨tree, htree, hleaves⟩ := hhere
      exact ⟨.definition tree, .definition htree, hleaves⟩
  have hcollect := Walk.ensures_collect (R := fun flat parts => ∃ flat',
    List.Forall₂ (ExpandsInside shortcuts) flat flat' ∧
      List.Forall₂ (Leaf.Says aliases host) (itemsLeaves chain flat') parts) hitem
    ⟨[], .nil, .nil⟩ ?_ flat
  · refine hcollect.mono fun parts hparts => ?_
    obtain ⟨flat', hinside, hleaves⟩ := hparts
    exact ⟨flat', expandsItems_of_expansion hs hflat hinside, hleaves⟩
  · rintro item flat here rest ⟨item', hitem, hhere⟩ ⟨flat', hinside, hrest⟩
    exact ⟨item' :: flat', .cons hitem hinside, List.rel_append hhere hrest⟩

theorem lists_entryWith (hs : shortcuts.memo = {}) {chain : List String}
    {fulls : List (List String)} (hchain : List.Forall₂ aliases.StandsFor chain fulls)
    (entry : String × StyleValue) :
    Walk.Ensures (Pipeline.Resolves (.ofRules aliases shortcuts host))
      (entryWith b deeper chain (Selector.normalize fulls.flatten host) entry)
      fun parts => ∃ v, ExpandsValue shortcuts entry.2 v ∧
        List.Forall₂ (Leaf.Says aliases host) (v.leaves chain entry.1) parts := by
  obtain ⟨key, value⟩ := entry
  cases value with
  | property value =>
    exact Walk.ensures_pure ⟨_, .property value, .cons (.property hchain) .nil⟩
  | nested d =>
    refine (hdeeper (chain ++ [key]) d).mono fun parts hparts => ?_
    obtain ⟨tree, htree, hleaves⟩ := hparts
    exact ⟨.nested tree, .nested htree, hleaves⟩
  | items items =>
    refine (lists_itemsWith hdeeper hs (chain ++ [key]) items).mono fun parts hparts => ?_
    obtain ⟨items', hitems, hleaves⟩ := hparts
    exact ⟨.items items', .items hitems, hleaves⟩

end

/-- Wherever a definition stands, its leaves are listed. -/
theorem lists_definition (ha : aliases.memo = {}) (hs : shortcuts.memo = {})
    (chain : List String) (d : StyleDefinition) :
    Walk.Ensures (Pipeline.Resolves (σ := σ) (.ofRules aliases shortcuts host))
      (definition host b chain d) (Lists aliases shortcuts host chain d) := by
  induction b generalizing chain d with
  | zero => exact Walk.ensures_unfinished
  | succ b ih =>
    refine Walk.ensures_bind (selectors_of_resolves chain) fun replaced hreplaced => ?_
    obtain ⟨c, hreplaced⟩ := hreplaced
    obtain ⟨fulls, hchain, rfl⟩ := exists_standsFor ha hreplaced
    refine Walk.ensures_bind (definitions_of_resolves [d]) fun ds hds => ?_
    subst hds
    rw [Walk.collect_singleton]
    refine Walk.ensures_collect (R := Lists aliases shortcuts host chain)
      (lists_entryWith ih hs hchain) ⟨[], .nil, .nil⟩ ?_ d
    rintro ⟨key, value⟩ d here rest ⟨value', hvalue, hhere⟩ ⟨tree, htree, hrest⟩
    exact ⟨(key, value') :: tree, .cons hvalue htree, List.rel_append hhere hrest⟩

/-- Extraction lists leaves. Let the two plugins have been asked any number of times. If
a definition is extracted, it has exactly one expansion, and what was extracted is exactly
what is to be listed for the leaves of this expansion, one part for each of them in
source order. -/
theorem lists_leaves {aliases' : AliasRules (List String)}
    {shortcuts' : AliasRules (List StyleItem)} (ha : aliases.memo = {}) (hs : shortcuts.memo = {})
    (haliases : History expandSelector aliases aliases')
    (hshortcuts : History expandShortcut shortcuts shortcuts') {d : StyleDefinition} {shared : σ}
    {parts : List Extracted} {p : Pipeline σ}
    (h : definition host b [] d ⟨[.selectors aliases', .shortcuts shortcuts'], shared⟩ =
      some (.ok parts, p)) :
    ∃ tree, (∀ other, ExpandsEntries shortcuts d other ↔ other = tree) ∧
      ∀ listed, List.Forall₂ (Leaf.Says aliases host) (entriesLeaves [] tree) listed ↔
        listed = parts := by
  have hresolves : Pipeline.Resolves (.ofRules aliases shortcuts host)
      (⟨[.selectors aliases', .shortcuts shortcuts'], shared⟩ : Pipeline σ) :=
    ⟨aliases', shortcuts', rfl, haliases.sound expandSelector_eq_some ha,
      hshortcuts.sound expandShortcut_eq_some hs⟩
  obtain ⟨-, hlists⟩ := lists_definition ha hs [] d _ _ _ hresolves h
  obtain ⟨tree, htree, hleaves⟩ := hlists parts rfl
  have hunique : Relator.RightUnique (Leaf.Says aliases host) := fun _ _ _ => Leaf.Says.unique
  refine ⟨tree, fun other => ⟨fun h => h.unique htree, fun heq => heq ▸ htree⟩, fun listed => ?_⟩
  exact ⟨fun h => List.right_unique_forall₂' hunique h hleaves, fun heq => heq ▸ hleaves⟩

/-- A shortcut for a removed margin next to a name that nothing answers. -/
def bareShortcuts : AliasRules (List StyleItem) where
  statics := [("bare", ⟨"bare", "bare",
    [.definition [("marginTop", .property .removal)], .shortcut "mystery"]⟩)]

/-- Below an alias, the shortcut is expanded in place between two definitions, one of
which sets its property below one more alias. -/
theorem lists_leaves_bare :
    let red : StyleItem := .definition [("color", .property (.scalar (.text "red")))]
    let hover : StyleItem := .definition [("hover", .items [red])]
    let d : StyleDefinition := [("@dark", .items [hover, .shortcut "bare", red])]
    let tree : StyleDefinition := [("@dark", .items [hover,
      .definition [("marginTop", .property .removal)], .shortcut "mystery", red])]
    let parts : List Extracted :=
      [.assignment ⟨[".$$:hover", ".$$.dark", ".$$:hover"], "color", some ["red"]⟩,
        .assignment ⟨[".$$:hover", ".$$.dark"], "margin-top", none⟩, .unknown "mystery",
        .assignment ⟨[".$$:hover", ".$$.dark"], "color", some ["red"]⟩]
    ∃ p : Pipeline Unit, definition ".$$" 5 [] d ⟨[.selectors someAliasesAsked,
        .shortcuts (bareShortcuts.resolve "bare").2], ()⟩ = some (.ok parts, p) ∧
      ExpandsEntries bareShortcuts d tree ∧
      List.Forall₂ (Leaf.Says someAliases ".$$") (entriesLeaves [] tree) parts := by
  intro red hover d tree parts
  have hfailed : expandSelector 3 "loop" someAliases =
      some (.error (.cyclic .selector ["loop", "loop"]),
        (someAliases.remember "loop" ["hover", "loop"]).remember "hover" ["&:hover"]) := by rfl
  have haliases : History expandSelector someAliases someAliasesAsked :=
    .lookedUp "@dark" (.expanded .start hfailed)
  have hshortcuts : History expandShortcut bareShortcuts (bareShortcuts.resolve "bare").2 :=
    .lookedUp "bare" .start
  have hsaid : (definition ".$$" 5 [] d (⟨[.selectors someAliasesAsked,
      .shortcuts (bareShortcuts.resolve "bare").2], ()⟩ : Pipeline Unit)).map Prod.fst =
        some (.ok parts) := by rfl
  obtain ⟨⟨_, p⟩, hread, rfl⟩ := Option.map_eq_some_iff.1 hsaid
  obtain ⟨tree', htree, hlisted⟩ := lists_leaves rfl rfl haliases hshortcuts hread
  have hred : ExpandsEntries bareShortcuts [("color", .property (.scalar (.text "red")))] _ :=
    .cons (.property _) .nil
  have hbare : bareShortcuts.Answers "bare"
      (some [.definition [("marginTop", .property .removal)], .shortcut "mystery"]) :=
    ⟨2, _, by rfl⟩
  have hmystery : bareShortcuts.Answers "mystery" none := ⟨1, _, by rfl⟩
  have hexpands : ExpandsEntries bareShortcuts d tree :=
    .cons (.items (.definition (.cons (.items (.definition hred .nil)) .nil)
      (.answered hbare (.definition (.cons (.property _) .nil) (.unanswered hmystery .nil))
        (.definition hred .nil)))) .nil
  obtain rfl := (htree tree).1 hexpands
  exact ⟨p, hread, hexpands, (hlisted parts).2 rfl⟩

end Extraction

end AtomicCss
