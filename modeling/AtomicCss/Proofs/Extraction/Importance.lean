import AtomicCss.Proofs.Extraction.Sources
import AtomicCss.Proofs.Extraction.Speaking
import AtomicCss.Proofs.Style.Importance

/-!
# Importance changes values only

The plugin for importance is called at every level of the walk, on each definition by itself.
Beside the walk without it, through the same styles without flags, it lists the same names
under the same selectors, and the same properties; only the values of a definition whose flag
is set are marked, each of them once.

- `Pipeline.Beside`: a pipeline with it and one without it, with the same rules but for flags.
- `Marks`: what is listed with the plugin, and what is listed without it.
- `Extraction.marking_definition`, `Extraction.marking_items`: the two walks go in lockstep.
- `Extraction.importance_changes_values_only`: what the two list.
-/

namespace AtomicCss

open Walk AliasRules

variable {σ : Type}

/-- The rules for shortcuts that answer items without flags, and remember such items. -/
def AliasRules.unflagged (shortcuts : AliasRules (List StyleItem)) :
    AliasRules (List StyleItem) := shortcuts.map (List.map StyleItem.unflagged)

/-! ## Pipelines with and without importance -/

namespace Pipeline

/-- The bundled plugins, and beside them the same plugins without the one for importance,
whose shortcuts stand for items without flags. -/
inductive Beside (standard : Bool) : Pipeline σ → Pipeline σ → Prop
  | mk (aliases : AliasRules (List String)) (shortcuts : AliasRules (List StyleItem))
      (declared : List (String × String)) (shared : σ) :
      Beside standard ⟨bundled aliases shortcuts declared standard, shared⟩
        ⟨plain aliases shortcuts.unflagged declared, shared⟩

end Pipeline

/-! ## Hooks beside each other -/

section

variable (budget : Nat) {standard : Bool}

theorem Plugin.lockstep_expandItem (item : StyleItem) :
    Lockstep (fun r r' => AliasRules.unflagged r = r')
      (List.Forall₂ fun i i' : StyleItem => i.unflagged = i')
      (Plugin.expandItem budget item) (Plugin.expandItem budget item.unflagged) := by
  cases item with
  | definition d => exact lockstep_pure (forall₂_image_iff.2 rfl)
  | shortcut name =>
    rw [StyleItem.unflagged, Vocabulary.expandItem_shortcut]
    refine lockstep_bind (lockstep_expand StyleItem.shortcut?_unflagged budget [] name)
      fun full full' hfull => lockstep_pure ?_
    subst hfull
    cases full <;> exact forall₂_image_iff.2 rfl

theorem Pipeline.beside_selectors (chain : List String) :
    Lockstep (Beside (σ := σ) standard) Eq (transformSelectors budget chain)
      (transformSelectors budget chain) := by
  rintro _ _ ⟨aliases, shortcuts, declared, shared⟩
  rw [transformSelectors_run, transformSelectors_plain]
  refine (Alike.refl _).part (fun r => Pipeline.mk (bundled r shortcuts declared standard) shared)
    (fun r => Pipeline.mk (plain r shortcuts.unflagged declared) shared) fun r r' heq => ?_
  subst heq
  exact ⟨r, shortcuts, declared, shared⟩

theorem Pipeline.beside_items (items : List StyleItem) :
    Lockstep (Beside (σ := σ) standard) (List.Forall₂ fun i i' => i.unflagged = i')
      (transformItems budget items) (transformItems budget (unflaggedItems items)) := by
  rintro _ _ ⟨aliases, shortcuts, declared, shared⟩
  rw [transformItems_run, transformItems_plain, unflaggedItems_eq_map, collect_map]
  have hcollect := lockstep_collect_same (Plugin.lockstep_expandItem budget) items shortcuts _ rfl
  refine hcollect.part (fun r => Pipeline.mk (bundled aliases r declared standard) shared)
    (fun r => Pipeline.mk (plain aliases r declared) shared) fun r r' heq => ?_
  subst heq
  exact ⟨aliases, r, declared, shared⟩

end

/-! ## What is listed -/

/-- What is listed with the plugin for importance, and what is listed without it: the same
name, or an assignment of the same property under the same selectors. A removal stays one. The
values are marked, and those that are marked alike are listed once, if the flag of the
definition in which they are written is set; they are the same otherwise. -/
inductive Marks (standard : Bool) : Sourced → Extracted → Prop
  | unknown (name : String) : Marks standard (.unknown name) (.unknown name)
  | removal (source : StyleDefinition) (chain : List String) (property : String) :
      Marks standard (.assignment source ⟨chain, property, none⟩)
        (.assignment ⟨chain, property, none⟩)
  | marked {source : StyleDefinition} (chain : List String) (property : String)
      (texts : List String) : Important.Flagged standard source true →
      Marks standard
        (.assignment source ⟨chain, property, some (distinct (texts.map Important.markText))⟩)
        (.assignment ⟨chain, property, some texts⟩)
  | kept {source : StyleDefinition} (chain : List String) (property : String)
      (texts : List String) : Important.Flagged standard source false →
      Marks standard (.assignment source ⟨chain, property, some texts⟩)
        (.assignment ⟨chain, property, some texts⟩)

namespace Extraction

variable {standard : Bool}

/-- The first walk lists with importance what the second one lists without it. -/
abbrev Marking (standard : Bool) (w : Walk (Pipeline σ) (List Sourced))
    (w' : Walk (Pipeline σ) (List Extracted)) : Prop :=
  Lockstep (Pipeline.Beside standard) (List.Forall₂ (Marks standard)) w w'

variable (budget : Nat) {deeper : List String → StyleDefinition → Walk (Pipeline σ) (List Sourced)}
  {deeper' : List String → StyleDefinition → Walk (Pipeline σ) (List Extracted)}

/-- Items are marked if the definitions they stand for are. -/
theorem marking_itemsWith
    (h : ∀ chain d, Marking standard (deeper chain d) (deeper' chain d.unflagged))
    (chain : List String) (items : List StyleItem) :
    Marking standard (sourcedItemsWith budget deeper chain items)
      (itemsWith budget deeper' chain (unflaggedItems items)) := by
  refine lockstep_bind (Pipeline.beside_items budget items) fun full full' hfull => ?_
  refine lockstep_collect hfull fun item item' hitem => ?_
  subst hitem
  cases item with
  | shortcut name => exact lockstep_pure (.cons (.unknown name) .nil)
  | definition d => exact h chain d

/-- The values that an entry assigns are those of the entry without flags, marked if the flag
of the definition is set. -/
theorem marks_property (source : StyleDefinition) (selectors : List String) (property : String)
    (value : PropertyValue) : ∃ value' : PropertyValue,
    Important.treated standard source (.property value) = .property value' ∧
    Marks standard (.assignment source ⟨selectors, property, value'.normalize⟩)
      (.assignment ⟨selectors, property, value.normalize⟩) := by
  unfold Important.treated
  cases hflag : Important.flagOf standard source with
  | false =>
    refine ⟨value, rfl, ?_⟩
    cases value.normalize with
    | none => exact .removal source selectors property
    | some texts => exact .kept selectors property texts (Important.flagged_iff.2 hflag)
  | true =>
    obtain ⟨value', hmark, hnormal⟩ := Important.normalize_markValue value
    refine ⟨value', hmark, ?_⟩
    rw [hnormal]
    cases value.normalize with
    | none => exact .removal source selectors property
    | some texts => exact .marked selectors property texts (Important.flagged_iff.2 hflag)

/-- Marking reaches the values of properties only: what is nested decides by itself. -/
theorem marking_entryWith
    (h : ∀ chain d, Marking standard (deeper chain d) (deeper' chain d.unflagged))
    (source : StyleDefinition) (chain selectors : List String) (key : String) (v : StyleValue) :
    Marking standard
      (sourcedEntryWith budget deeper source chain selectors
        (key, Important.treated standard source v))
      (entryWith budget deeper' chain selectors (key, v.unflagged)) := by
  cases v with
  | property value =>
    obtain ⟨value', hmark, hmarks⟩ := marks_property source selectors (propertyName key) value
    rw [hmark]
    exact lockstep_pure (.cons hmarks .nil)
  | nested d =>
    rw [Important.treated_nested]
    exact h (chain ++ [key]) d
  | items items =>
    rw [Important.treated_items]
    exact marking_itemsWith budget h (chain ++ [key]) items

/-- A definition is marked at every depth, each value by the flag of its own definition. -/
theorem marking_definition (host : String) (chain : List String) (d : StyleDefinition) :
    Marking (σ := σ) standard (sourcedDefinition host budget chain d)
      (definition host budget chain d.unflagged) := by
  induction budget generalizing chain d with
  | zero => exact lockstep_unfinished
  | succ budget ih =>
    refine lockstep_bind (Pipeline.beside_selectors budget chain) fun replaced _ heq => ?_
    subst heq
    rintro _ _ ⟨aliases, shortcuts, declared, shared⟩
    rw [bind_run_ok (Pipeline.transformDefinitions_run ..),
      bind_run_ok (Pipeline.transformDefinitions_plain ..), List.map_singleton,
      collect_singleton, collect_singleton]
    -- both go through the entries that are left without the flag
    rw [Important.apply_eq, StyleDefinition.unflagged_eq, Table.mapValues, Table.mapValues,
      collect_map, collect_map]
    have hentries (e : String × StyleValue) := marking_entryWith budget ih d chain
      (Selector.normalize replaced host) e.1 e.2
    exact lockstep_collect_same hentries _ _ _ (.mk ..)

theorem marking_items (host : String) (chain : List String) (list : List StyleItem) :
    Marking (σ := σ) standard (sourcedItems host budget chain list)
      (items host budget chain (unflaggedItems list)) :=
  marking_itemsWith budget (marking_definition budget host) chain list

/-- Importance changes values only. With the bundled plugins, whatever their rules and what
they remember, and beside it without the one for importance, through the same styles without
flags, extraction lists the same names, the same properties under the same selectors and the
same removals, or it fails alike. The values of a definition whose own flag is set are the
distinct marked ones, all others are the same. A text is marked behind a blank unless it ends
in the mark, and marking anything again changes nothing. -/
theorem importance_changes_values_only (host : String) (budget : Nat) (chain : List String)
    (list : List StyleItem) (aliases : AliasRules (List String))
    (shortcuts : AliasRules (List StyleItem)) (declared : List (String × String))
    (standard : Bool) (shared : σ) :
    let bundled : Pipeline σ := ⟨Pipeline.bundled aliases shortcuts declared standard, shared⟩
    let plain : Pipeline σ := ⟨Pipeline.plain aliases shortcuts.unflagged declared, shared⟩
    (items host budget chain list bundled =
      (sourcedItems host budget chain list bundled).map fun x =>
        (x.1.map (List.map Sourced.extracted), x.2)) ∧
    Alike (Pipeline.Beside standard) (List.Forall₂ (Marks standard))
      (sourcedItems host budget chain list bundled)
      (items host budget chain (unflaggedItems list) plain) ∧
    (∀ s, Important.EndsMarked s ∧ Important.markText s = s ∨
      ¬ Important.EndsMarked s ∧ Important.markText s = s ++ " !important") ∧
    (∀ texts : List String, distinct ((distinct (texts.map Important.markText)).map
      Important.markText) = distinct (texts.map Important.markText)) ∧
    ∀ v, Important.markValue (Important.markValue v) = Important.markValue v := by
  intro bundled plain
  have hbeside : Pipeline.Beside standard bundled plain := .mk aliases shortcuts declared shared
  refine ⟨items_eq_sourced host budget chain list bundled,
    marking_items budget host chain list bundled plain hbeside, fun s => ?_,
    Important.distinct_marked, Important.markValue_markValue⟩
  by_cases h : Important.EndsMarked s
  · exact .inl ⟨h, Important.markText_of_endsMarked h⟩
  · exact .inr ⟨h, Important.markText_of_not_endsMarked h⟩

/-- A shortcut whose flag is set, with a definition in it that has no flag. -/
def loudShortcuts : AliasRules (List StyleItem) where
  statics := [("loud", ⟨"loud", "loud",
    [.definition [("__important", .property (.scalar (.flag true))),
      ("top", .property (.fallback (.text "0") [.text "0 !important", .text "0 !important "])),
      ("&:hover", .nested [("top", .property (.scalar (.text "1px")))])]]⟩)]

example : Walk.result? (items ".$$" 4 [] [.shortcut "loud", .shortcut "quiet"]
    (⟨Pipeline.bundled {} loudShortcuts [] false, ()⟩ : Pipeline Unit)) =
      some (.ok [.assignment ⟨[".$$"], "top", some ["0 !important", "0 !important "]⟩,
        .assignment ⟨[".$$:hover"], "top", some ["1px"]⟩, .unknown "quiet"]) := by
  rfl

end Extraction

end AtomicCss
