import AtomicCss.Proofs.Extraction.Listing
import AtomicCss.Proofs.Meaning

/-!
# Splicing shortcuts

A shortcut says what its items say that are put in its place, wherever it stands: among
the items of a call, or in a list of items however deep in a definition.

- `SplicesItems`: items, and the same items with some shortcuts replaced.
- `Important.forall₂_apply`: the important flag of a definition does not see inside the
  values that are replaced.
- `SplicesEntries.same`, `SplicesItems.same`: definitions that differ in this way say the
  same, and lists of items stand for items that say the same.
- `SplicesItems.same_extractAll`: so do the items of a call.
-/

namespace AtomicCss

open Reading AliasRules

/-! ## Replacing shortcuts -/

section

variable (rules : AliasRules (List StyleItem))

mutual

/-- A value, and the value with some shortcuts in it replaced. -/
inductive SplicesValue : StyleValue → StyleValue → Prop
  | property (value : PropertyValue) : SplicesValue (.property value) (.property value)
  | nested {d d' : List (String × StyleValue)} :
      SplicesEntries d d' → SplicesValue (.nested d) (.nested d')
  | items {items items' : List StyleItem} :
      SplicesItems items items' → SplicesValue (.items items) (.items items')

/-- The entries of a definition, and the entries with some shortcuts in them replaced. -/
inductive SplicesEntries : List (String × StyleValue) → List (String × StyleValue) → Prop
  | nil : SplicesEntries [] []
  | cons {key : String} {v v' : StyleValue} {d d' : List (String × StyleValue)} :
      SplicesValue v v' → SplicesEntries d d' →
      SplicesEntries ((key, v) :: d) ((key, v') :: d')

/-- Items, and the items with some shortcuts among and in them replaced by the items that
the rules answer. -/
inductive SplicesItems : List StyleItem → List StyleItem → Prop
  | nil : SplicesItems [] []
  | spliced {name : String} {full items items' : List StyleItem} :
      rules.Answers name (some full) → SplicesItems items items' →
      SplicesItems (.shortcut name :: items) (full ++ items')
  | kept {name : String} {items items' : List StyleItem} :
      SplicesItems items items' →
      SplicesItems (.shortcut name :: items) (.shortcut name :: items')
  | definition {d d' : List (String × StyleValue)} {items items' : List StyleItem} :
      SplicesEntries d d' → SplicesItems items items' →
      SplicesItems (.definition d :: items) (.definition d' :: items')

end

end

/-! ## Values and items that say the same -/

namespace Vocabulary

variable (v : Vocabulary)

/-- Definitions that say the same under every chain. -/
def SameDefinition (d d' : StyleDefinition) : Prop :=
  ∀ chain, Same Eq (fun b => v.definition b chain d) fun b => v.definition b chain d'

/-- The same shortcut twice, or definitions that say the same. -/
inductive SameItem : StyleItem → StyleItem → Prop
  | shortcut (name : String) : SameItem (.shortcut name) (.shortcut name)
  | definition {d d' : StyleDefinition} :
      v.SameDefinition d d' → SameItem (.definition d) (.definition d')

/-- Lists of items that stand for items that say the same, one by one. -/
def SameItems (items items' : List StyleItem) : Prop :=
  Same (List.Forall₂ v.SameItem) (fun b => v.expansion b items) fun b => v.expansion b items'

/-- Values that say the same under every key. -/
inductive SameValue : StyleValue → StyleValue → Prop
  | property (value : PropertyValue) : SameValue (.property value) (.property value)
  | nested {d d' : StyleDefinition} :
      v.SameDefinition d d' → SameValue (.nested d) (.nested d')
  | items {items items' : List StyleItem} :
      v.SameItems items items' → SameValue (.items items) (.items items')

/-- Entries with the same key, and with values that say the same. -/
inductive SameEntry : String × StyleValue → String × StyleValue → Prop
  | mk (key : String) {value value' : StyleValue} :
      v.SameValue value value' → SameEntry (key, value) (key, value')

variable {v}

theorem SameItem.refl : ∀ item : StyleItem, v.SameItem item item
  | .shortcut name => .shortcut name
  | .definition d => .definition fun chain => Same.refl (v.rising_definition chain d)

end Vocabulary

/-! ## The important flag -/

namespace Important

variable {v : Vocabulary} {d d' : StyleDefinition}

theorem flag?_congr {value value' : StyleValue} (h : v.SameValue value value') :
    flag? value = flag? value' := by
  cases h <;> rfl

theorem sameValue_markValue {value value' : StyleValue} (h : v.SameValue value value') :
    v.SameValue (markValue value) (markValue value') := by
  cases h with
  | property value => cases value <;> exact .property _
  | nested hd => exact .nested hd
  | items hitems => exact .items hitems

theorem get?_bind_flag?_congr (h : List.Forall₂ v.SameEntry d d') (key : String) :
    (Table.get? d key).bind flag? = (Table.get? d' key).bind flag? := by
  induction h with
  | nil => rfl
  | cons hentry _ ih =>
    obtain ⟨key', hvalue⟩ := hentry
    by_cases hkey : key' = key
    · simp [Table.get?, hkey, flag?_congr hvalue]
    · simp [Table.get?, hkey, ih]

theorem forall₂_erase (h : List.Forall₂ v.SameEntry d d') (key : String) :
    List.Forall₂ v.SameEntry (Table.erase d key) (Table.erase d' key) := by
  induction h with
  | nil => exact .nil
  | cons hentry hrest ih =>
    obtain ⟨key', hvalue⟩ := hentry
    by_cases hkey : key' = key
    · simpa [Table.erase, hkey] using hrest
    · simpa [Table.erase, hkey] using ⟨.mk key' hvalue, ih⟩

/-- Marking looks at the flag and at properties, which are the same. -/
theorem forall₂_apply (h : List.Forall₂ v.SameEntry d d') (standard : Bool) :
    List.Forall₂ v.SameEntry (apply standard d) (apply standard d') := by
  have hflag : flagOf standard d = flagOf standard d' := by
    rw [flagOf, flagOf, get?_bind_flag?_congr h]
  unfold apply
  rw [hflag]
  dsimp only
  split
  · rw [List.forall₂_map_left_iff, List.forall₂_map_right_iff]
    refine (forall₂_erase h flagKey).imp fun e e' he => ?_
    obtain ⟨key, hvalue⟩ := he
    exact .mk key (sameValue_markValue hvalue)
  · exact forall₂_erase h flagKey

end Important

/-! ## What definitions and items say -/

namespace Vocabulary

variable {v : Vocabulary}

theorem rising_part {deeper : Nat → StyleDefinition → Reading (List Extracted)}
    (h : ∀ d, Rising fun b => deeper b d) (item : StyleItem) :
    Rising fun b => part (deeper b) item :=
  fun b c hbc => below_part (fun d => h d b c hbc) item

theorem rising_entry (chain selectors : List String) (e : String × StyleValue) :
    Rising fun b => v.entry b (v.definition b) chain selectors e :=
  fun _ _ hbc => v.below_entry hbc (v.below_definition hbc) chain selectors e

/-- Expanded items that say the same, say the same under every chain. -/
theorem same_collect_part {items items' : List StyleItem}
    (h : List.Forall₂ v.SameItem items items') (chain : List String) :
    Same Eq (fun b => Walk.collect (part (v.definition b chain)) items)
      fun b => Walk.collect (part (v.definition b chain)) items' := by
  have hrising := rising_part (v.rising_definition chain)
  refine same_collect_eq (f := fun item b => part (v.definition b chain) item) hrising hrising
    (h.imp fun item item' hitem => ?_)
  cases hitem with
  | shortcut name => exact same_pure rfl
  | definition hd => exact hd chain

theorem SameEntry.same {e e' : String × StyleValue} (h : v.SameEntry e e')
    (chain selectors : List String) :
    Same Eq (fun b => v.entry b (v.definition b) chain selectors e)
      fun b => v.entry b (v.definition b) chain selectors e' := by
  obtain ⟨key, hvalue⟩ := h
  cases hvalue with
  | property value => exact same_pure rfl
  | nested hd => exact hd (chain ++ [key])
  | items hitems =>
    have hrising (items : List StyleItem) : Rising fun b =>
        Walk.collect (part (v.definition b (chain ++ [key]))) items :=
      rising_collect (rising_part (v.rising_definition (chain ++ [key]))) items
    exact hitems.bind hrising hrising fun items items' h => same_collect_part h (chain ++ [key])

/-- Entries that say the same, one by one, make definitions that say the same. -/
theorem sameDefinition_of_entries {d d' : StyleDefinition}
    (h : List.Forall₂ v.SameEntry d d') : v.SameDefinition d d' := by
  intro chain
  have hrising (d : StyleDefinition) (replaced : List String) : Rising fun b =>
      Walk.collect (v.entry b (v.definition b) chain (Selector.normalize replaced v.host))
        (Important.apply v.important d) :=
    rising_collect (rising_entry chain _) _
  have hentries (replaced : List String) : Same Eq
      (fun b => Walk.collect (v.entry b (v.definition b) chain
        (Selector.normalize replaced v.host)) (Important.apply v.important d))
      fun b => Walk.collect (v.entry b (v.definition b) chain
        (Selector.normalize replaced v.host)) (Important.apply v.important d') :=
    same_collect_eq (rising_entry chain _) (rising_entry chain _)
      ((Important.forall₂_apply h v.important).imp fun e e' he => he.same chain _)
  have hbind := (Same.refl (v.rising_selectors chain)).bind (hrising d) (hrising d')
    fun replaced replaced' heq => by
      subst heq
      exact hentries replaced
  exact hbind.succ (v.rising_definition chain d) (v.rising_definition chain d') rfl
    (fun _ => rfl) rfl fun _ => rfl

/-! ## Lists of items -/

theorem sameItems_append {items items' more more' : List StyleItem}
    (h : v.SameItems items items') (h' : v.SameItems more more') :
    v.SameItems (items ++ more) (items' ++ more') :=
  same_collect_append v.rising_item v.rising_item (fun hx hy => List.rel_append hx hy) h h'

theorem sameItems_singleton {item item' : StyleItem} (h : v.SameItem item item') :
    v.SameItems [item] [item'] := by
  cases h with
  | shortcut name =>
    have hself := Same.refl (v.rising_expansion [.shortcut name])
    exact hself.of_eq fun items => List.forall₂_same.2 fun item _ => .refl item
  | definition hd =>
    exact same_of_gives (v.rising_expansion _) (v.rising_expansion _) (b := 0) (c := 0) rfl rfl
      (.cons (.definition hd) .nil)

theorem gives_item_of_settled {name : String} (h : v.shortcut? name = none) :
    Gives (v.item 1 (.shortcut name)) (.ok [.shortcut name]) := by
  have hnone : Gives (unfold .shortcut StyleItem.shortcut? v.shortcut? 1 [] name) (.ok none) :=
    gives_unfold_ok_none.2 ⟨List.not_mem_nil, h⟩
  exact gives_bind.2 (.inr ⟨none, hnone, gives_pure.2 rfl⟩)

/-- Items without an answer stand for themselves. -/
theorem gives_expansion_of_settled {items : List StyleItem}
    (h : ∀ name, .shortcut name ∈ items → v.shortcut? name = none) :
    Gives (v.expansion 1 items) (.ok items) := by
  refine Walk.collect_singletons fun item hitem => ?_
  cases item with
  | shortcut name => exact gives_item_of_settled (h name hitem)
  | definition d => rfl

/-- A shortcut stands for its unfolding. -/
theorem exists_gives_expansion_of_unfolds {name : String} {full : List StyleItem}
    (h : Unfolds .shortcut StyleItem.shortcut? v.shortcut? name full) :
    ∃ b, Gives (v.expansion b [.shortcut name]) (.ok full) := by
  obtain ⟨b, hb⟩ := h
  refine ⟨b, ?_⟩
  rw [expansion, Walk.collect_singleton]
  exact gives_bind.2 (.inr ⟨some full, hb, gives_pure.2 rfl⟩)

/-- So the shortcut stands for the same items as its unfolding. -/
theorem sameItems_of_unfolds {name : String} {full : List StyleItem}
    (h : Unfolds .shortcut StyleItem.shortcut? v.shortcut? name full) :
    v.SameItems [.shortcut name] full := by
  obtain ⟨b, hb⟩ := exists_gives_expansion_of_unfolds h
  have hfull := gives_expansion_of_settled fun inner hinner => h.settled hinner rfl
  exact same_of_gives (v.rising_expansion _) (v.rising_expansion _) hb hfull
    (List.forall₂_same.2 fun item _ => .refl item)

/-! ## The items of a call -/

theorem same_extractAll_append {items items' more more' : List StyleItem}
    (h : Same Eq (fun b => v.extractAll b items) fun b => v.extractAll b items')
    (h' : Same Eq (fun b => v.extractAll b more) fun b => v.extractAll b more') :
    Same Eq (fun b => v.extractAll b (items ++ more)) fun b => v.extractAll b (items' ++ more') :=
  same_collect_append v.rising_extractItem v.rising_extractItem (fun hx hy => hx ▸ hy ▸ rfl) h h'

/-- As an item of its own, an expanded item says what it says in a list. -/
theorem same_part_extractItem {item : StyleItem}
    (h : ∀ name, item = .shortcut name → v.shortcut? name = none) :
    Same Eq (fun b => part (v.definition b []) item) fun b => v.extractItem b item := by
  cases item with
  | definition d => exact Same.refl (v.rising_definition [] d)
  | shortcut name =>
    have hitems : Gives (v.expansion 1 [.shortcut name]) (.ok [.shortcut name]) := by
      rw [expansion, Walk.collect_singleton]
      exact gives_item_of_settled (h name rfl)
    have hunknown : Gives (v.extractItem 1 (.shortcut name)) (.ok [.unknown name]) :=
      gives_bind.2 (.inr ⟨_, hitems, rfl⟩)
    exact same_of_gives (rising_const _) (v.rising_extractItem _) (b := 0) rfl hunknown rfl

/-- As an item of its own, a shortcut says what the items of its unfolding say. -/
theorem same_extractAll_of_unfolds {name : String} {full : List StyleItem}
    (h : Unfolds .shortcut StyleItem.shortcut? v.shortcut? name full) :
    Same Eq (fun b => v.extractAll b [.shortcut name]) fun b => v.extractAll b full := by
  obtain ⟨b, hb⟩ := exists_gives_expansion_of_unfolds h
  -- both sides say what the items of the unfolding say one after the other
  have hparts : Same Eq (fun b => Walk.collect (part (v.definition b [])) full)
      fun b => v.extractAll b full :=
    same_collect_eq (rising_part (v.rising_definition [])) v.rising_extractItem
      (List.forall₂_same.2 fun item hitem =>
        same_part_extractItem fun inner heq => h.settled (heq ▸ hitem) rfl)
  have hfull : Same (fun items _ => items = full) (fun b => v.expansion b [.shortcut name])
      fun _ => pure () :=
    same_of_gives (v.rising_expansion _) (rising_const _) (c := 0) hb (gives_pure.2 rfl) rfl
  have hrising (items : List StyleItem) :
      Rising fun b => Walk.collect (part (v.definition b [])) items :=
    rising_collect (rising_part (v.rising_definition [])) items
  have hbind := hfull.bind hrising (fun _ => v.rising_extractAll full) fun items _ heq => by
    subst heq
    exact hparts
  simp only [extractAll, Walk.collect_singleton]
  exact hbind

end Vocabulary

/-! ## What replacing changes -/

/-- Whatever the rules answer to a shortcut is its unfolding. -/
def Vocabulary.Covers (v : Vocabulary) (rules : AliasRules (List StyleItem)) : Prop :=
  ∀ name full, rules.Answers name (some full) →
    Unfolds .shortcut StyleItem.shortcut? v.shortcut? name full

variable {v : Vocabulary} {rules : AliasRules (List StyleItem)}

mutual

theorem SplicesValue.same (hrules : v.Covers rules) : ∀ {value value' : StyleValue},
    SplicesValue rules value value' → v.SameValue value value'
  | _, _, .property value => .property value
  | _, _, .nested hd => .nested (Vocabulary.sameDefinition_of_entries (hd.same hrules))
  | _, _, .items hitems => .items (hitems.same hrules)

/-- Replacing shortcuts changes nothing that an entry says. -/
theorem SplicesEntries.same (hrules : v.Covers rules) :
    ∀ {d d' : List (String × StyleValue)},
      SplicesEntries rules d d' → List.Forall₂ v.SameEntry d d'
  | _, _, .nil => .nil
  | _, _, .cons hvalue hd => .cons (.mk _ (hvalue.same hrules)) (hd.same hrules)

/-- Replacing shortcuts does not change what items stand for. -/
theorem SplicesItems.same (hrules : v.Covers rules) : ∀ {items items' : List StyleItem},
    SplicesItems rules items items' → v.SameItems items items'
  | _, _, .nil => same_pure .nil
  | _, _, .spliced h hitems =>
    Vocabulary.sameItems_append (Vocabulary.sameItems_of_unfolds (hrules _ _ h))
      (hitems.same hrules)
  | _, _, .kept hitems =>
    Vocabulary.sameItems_append (Vocabulary.sameItems_singleton (.shortcut _))
      (hitems.same hrules)
  | _, _, .definition hd hitems =>
    Vocabulary.sameItems_append (Vocabulary.sameItems_singleton
      (.definition (Vocabulary.sameDefinition_of_entries (hd.same hrules)))) (hitems.same hrules)

end

/-- Replacing shortcuts does not change what items say. -/
theorem SplicesItems.same_extractAll (hrules : v.Covers rules) :
    ∀ {items items' : List StyleItem}, SplicesItems rules items items' →
      Same Eq (fun b => v.extractAll b items) fun b => v.extractAll b items'
  | _, _, .nil => same_pure rfl
  | _, _, .spliced h hitems =>
    Vocabulary.same_extractAll_append (Vocabulary.same_extractAll_of_unfolds (hrules _ _ h))
      (hitems.same_extractAll hrules)
  | _, _, .kept hitems =>
    Vocabulary.same_extractAll_append (Same.refl (v.rising_extractAll [.shortcut _]))
      (hitems.same_extractAll hrules)
  | _, _, @SplicesItems.definition _ d d' _ _ hd hitems => by
    have hhead : Same Eq (fun b => v.extractAll b [.definition d])
        fun b => v.extractAll b [.definition d'] := by
      simp only [Vocabulary.extractAll, Walk.collect_singleton]
      exact Vocabulary.sameDefinition_of_entries (hd.same hrules) []
    exact Vocabulary.same_extractAll_append hhead (hitems.same_extractAll hrules)

end AtomicCss
