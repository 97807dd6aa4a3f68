import AtomicCss.Proofs.Extraction.Itemwise
import AtomicCss.Proofs.Style.Importance

/-!
# The shortcuts that extraction reaches

Extraction comes across a shortcut in a list of items, at the top, under a key, or in what
another shortcut stands for; the items in the place of a flag are left out. The names that it
lists as unknown are those among them that nothing answers, once for each time it comes across
them, and in the same order.

- `ReachesItems`: the shortcuts that are reached in items, one after the other.
- `ReachesItems.unique`: there is no other list of them.
- `unanswered`: the names that no rule answers.
- `Vocabulary.reaches_of_expansion`: what the expansion of items reaches unanswered, the items do.
- `Vocabulary.reaches_of_definition`, `Vocabulary.reaches_of_extractAll`: what is listed as
  unknown was reached, and was not answered.
-/

namespace AtomicCss

open Reading AliasRules

/-! ## Shortcuts on the way -/

section

variable (lookup? : String → Option (List StyleItem))

mutual

/-- The shortcuts that are reached in the value of a key, one after the other. -/
inductive ReachesValue : StyleValue → List String → Prop
  | property (value : PropertyValue) : ReachesValue (.property value) []
  | nested {d : List (String × StyleValue)} {names : List String} :
      ReachesEntries (Table.erase d Important.flagKey) names → ReachesValue (.nested d) names
  | items {items : List StyleItem} {names : List String} :
      ReachesItems items names → ReachesValue (.items items) names

/-- The shortcuts that are reached in entries. -/
inductive ReachesEntries : List (String × StyleValue) → List String → Prop
  | nil : ReachesEntries [] []
  | cons {key : String} {v : StyleValue} {entries : List (String × StyleValue)}
      {here rest : List String} :
      ReachesValue v here → ReachesEntries entries rest →
      ReachesEntries ((key, v) :: entries) (here ++ rest)

/-- The shortcuts that are reached in items: each shortcut among them, followed by those in its
answer if it has one, and those in the definitions, their flags left out. -/
inductive ReachesItems : List StyleItem → List String → Prop
  | nil : ReachesItems [] []
  | answered {name : String} {answer items : List StyleItem} {inner rest : List String} :
      lookup? name = some answer → ReachesItems answer inner → ReachesItems items rest →
      ReachesItems (.shortcut name :: items) (name :: inner ++ rest)
  | unanswered {name : String} {items : List StyleItem} {rest : List String} :
      lookup? name = none → ReachesItems items rest →
      ReachesItems (.shortcut name :: items) (name :: rest)
  | definition {d : List (String × StyleValue)} {items : List StyleItem}
      {inner rest : List String} :
      ReachesEntries (Table.erase d Important.flagKey) inner → ReachesItems items rest →
      ReachesItems (.definition d :: items) (inner ++ rest)

end

/-- The names that no rule answers. -/
def unanswered (names : List String) : List String :=
  names.filter fun name => (lookup? name).isNone

end

/-- The unknown name that a part lists. -/
def Extracted.unknown? : Extracted → Option String
  | .unknown name => some name
  | .assignment _ => none

variable {lookup? : String → Option (List StyleItem)}

mutual

theorem ReachesValue.unique : ∀ {v : StyleValue} {names names' : List String},
    ReachesValue lookup? v names → ReachesValue lookup? v names' → names = names'
  | _, _, _, .property _, .property _ => rfl
  | _, _, _, .nested h, .nested h' => h.unique h'
  | _, _, _, .items h, .items h' => h.unique h'

theorem ReachesEntries.unique : ∀ {entries : List (String × StyleValue)}
    {names names' : List String},
    ReachesEntries lookup? entries names → ReachesEntries lookup? entries names' → names = names'
  | _, _, _, .nil, .nil => rfl
  | _, _, _, .cons hv h, .cons hv' h' => by rw [hv.unique hv', h.unique h']

/-- There is one list of the shortcuts that are reached. -/
theorem ReachesItems.unique : ∀ {items : List StyleItem} {names names' : List String},
    ReachesItems lookup? items names → ReachesItems lookup? items names' → names = names'
  | _, _, _, .nil, .nil => rfl
  | _, _, _, .answered ha hinner h, .answered ha' hinner' h' => by
    obtain rfl := Option.some.inj (ha.symm.trans ha')
    rw [hinner.unique hinner', h.unique h']
  | _, _, _, .answered ha _ _, .unanswered ha' _ => nomatch ha.symm.trans ha'
  | _, _, _, .unanswered ha _, .answered ha' _ _ => nomatch ha.symm.trans ha'
  | _, _, _, .unanswered _ h, .unanswered _ h' => by rw [h.unique h']
  | _, _, _, .definition hd h, .definition hd' h' => by rw [hd.unique hd', h.unique h']

end

/-- What is reached in two lists, one behind the other. -/
theorem reachesItems_append {xs ys : List StyleItem} {names : List String} :
    ReachesItems lookup? (xs ++ ys) names ↔ ∃ front back, ReachesItems lookup? xs front ∧
      ReachesItems lookup? ys back ∧ names = front ++ back := by
  induction xs generalizing names with
  | nil =>
    constructor
    · exact fun h => ⟨[], names, .nil, h, rfl⟩
    · rintro ⟨front, back, hfront, hback, rfl⟩
      cases hfront
      exact hback
  | cons x xs ih =>
    constructor
    · intro h
      cases h with
      | answered ha hinner h =>
        obtain ⟨front, back, hfront, hback, rfl⟩ := ih.1 h
        exact ⟨_, back, .answered ha hinner hfront, hback, (List.append_assoc ..).symm⟩
      | unanswered ha h =>
        obtain ⟨front, back, hfront, hback, rfl⟩ := ih.1 h
        exact ⟨_, back, .unanswered ha hfront, hback, rfl⟩
      | definition hd h =>
        obtain ⟨front, back, hfront, hback, rfl⟩ := ih.1 h
        exact ⟨_, back, .definition hd hfront, hback, (List.append_assoc ..).symm⟩
    · rintro ⟨front, back, hfront, hback, rfl⟩
      cases hfront with
      | answered ha hinner h =>
        rw [List.append_assoc]
        exact .answered ha hinner (ih.2 ⟨_, back, h, hback, rfl⟩)
      | unanswered ha h => exact .unanswered ha (ih.2 ⟨_, back, h, hback, rfl⟩)
      | definition hd h =>
        rw [List.append_assoc]
        exact .definition hd (ih.2 ⟨_, back, h, hback, rfl⟩)

theorem unanswered_append (xs ys : List String) :
    unanswered lookup? (xs ++ ys) = unanswered lookup? xs ++ unanswered lookup? ys :=
  List.filter_append ..

theorem unanswered_cons_of_some {name : String} {answer : List StyleItem}
    (h : lookup? name = some answer) (names : List String) :
    unanswered lookup? (name :: names) = unanswered lookup? names :=
  List.filter_cons_of_neg (by simp [h])

theorem unanswered_cons_of_none {name : String} (h : lookup? name = none) (names : List String) :
    unanswered lookup? (name :: names) = name :: unanswered lookup? names :=
  List.filter_cons_of_pos (by simp [h])

/-! ## Expansion -/

theorem lookup_of_unfold_none {b : Nat} {path : List String} {name : String}
    (h : Gives (unfold .shortcut StyleItem.shortcut? lookup? b path name) (.ok none)) :
    lookup? name = none := by
  cases b with
  | zero => exact absurd h not_gives_unfold_zero
  | succ b => exact (gives_unfold_ok_none.1 h).2

/-- If what names unfold to reaches no other unanswered names than they do, what items unfold to
reaches no other ones than the items. -/
theorem reaches_of_elements {unfolding : String → Reading (Option (List StyleItem))}
    (hsome : ∀ {name full names}, Gives (unfolding name) (.ok (some full)) →
      ReachesItems lookup? full names → ∃ answer reached, lookup? name = some answer ∧
        ReachesItems lookup? answer reached ∧ unanswered lookup? reached = unanswered lookup? names)
    {items full : List StyleItem} {names : List String}
    (h : Gives (Walk.collect (unfoldElement StyleItem.shortcut? unfolding) items) (.ok full))
    (hfull : ReachesItems lookup? full names) :
    ∃ reached, ReachesItems lookup? items reached ∧
      unanswered lookup? reached = unanswered lookup? names := by
  induction items generalizing full names with
  | nil =>
    obtain rfl := Except.ok.inj (gives_pure.1 h)
    exact ⟨names, hfull, rfl⟩
  | cons item items ih =>
    obtain ⟨here, rest, hhere, hrest, rfl⟩ := gives_collect_ok_cons.1 h
    obtain ⟨front, back, hfront, hback, rfl⟩ := reachesItems_append.1 hfull
    obtain ⟨behind, hbehind, heq⟩ := ih hrest hback
    -- an item that stays reaches what it reaches in the unfolding
    have hstays (hhere : here = [item]) : ∃ reached,
        ReachesItems lookup? (item :: items) reached ∧
          unanswered lookup? reached = unanswered lookup? (front ++ back) := by
      subst hhere
      refine ⟨front ++ behind, reachesItems_append.2 ⟨front, behind, hfront, hbehind, rfl⟩, ?_⟩
      rw [unanswered_append, unanswered_append, heq]
    rcases gives_unfoldElement_ok.1 hhere with ⟨-, hhere⟩ | ⟨name, inner, hname, hinner, hhere⟩
    · exact hstays hhere
    cases inner with
    | none => exact hstays hhere
    | some full =>
      obtain rfl : here = full := hhere
      obtain rfl : item = .shortcut name := by
        cases item with
        | shortcut other => exact congrArg StyleItem.shortcut (Option.some.inj hname)
        | definition d => cases hname
      obtain ⟨answer, reached, hanswer, hreached, heq'⟩ := hsome hinner hfront
      refine ⟨_, .answered hanswer hreached hbehind, ?_⟩
      rw [List.cons_append, unanswered_cons_of_some hanswer, unanswered_append, unanswered_append,
        heq, heq']

/-- What a shortcut unfolds to reaches no other unanswered names than its answer. -/
theorem reaches_of_unfold {b : Nat} {path : List String} {name : String} {full : List StyleItem}
    {names : List String}
    (h : Gives (unfold .shortcut StyleItem.shortcut? lookup? b path name) (.ok (some full)))
    (hfull : ReachesItems lookup? full names) :
    ∃ answer reached, lookup? name = some answer ∧ ReachesItems lookup? answer reached ∧
      unanswered lookup? reached = unanswered lookup? names := by
  induction b generalizing path name full names with
  | zero => exact absurd h not_gives_unfold_zero
  | succ b ih =>
    obtain ⟨-, answer, hanswer, helements⟩ := gives_unfold_ok_some.1 h
    obtain ⟨reached, hreached, heq⟩ := reaches_of_elements ih helements hfull
    exact ⟨answer, reached, hanswer, hreached, heq⟩

/-! ## What items say -/

namespace Vocabulary

variable {v : Vocabulary} {b : Nat} {chain : List String} {list : List StyleItem}
  {parts : List Extracted}

theorem item_eq (item : StyleItem) : v.item b item =
    unfoldElement StyleItem.shortcut?
      (unfold .shortcut StyleItem.shortcut? v.shortcut? b []) item := by
  cases item <;> rfl

/-- What the expansion of items reaches unanswered is what the items reach unanswered. -/
theorem reaches_of_expansion {flat : List StyleItem} {names : List String}
    (h : Gives (v.expansion b list) (.ok flat)) (hflat : ReachesItems v.shortcut? flat names) :
    ∃ reached, ReachesItems v.shortcut? list reached ∧
      unanswered v.shortcut? reached = unanswered v.shortcut? names := by
  have hitems : v.item b = unfoldElement StyleItem.shortcut?
      (unfold .shortcut StyleItem.shortcut? v.shortcut? b []) := funext item_eq
  rw [expansion, hitems] at h
  exact reaches_of_elements reaches_of_unfold h hflat

/-- A shortcut that is left in the expansion of items has no answer. -/
theorem settled_of_expansion {flat : List StyleItem} {name : String}
    (h : Gives (v.expansion b list) (.ok flat)) (hname : .shortcut name ∈ flat) :
    v.shortcut? name = none := by
  obtain ⟨item, -, here, hhere, hname⟩ := exists_of_mem_collect_ok h hname
  rw [item_eq] at hhere
  rcases gives_unfoldElement_ok.1 hhere with ⟨hitem, rfl⟩ | ⟨other, inner, hother, hinner, rfl⟩
  · obtain rfl := List.mem_singleton.1 hname
    cases hitem
  · cases inner with
    | none =>
      obtain rfl := List.mem_singleton.1 hname
      obtain rfl := Option.some.inj hother
      exact lookup_of_unfold_none hinner
    | some full => exact (Unfolds.of_unfold hinner).settled hname rfl

/-- The names that parts list as unknown are those that are reached unanswered, one for one. -/
def Reported (v : Vocabulary) (names : List String) (parts : List Extracted) : Prop :=
  unanswered v.shortcut? names = parts.filterMap Extracted.unknown?

theorem Reported.append {names names' : List String} {parts' : List Extracted}
    (h : v.Reported names parts) (h' : v.Reported names' parts') :
    v.Reported (names ++ names') (parts ++ parts') := by
  rw [Reported, unanswered_append, List.filterMap_append, h, h']

section

variable (hdeeper : ∀ {chain d parts}, Gives (v.definition b chain d) (.ok parts) →
  ∃ names, ReachesEntries v.shortcut? (Table.erase d Important.flagKey) names ∧
    v.Reported names parts)

include hdeeper

theorem reaches_of_flat (hsettled : ∀ name, .shortcut name ∈ list → v.shortcut? name = none)
    (h : Gives (Walk.collect (part (v.definition b chain)) list) (.ok parts)) :
    ∃ names, ReachesItems v.shortcut? list names ∧ v.Reported names parts := by
  induction list generalizing parts with
  | nil =>
    obtain rfl := Except.ok.inj (gives_pure.1 h)
    exact ⟨[], .nil, rfl⟩
  | cons item list ih =>
    obtain ⟨here, rest, hhere, hrest, rfl⟩ := gives_collect_ok_cons.1 h
    obtain ⟨names, hnames, hreported⟩ :=
      ih (fun name hname => hsettled name (List.mem_cons_of_mem _ hname)) hrest
    cases item with
    | shortcut name =>
      obtain rfl := Except.ok.inj (gives_pure.1 hhere)
      have hnone := hsettled name List.mem_cons_self
      have hone : v.Reported [name] [.unknown name] := unanswered_cons_of_none hnone []
      exact ⟨name :: names, .unanswered hnone hnames, hone.append hreported⟩
    | definition d =>
      obtain ⟨inner, hinner, hreported'⟩ := hdeeper hhere
      exact ⟨inner ++ names, .definition hinner hnames, hreported'.append hreported⟩

theorem reaches_of_items (h : Gives (v.items b chain list) (.ok parts)) :
    ∃ names, ReachesItems v.shortcut? list names ∧ v.Reported names parts := by
  obtain ⟨flat, hflat, hparts⟩ := gives_items_ok_iff.1 h
  obtain ⟨names, hnames, hreported⟩ :=
    reaches_of_flat hdeeper (fun _ => settled_of_expansion hflat) hparts
  obtain ⟨reached, hreached, heq⟩ := reaches_of_expansion hflat hnames
  exact ⟨reached, hreached, heq.trans hreported⟩

/-- Marks are put on properties, where no shortcut is reached. -/
theorem reaches_of_entry {selectors : List String} {key : String} {d : StyleDefinition}
    {value : StyleValue}
    (h : Gives (v.entry b (v.definition b) chain selectors
      (key, Important.treated v.important d value)) (.ok parts)) :
    ∃ names, ReachesValue v.shortcut? value names ∧ v.Reported names parts := by
  cases value with
  | property value =>
    obtain ⟨value', heq⟩ := Important.exists_treated_property v.important d value
    rw [heq] at h
    obtain rfl := Except.ok.inj (gives_pure.1 h)
    exact ⟨[], .property value, rfl⟩
  | nested d' =>
    rw [Important.treated_nested] at h
    obtain ⟨names, hnames, hreported⟩ := hdeeper h
    exact ⟨names, .nested hnames, hreported⟩
  | items items =>
    rw [Important.treated_items] at h
    obtain ⟨names, hnames, hreported⟩ := reaches_of_items hdeeper h
    exact ⟨names, .items hnames, hreported⟩

theorem reaches_of_entries {selectors : List String} {d entries : StyleDefinition}
    (h : Gives (Walk.collect (v.entry b (v.definition b) chain selectors)
      (Table.mapValues (Important.treated v.important d) entries)) (.ok parts)) :
    ∃ names, ReachesEntries v.shortcut? entries names ∧ v.Reported names parts := by
  induction entries generalizing parts with
  | nil =>
    obtain rfl := Except.ok.inj (gives_pure.1 h)
    exact ⟨[], .nil, rfl⟩
  | cons entry entries ih =>
    obtain ⟨key, value⟩ := entry
    obtain ⟨here, rest, hhere, hrest, rfl⟩ := gives_collect_ok_cons.1 h
    obtain ⟨names, hnames, hreported⟩ := reaches_of_entry hdeeper hhere
    obtain ⟨names', hnames', hreported'⟩ := ih hrest
    exact ⟨names ++ names', .cons hnames hnames', hreported.append hreported'⟩

end

/-- A definition lists as unknown what it reaches unanswered, its own flag left out. -/
theorem reaches_of_definition {d : StyleDefinition}
    (h : Gives (v.definition b chain d) (.ok parts)) :
    ∃ names, ReachesEntries v.shortcut? (Table.erase d Important.flagKey) names ∧
      v.Reported names parts := by
  induction b generalizing chain d parts with
  | zero => exact absurd h not_gives_unfinished
  | succ b ih =>
    rcases gives_bind.1 h with ⟨_, -, heq⟩ | ⟨replaced, -, hentries⟩
    · cases heq
    · rw [Important.apply_eq] at hentries
      exact reaches_of_entries ih hentries

/-- Items list as unknown what they reach unanswered. -/
theorem reaches_of_extractAll (h : Gives (v.extractAll b list) (.ok parts)) :
    ∃ names, ReachesItems v.shortcut? list names ∧ v.Reported names parts :=
  reaches_of_items reaches_of_definition (gives_extractAll_ok_iff.1 h)

end Vocabulary

end AtomicCss
