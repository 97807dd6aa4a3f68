import AtomicCss.Style.Decoding
import Mathlib.Data.List.Forall2

/-!
# The shapes of untagged styles

A style is written without tags, so the form of a JSON value has to tell what it is. Five
shapes are there for the value of a key, three for a scalar, two for an item. No JSON value
has two of them, however deep the difference lies, so the order in which they are tried does
not matter.

- `ScalarForm`, `ValueForm`, `ItemForm`: the grammar. A JSON value has a shape and stands for
  a style, whatever is tried first.
- `ValueForm.shape_unique`: a JSON value has one shape at most.
- `StyleValue.ofJson?_eq_some_iff`: what is decoded is what the grammar says.
- `Trial`: an order of trial, and the decoder that keeps to it.
- `Trial.value?_eq`, `Trial.item?_eq`: whatever is tried first, the same is decoded.
-/

namespace AtomicCss

/-! ## The grammar -/

/-- The shapes of a scalar. -/
inductive ScalarShape where
  | text
  | number
  | flag

/-- The shapes of the value of a key. -/
inductive ValueShape where
  | nested
  | scalar
  | fallback
  | removal
  | items

/-- The shapes of an item. -/
inductive ItemShape where
  | shortcut
  | definition

/-- A JSON value has the shape of a scalar and stands for it. -/
inductive ScalarForm : ScalarShape → Json → Scalar → Prop
  | text (s : String) : ScalarForm .text (.string s) (.text s)
  | int (n : Int) : ScalarForm .number (.int n) (.number (.ofInt n))
  | double (x : Double) : ScalarForm .number (.double x) (.number x)
  | flag (b : Bool) : ScalarForm .flag (.bool b) (.flag b)

/-- JSON values stand for scalars, one by one. -/
def ScalarForms : List Json → List Scalar → Prop :=
  List.Forall₂ fun j x => ∃ shape, ScalarForm shape j x

mutual

/-- A JSON value has a shape of the value of a key and stands for it. -/
inductive ValueForm : ValueShape → Json → StyleValue → Prop
  | nested {fields : List (String × Json)} {entries : List (String × StyleValue)} :
      EntryForms fields entries →
      ValueForm .nested (.object fields) (.nested (Table.ofEntries entries))
  | scalar {shape : ScalarShape} {j : Json} {x : Scalar} :
      ScalarForm shape j x → ValueForm .scalar j (.property (.scalar x))
  | fallback {shape : ScalarShape} {j : Json} {x : Scalar} {js : List Json} {xs : List Scalar} :
      ScalarForm shape j x → ScalarForms js xs →
      ValueForm .fallback (.array [j, .array js]) (.property (.fallback x xs))
  | removal : ValueForm .removal .null (.property .removal)
  | items {js : List Json} {items : List StyleItem} :
      ItemForms js items → ValueForm .items (.array js) (.items items)

/-- Fields stand for entries, one by one. -/
inductive EntryForms : List (String × Json) → List (String × StyleValue) → Prop
  | nil : EntryForms [] []
  | cons {key : String} {shape : ValueShape} {j : Json} {v : StyleValue}
      {fields : List (String × Json)} {entries : List (String × StyleValue)} :
      ValueForm shape j v → EntryForms fields entries →
      EntryForms ((key, j) :: fields) ((key, v) :: entries)

/-- A JSON value has a shape of an item and stands for it. -/
inductive ItemForm : ItemShape → Json → StyleItem → Prop
  | shortcut (name : String) : ItemForm .shortcut (.string name) (.shortcut name)
  | definition {fields : List (String × Json)} {entries : List (String × StyleValue)} :
      EntryForms fields entries →
      ItemForm .definition (.object fields) (.definition (Table.ofEntries entries))

/-- JSON values stand for items, one by one. -/
inductive ItemForms : List Json → List StyleItem → Prop
  | nil : ItemForms [] []
  | cons {shape : ItemShape} {j : Json} {i : StyleItem} {js : List Json}
      {items : List StyleItem} :
      ItemForm shape j i → ItemForms js items → ItemForms (j :: js) (i :: items)

end

variable {j : Json} {js : List Json} {x x' : Scalar} {xs : List Scalar}

theorem ScalarForm.shape_unique {s s' : ScalarShape} (h : ScalarForm s j x)
    (h' : ScalarForm s' j x') : s = s' := by
  cases h <;> cases h' <;> rfl

theorem ItemForm.shape_unique {s s' : ItemShape} {i i' : StyleItem} (h : ItemForm s j i)
    (h' : ItemForm s' j i') : s = s' := by
  cases h <;> cases h' <;> rfl

/-- No item is an array. -/
theorem ItemForms.not_fallback {p : Json} {items : List StyleItem} :
    ¬ ItemForms [p, .array js] items := by
  rintro (_ | ⟨-, _ | ⟨harray, -⟩⟩)
  cases harray

/-- A value of a key has one shape at most. -/
theorem ValueForm.shape_unique {s s' : ValueShape} {v v' : StyleValue} (h : ValueForm s j v)
    (h' : ValueForm s' j v') : s = s' := by
  cases h with
  | nested _ => rcases h' with _ | ⟨⟨⟩⟩; rfl
  | removal => rcases h' with _ | ⟨⟨⟩⟩; rfl
  | scalar hs => cases hs <;> cases h' <;> rfl
  | fallback _ _ =>
    cases h' with
    | fallback _ _ => rfl
    | scalar hs => cases hs
    | items hitems => exact absurd hitems ItemForms.not_fallback
  | items hitems =>
    cases h' with
    | items _ => rfl
    | scalar hs => cases hs
    | fallback _ _ => exact absurd hitems ItemForms.not_fallback

/-! ## What is decoded -/

theorem Scalar.ofJson?_eq_some_iff : Scalar.ofJson? j = some x ↔ ∃ shape, ScalarForm shape j x := by
  constructor
  · intro h
    cases j with
    | string s => exact Option.some.inj h ▸ ⟨_, .text s⟩
    | int n => exact Option.some.inj h ▸ ⟨_, .int n⟩
    | double y => exact Option.some.inj h ▸ ⟨_, .double y⟩
    | bool b => exact Option.some.inj h ▸ ⟨_, .flag b⟩
    | null | array _ | object _ => cases h
  · rintro ⟨_, h⟩
    cases h <;> rfl

/-- Two optional results are there together, the one in front of the other. -/
theorem cons_eq_some_iff {α : Type} {a? : Option α} {as? : Option (List α)} {as : List α} :
    (do return (← a?) :: (← as?)) = some as ↔
      ∃ a rest, a? = some a ∧ as? = some rest ∧ as = a :: rest := by
  cases a? <;> cases as? <;> simp [eq_comm]

theorem scalarsOfJson?_eq_some_iff : scalarsOfJson? js = some xs ↔ ScalarForms js xs := by
  induction js generalizing xs with
  | nil => simp [scalarsOfJson?, ScalarForms, eq_comm]
  | cons j js ih =>
    rw [scalarsOfJson?, cons_eq_some_iff, ScalarForms, List.forall₂_cons_left_iff]
    simp only [Scalar.ofJson?_eq_some_iff, ih]
    rfl

/-- An array is the value of a property if it is a value with fallbacks. -/
theorem PropertyValue.ofJson?_array {value : PropertyValue} :
    PropertyValue.ofJson? (.array js) = some value ↔
      ValueForm .fallback (.array js) (.property value) := by
  constructor
  · intro h
    unfold PropertyValue.ofJson? at h
    split at h
    · next p rest heq =>
      obtain rfl := Json.array.inj heq
      cases hp : Scalar.ofJson? p <;> cases hr : scalarsOfJson? rest <;> simp [hp, hr] at h
      obtain ⟨_, hform⟩ := Scalar.ofJson?_eq_some_iff.1 hp
      exact h ▸ .fallback hform (scalarsOfJson?_eq_some_iff.1 hr)
    · next heq => cases heq
    · cases h
  · rintro (_ | _ | ⟨hp, hrest⟩)
    rw [PropertyValue.ofJson?, Scalar.ofJson?_eq_some_iff.2 ⟨_, hp⟩,
      scalarsOfJson?_eq_some_iff.2 hrest]
    rfl

mutual

/-- The value of a key is decoded if it has one of the shapes, to what the shape makes of
it. -/
theorem StyleValue.ofJson?_eq_some_iff : ∀ (j : Json) (v : StyleValue),
    StyleValue.ofJson? j = some v ↔ ∃ shape, ValueForm shape j v
  | .object fields, v => by
    rw [StyleValue.ofJson?, Option.map_eq_some_iff]
    constructor
    · rintro ⟨entries, h, rfl⟩
      exact ⟨_, .nested ((entriesOfFields?_eq_some_iff fields entries).1 h)⟩
    · rintro ⟨_, ⟨h⟩ | ⟨⟨⟩⟩⟩
      exact ⟨_, (entriesOfFields?_eq_some_iff fields _).2 h, rfl⟩
  | .array js, v => by
    rw [StyleValue.ofJson?]
    cases hvalue : PropertyValue.ofJson? (.array js) with
    | some value =>
      have hform := PropertyValue.ofJson?_array.1 hvalue
      constructor
      · exact fun h => Option.some.inj h ▸ ⟨_, hform⟩
      · rintro ⟨_, h⟩
        -- the value has the shape of a value with fallbacks and no other one
        obtain rfl := h.shape_unique hform
        cases h with
        | fallback hx hxs =>
          have hsame := hvalue.symm.trans (PropertyValue.ofJson?_array.2 (.fallback hx hxs))
          exact congrArg (some ∘ StyleValue.property) (Option.some.inj hsame)
    | none =>
      show (itemsOfElements? js).map StyleValue.items = some v ↔ _
      rw [Option.map_eq_some_iff]
      constructor
      · rintro ⟨items, h, rfl⟩
        exact ⟨_, .items ((itemsOfElements?_eq_some_iff js items).1 h)⟩
      · rintro ⟨_, h⟩
        cases h with
        | scalar hx => cases hx
        | fallback hx hxs =>
          cases hvalue.symm.trans (PropertyValue.ofJson?_array.2 (.fallback hx hxs))
        | items h => exact ⟨_, (itemsOfElements?_eq_some_iff js _).2 h, rfl⟩
  | .null, v => by
    constructor
    · exact fun h => Option.some.inj h ▸ ⟨_, .removal⟩
    · rintro ⟨_, _ | ⟨⟨⟩⟩ | _⟩
      rfl
  | .bool _, v | .int _, v | .double _, v | .string _, v => by
    constructor
    · exact fun h => Option.some.inj h ▸ ⟨_, .scalar (by constructor)⟩
    · rintro ⟨_, _ | ⟨⟨⟩⟩⟩
      rfl

/-- The entries of fields are decoded if the value of each of them is. -/
theorem entriesOfFields?_eq_some_iff :
    ∀ (fields : List (String × Json)) (entries : List (String × StyleValue)),
      entriesOfFields? fields = some entries ↔ EntryForms fields entries
  | [], entries => by
    refine ⟨fun h => Option.some.inj h ▸ .nil, ?_⟩
    rintro ⟨⟩
    rfl
  | (key, j) :: fields, entries => by
    have hstep : entriesOfFields? ((key, j) :: fields) = some entries ↔
        ∃ v rest, StyleValue.ofJson? j = some v ∧ entriesOfFields? fields = some rest ∧
          entries = (key, v) :: rest := by
      rw [entriesOfFields?]
      cases StyleValue.ofJson? j <;> cases entriesOfFields? fields <;> simp [eq_comm]
    rw [hstep]
    constructor
    · rintro ⟨v, rest, hv, hrest, rfl⟩
      obtain ⟨_, hform⟩ := (StyleValue.ofJson?_eq_some_iff j v).1 hv
      exact .cons hform ((entriesOfFields?_eq_some_iff fields rest).1 hrest)
    · rintro (_ | ⟨hv, hrest⟩)
      exact ⟨_, _, (StyleValue.ofJson?_eq_some_iff j _).2 ⟨_, hv⟩,
        (entriesOfFields?_eq_some_iff fields _).2 hrest, rfl⟩

/-- An item is decoded if it has one of the shapes, to what the shape makes of it. -/
theorem StyleItem.ofJson?_eq_some_iff : ∀ (j : Json) (i : StyleItem),
    StyleItem.ofJson? j = some i ↔ ∃ shape, ItemForm shape j i
  | .string name, i => by
    constructor
    · exact fun h => Option.some.inj h ▸ ⟨_, .shortcut name⟩
    · rintro ⟨_, ⟨⟩⟩
      rfl
  | .object fields, i => by
    rw [StyleItem.ofJson?, Option.map_eq_some_iff]
    constructor
    · rintro ⟨entries, h, rfl⟩
      exact ⟨_, .definition ((entriesOfFields?_eq_some_iff fields entries).1 h)⟩
    · rintro ⟨_, _ | h⟩
      exact ⟨_, (entriesOfFields?_eq_some_iff fields _).2 h, rfl⟩
  | .null, i | .bool _, i | .int _, i | .double _, i | .array _, i => by
    refine ⟨nofun, ?_⟩
    rintro ⟨_, ⟨⟩⟩

/-- Items are decoded if each of them is. -/
theorem itemsOfElements?_eq_some_iff : ∀ (js : List Json) (items : List StyleItem),
    itemsOfElements? js = some items ↔ ItemForms js items
  | [], items => by
    refine ⟨fun h => Option.some.inj h ▸ .nil, ?_⟩
    rintro ⟨⟩
    rfl
  | j :: js, items => by
    rw [itemsOfElements?, cons_eq_some_iff]
    constructor
    · rintro ⟨i, rest, hi, hrest, rfl⟩
      obtain ⟨_, hform⟩ := (StyleItem.ofJson?_eq_some_iff j i).1 hi
      exact .cons hform ((itemsOfElements?_eq_some_iff js rest).1 hrest)
    · rintro (_ | ⟨hi, hrest⟩)
      exact ⟨_, _, (StyleItem.ofJson?_eq_some_iff j _).2 ⟨_, hi⟩,
        (itemsOfElements?_eq_some_iff js _).2 hrest, rfl⟩

end

/-! ## Orders of trial -/

/-- A scalar that is taken to have a shape. -/
def ScalarShape.read? : ScalarShape → Json → Option Scalar
  | .text, .string s => some (.text s)
  | .number, .int n => some (.number (.ofInt n))
  | .number, .double x => some (.number x)
  | .flag, .bool b => some (.flag b)
  | _, _ => none

/-- An order in which shapes are tried. None of them is left out. -/
structure Trial where
  scalars : List ScalarShape
  values : List ValueShape
  items : List ItemShape
  mem_scalars : ∀ shape, shape ∈ scalars
  mem_values : ∀ shape, shape ∈ values
  mem_items : ∀ shape, shape ∈ items

namespace Trial

/-- The scalar of the first shape that fits. -/
def scalar? (t : Trial) (j : Json) : Option Scalar := t.scalars.findSome? (·.read? j)

/-- The scalars of a list of JSON values, if each of them is one. -/
def scalars? (t : Trial) : List Json → Option (List Scalar)
  | [] => some []
  | j :: js => do return (← t.scalar? j) :: (← t.scalars? js)

/-- A value with fallbacks. -/
def fallback? (t : Trial) : Json → Option PropertyValue
  | .array [primary, .array rest] => do
    return .fallback (← t.scalar? primary) (← t.scalars? rest)
  | _ => none

mutual

/-- The value of a key that is taken to have a shape. In it the order of trial is kept. -/
def valueAs? (t : Trial) : ValueShape → Json → Option StyleValue
  | .nested, .object fields => (t.entries? fields).map fun es => .nested (Table.ofEntries es)
  | .scalar, j => (t.scalar? j).map fun x => .property (.scalar x)
  | .fallback, j => (t.fallback? j).map .property
  | .removal, .null => some (.property .removal)
  | .items, .array elements => (t.elements? elements).map .items
  | _, _ => none
termination_by structural _ j => j

/-- The entries of a list of fields, each with the value of the first shape that fits. -/
def entries? (t : Trial) : List (String × Json) → Option (List (String × StyleValue))
  | [] => some []
  | (k, j) :: fields => do
    return (k, ← t.values.findSome? fun shape => t.valueAs? shape j) :: (← t.entries? fields)
termination_by structural fields => fields

/-- An item that is taken to have a shape. In it the order of trial is kept. -/
def itemAs? (t : Trial) : ItemShape → Json → Option StyleItem
  | .shortcut, .string name => some (.shortcut name)
  | .definition, .object fields =>
    (t.entries? fields).map fun es => .definition (Table.ofEntries es)
  | _, _ => none
termination_by structural _ j => j

/-- The items of a list of JSON values, each of the first shape that fits. -/
def elements? (t : Trial) : List Json → Option (List StyleItem)
  | [] => some []
  | j :: js => do
    return (← t.items.findSome? fun shape => t.itemAs? shape j) :: (← t.elements? js)
termination_by structural js => js

end

/-- The value of the first shape that fits. -/
def value? (t : Trial) (j : Json) : Option StyleValue :=
  t.values.findSome? fun shape => t.valueAs? shape j

/-- The item of the first shape that fits. -/
def item? (t : Trial) (j : Json) : Option StyleItem :=
  t.items.findSome? fun shape => t.itemAs? shape j

/-- Where one shape fits at most, the order of trial does not matter. -/
theorem findSome?_eq_some_iff {α β : Type} {shapes : List α} {read? : α → Option β}
    {form : α → β → Prop} (hshapes : ∀ a, a ∈ shapes) (hread : ∀ a b, read? a = some b ↔ form a b)
    (hunique : ∀ {a a' b b'}, form a b → form a' b' → a = a') {b : β} :
    shapes.findSome? read? = some b ↔ ∃ a, form a b := by
  constructor
  · intro h
    obtain ⟨a, -, ha⟩ := List.exists_of_findSome?_eq_some h
    exact ⟨a, (hread a b).1 ha⟩
  · rintro ⟨a, ha⟩
    have hsome : (shapes.findSome? read?).isSome :=
      List.findSome?_isSome_iff.2 ⟨a, hshapes a, by simp [(hread a b).2 ha]⟩
    obtain ⟨b', hb'⟩ := Option.isSome_iff_exists.1 hsome
    obtain ⟨a', -, ha'⟩ := List.exists_of_findSome?_eq_some hb'
    obtain rfl := hunique ha ((hread a' b').1 ha')
    rw [hb', ← ha', (hread a b).2 ha]

theorem scalar?_eq (t : Trial) (j : Json) : t.scalar? j = Scalar.ofJson? j := by
  have hread (shape : ScalarShape) (x : Scalar) :
      shape.read? j = some x ↔ ScalarForm shape j x := by
    constructor
    · intro h
      unfold ScalarShape.read? at h
      split at h <;> cases h <;> constructor
    · rintro ⟨⟩ <;> rfl
  ext x
  rw [scalar?, findSome?_eq_some_iff t.mem_scalars hread ScalarForm.shape_unique,
    Scalar.ofJson?_eq_some_iff]

theorem scalars?_eq (t : Trial) (js : List Json) : t.scalars? js = scalarsOfJson? js := by
  induction js with
  | nil => rfl
  | cons j js ih => rw [scalars?, scalarsOfJson?, scalar?_eq, ih]

theorem fallback?_eq_some_iff (t : Trial) (j : Json) (value : PropertyValue) :
    t.fallback? j = some value ↔ ValueForm .fallback j (.property value) := by
  constructor
  · intro h
    unfold fallback? at h
    split at h
    · next p rest =>
      rw [scalar?_eq, scalars?_eq] at h
      exact PropertyValue.ofJson?_array.1 h
    · cases h
  · rintro (_ | _ | ⟨hx, hxs⟩)
    rw [fallback?, scalar?_eq, scalars?_eq, Scalar.ofJson?_eq_some_iff.2 ⟨_, hx⟩,
      scalarsOfJson?_eq_some_iff.2 hxs]
    rfl

/-- If a value is read as the shape that it has, it is decoded whatever is tried first. -/
theorem findSome?_values (t : Trial) {j : Json}
    (h : ∀ shape v, t.valueAs? shape j = some v ↔ ValueForm shape j v) :
    t.values.findSome? (fun shape => t.valueAs? shape j) = StyleValue.ofJson? j := by
  ext v
  rw [findSome?_eq_some_iff t.mem_values h ValueForm.shape_unique,
    StyleValue.ofJson?_eq_some_iff]

/-- If an item is read as the shape that it has, it is decoded whatever is tried first. -/
theorem findSome?_items (t : Trial) {j : Json}
    (h : ∀ shape i, t.itemAs? shape j = some i ↔ ItemForm shape j i) :
    t.items.findSome? (fun shape => t.itemAs? shape j) = StyleItem.ofJson? j := by
  ext i
  rw [findSome?_eq_some_iff t.mem_items h ItemForm.shape_unique, StyleItem.ofJson?_eq_some_iff]

mutual

/-- A value is read as a shape if it has the shape. -/
theorem valueAs?_eq_some_iff (t : Trial) : ∀ (j : Json) (shape : ValueShape) (v : StyleValue),
    t.valueAs? shape j = some v ↔ ValueForm shape j v
  | j, .scalar, v => by
    rw [valueAs?, Option.map_eq_some_iff]
    simp only [scalar?_eq, Scalar.ofJson?_eq_some_iff]
    constructor
    · rintro ⟨x, ⟨_, h⟩, rfl⟩
      exact .scalar h
    · rintro (_ | h)
      exact ⟨_, ⟨_, h⟩, rfl⟩
  | j, .fallback, v => by
    rw [valueAs?, Option.map_eq_some_iff]
    simp only [fallback?_eq_some_iff]
    constructor
    · rintro ⟨value, h, rfl⟩
      exact h
    · rintro (_ | _ | ⟨hx, hxs⟩)
      exact ⟨_, .fallback hx hxs, rfl⟩
  | j, .removal, v => by
    cases j with
    | null =>
      refine ⟨fun h => Option.some.inj h ▸ .removal, ?_⟩
      rintro ⟨⟩
      rfl
    | _ => exact ⟨nofun, nofun⟩
  | j, .nested, v => by
    cases j with
    | object fields =>
      rw [valueAs?, entries?_eq t fields, Option.map_eq_some_iff]
      simp only [entriesOfFields?_eq_some_iff]
      constructor
      · rintro ⟨entries, h, rfl⟩
        exact .nested h
      · rintro ⟨h⟩
        exact ⟨_, h, rfl⟩
    | _ => exact ⟨nofun, nofun⟩
  | j, .items, v => by
    cases j with
    | array js =>
      rw [valueAs?, elements?_eq t js, Option.map_eq_some_iff]
      simp only [itemsOfElements?_eq_some_iff]
      constructor
      · rintro ⟨items, h, rfl⟩
        exact .items h
      · rintro (_ | _ | _ | _ | h)
        exact ⟨_, h, rfl⟩
    | _ => exact ⟨nofun, nofun⟩

theorem entries?_eq (t : Trial) : ∀ fields : List (String × Json),
    t.entries? fields = entriesOfFields? fields
  | [] => rfl
  | (_, j) :: fields => by
    rw [entries?, entriesOfFields?, findSome?_values t (valueAs?_eq_some_iff t j),
      entries?_eq t fields]

/-- An item is read as a shape if it has the shape. -/
theorem itemAs?_eq_some_iff (t : Trial) : ∀ (j : Json) (shape : ItemShape) (i : StyleItem),
    t.itemAs? shape j = some i ↔ ItemForm shape j i
  | j, .shortcut, i => by
    cases j with
    | string name =>
      refine ⟨fun h => Option.some.inj h ▸ .shortcut name, ?_⟩
      rintro ⟨⟩
      rfl
    | _ => exact ⟨nofun, nofun⟩
  | j, .definition, i => by
    cases j with
    | object fields =>
      rw [itemAs?, entries?_eq t fields, Option.map_eq_some_iff]
      simp only [entriesOfFields?_eq_some_iff]
      constructor
      · rintro ⟨entries, h, rfl⟩
        exact .definition h
      · rintro (_ | h)
        exact ⟨_, h, rfl⟩
    | _ => exact ⟨nofun, nofun⟩

theorem elements?_eq (t : Trial) : ∀ js : List Json, t.elements? js = itemsOfElements? js
  | [] => rfl
  | j :: js => by
    rw [elements?, itemsOfElements?, findSome?_items t (itemAs?_eq_some_iff t j),
      elements?_eq t js]

end

/-- Whatever is tried first, the same value is decoded. -/
theorem value?_eq (t : Trial) (j : Json) : t.value? j = StyleValue.ofJson? j :=
  findSome?_values t (valueAs?_eq_some_iff t j)

/-- Whatever is tried first, the same item is decoded. -/
theorem item?_eq (t : Trial) (j : Json) : t.item? j = StyleItem.ofJson? j :=
  findSome?_items t (itemAs?_eq_some_iff t j)

end Trial

end AtomicCss
