import AtomicCss.Proofs.Store.Prefixes
import AtomicCss.Proofs.Style.Shapes

/-!
# Styles are written and read back

A style tree in which no definition repeats a key has a JSON form that stands for it, key by
key in the same order, and decoding leads to such trees only.

- `StyleValue.Proper`, `StyleItem.Proper`: no definition in a style repeats a key.
- `ValueForm.proper`: a style that a JSON value stands for is proper.
- `StyleValue.form_toJson`: the JSON form of a proper style stands for it.
- `Json.writable_of_finite`: where all numbers are finite, the JSON form can be written.
- `StyleValue.decoding_unambiguous`: shapes, orders of trial, grammar and the way back.
-/

namespace AtomicCss

/-! ## Proper styles -/

mutual

/-- No definition in the value repeats a key. -/
def StyleValue.Proper : StyleValue → Prop
  | .nested d => (Table.keys d).Nodup ∧ ProperEntries d
  | .property _ => True
  | .items items => ProperItems items
termination_by structural v => v

/-- No definition in the values of the entries repeats a key. -/
def ProperEntries : List (String × StyleValue) → Prop
  | [] => True
  | (_, v) :: entries => v.Proper ∧ ProperEntries entries
termination_by structural entries => entries

/-- No definition in the item repeats a key. -/
def StyleItem.Proper : StyleItem → Prop
  | .shortcut _ => True
  | .definition d => (Table.keys d).Nodup ∧ ProperEntries d
termination_by structural i => i

/-- No definition in the items repeats a key. -/
def ProperItems : List StyleItem → Prop
  | [] => True
  | i :: items => i.Proper ∧ ProperItems items
termination_by structural items => items

end

/-- Entries are proper one by one. -/
theorem properEntries_iff {entries : List (String × StyleValue)} :
    ProperEntries entries ↔ ∀ e ∈ entries, e.2.Proper := by
  induction entries with
  | nil => simp [ProperEntries]
  | cons e entries ih => simp [ProperEntries, ih]

/-- A table has no other entries than those that it is made of. -/
theorem Table.mem_of_mem_ofEntries {κ α : Type} [DecidableEq κ] {entries : List (κ × α)}
    {e : κ × α} (h : e ∈ ofEntries entries) : e ∈ entries := by
  induction entries using List.reverseRecOn with
  | nil => exact h
  | append_singleton entries e' ih =>
    rw [ofEntries_append_singleton] at h
    rcases mem_of_insert h with rfl | h
    · exact List.mem_append_right _ (List.mem_singleton_self _)
    · exact List.mem_append_left _ (ih h)

/-- A definition that is read repeats no key. -/
theorem proper_ofEntries {entries : List (String × StyleValue)} (h : ProperEntries entries) :
    (Table.keys (Table.ofEntries entries)).Nodup ∧ ProperEntries (Table.ofEntries entries) := by
  rw [Table.keys_ofEntries]
  exact ⟨nodup_distinct _, properEntries_iff.2 fun e he =>
    properEntries_iff.1 h e (Table.mem_of_mem_ofEntries he)⟩

mutual

/-- What is decoded is proper: a definition has each of its keys once, however often a key was
written. -/
theorem ValueForm.proper {shape : ValueShape} {j : Json} {v : StyleValue} :
    ValueForm shape j v → v.Proper
  | .nested h => proper_ofEntries h.proper
  | .scalar _ => trivial
  | .fallback _ _ => trivial
  | .removal => trivial
  | .items h => h.proper

theorem EntryForms.proper {fields : List (String × Json)} {entries : List (String × StyleValue)} :
    EntryForms fields entries → ProperEntries entries
  | .nil => trivial
  | .cons h hs => ⟨h.proper, hs.proper⟩

theorem ItemForm.proper {shape : ItemShape} {j : Json} {i : StyleItem} :
    ItemForm shape j i → i.Proper
  | .shortcut _ => trivial
  | .definition h => proper_ofEntries h.proper

theorem ItemForms.proper {js : List Json} {items : List StyleItem} :
    ItemForms js items → ProperItems items
  | .nil => trivial
  | .cons h hs => ⟨h.proper, hs.proper⟩

end

/-! ## There and back -/

/-- The JSON form of a scalar stands for the scalar. -/
theorem Scalar.form_toJson : ∀ x : Scalar, ∃ shape, ScalarForm shape x.toJson x
  | .text s => ⟨_, .text s⟩
  | .number x => ⟨_, .double x⟩
  | .flag b => ⟨_, .flag b⟩

/-- The JSON form of a property stands for the property. -/
theorem PropertyValue.form_toJson : ∀ value : PropertyValue,
    ∃ shape, ValueForm shape value.toJson (.property value)
  | .scalar x => (Scalar.form_toJson x).elim fun _ h => ⟨_, .scalar h⟩
  | .removal => ⟨_, .removal⟩
  | .fallback x xs => by
    obtain ⟨_, hx⟩ := x.form_toJson
    refine ⟨_, .fallback hx (List.forall₂_map_left_iff.2 ?_)⟩
    exact List.forall₂_same.2 fun y _ => y.form_toJson

mutual

/-- The JSON form of a value has one of the shapes and stands for the value. -/
theorem StyleValue.form_toJson : ∀ v : StyleValue, v.Proper → ∃ shape, ValueForm shape v.toJson v
  | .nested d, ⟨hkeys, hd⟩ => by
    have hform := ValueForm.nested (entryForms_fieldsOfDefinition d hd)
    rw [Table.ofEntries_of_nodup hkeys] at hform
    exact ⟨_, hform⟩
  | .property value, _ => value.form_toJson
  | .items items, h => ⟨_, .items (itemForms_elementsOfItems items h)⟩

/-- The fields of a written definition stand for its entries. -/
theorem entryForms_fieldsOfDefinition : ∀ d : List (String × StyleValue),
    ProperEntries d → EntryForms (fieldsOfDefinition d) d
  | [], _ => .nil
  | (_, v) :: d, ⟨hv, hd⟩ =>
    (v.form_toJson hv).elim fun _ h => .cons h (entryForms_fieldsOfDefinition d hd)

/-- The JSON form of an item has one of the shapes and stands for the item. -/
theorem StyleItem.form_toJson : ∀ i : StyleItem, i.Proper → ∃ shape, ItemForm shape i.toJson i
  | .shortcut name, _ => ⟨_, .shortcut name⟩
  | .definition d, ⟨hkeys, hd⟩ => by
    have hform := ItemForm.definition (entryForms_fieldsOfDefinition d hd)
    rw [Table.ofEntries_of_nodup hkeys] at hform
    exact ⟨_, hform⟩

/-- The elements of written items stand for the items. -/
theorem itemForms_elementsOfItems : ∀ items : List StyleItem,
    ProperItems items → ItemForms (elementsOfItems items) items
  | [], _ => .nil
  | i :: items, ⟨hi, hitems⟩ =>
    (i.form_toJson hi).elim fun _ h => .cons h (itemForms_elementsOfItems items hitems)

end

namespace Json

mutual

/-- Finite numbers can be written. -/
theorem writable_of_finite : ∀ j : Json, j.finite → j.writable = j
  | .array xs, h => congrArg Json.array (writableElements_of_finite xs h)
  | .object fs, h => congrArg Json.object (writableFields_of_finite fs h)
  | .double (.finite _ _ _), _ => rfl
  | .null, _ | .bool _, _ | .int _, _ | .string _, _ => rfl

/-- An array is written element by element. -/
theorem writableElements_of_finite : ∀ xs : List Json,
    finiteElements xs → writableElements xs = xs
  | [], _ => rfl
  | x :: xs, h => by
    obtain ⟨hx, hxs⟩ := Bool.and_eq_true_iff.1 h
    rw [writableElements, writable_of_finite x hx, writableElements_of_finite xs hxs]

theorem writableFields_of_finite : ∀ fs : List (String × Json),
    finiteFields fs → writableFields fs = fs
  | [], _ => rfl
  | (k, x) :: fs, h => by
    obtain ⟨hx, hfs⟩ := Bool.and_eq_true_iff.1 h
    rw [writableFields, writable_of_finite x hx, writableFields_of_finite fs hfs]

end

end Json

/-! ## The decoder -/

/-- The untagged form of styles is unambiguous and complete. A JSON value has one shape at most
and stands for one style; in whatever order the shapes are tried, on all levels, the same
is decoded; something is decoded exactly where a shape fits, and it repeats no key; and a
style that repeats no key and has finite numbers only is what its JSON form is decoded
to. -/
theorem StyleValue.decoding_unambiguous :
    (∀ {j s s' x x'}, ScalarForm s j x → ScalarForm s' j x' → s = s' ∧ x = x') ∧
    (∀ {j s s' v v'}, ValueForm s j v → ValueForm s' j v' → s = s' ∧ v = v') ∧
    (∀ {j s s' i i'}, ItemForm s j i → ItemForm s' j i' → s = s' ∧ i = i') ∧
    (∀ (t : Trial) j, t.scalar? j = Scalar.ofJson? j ∧ t.value? j = StyleValue.ofJson? j ∧
      t.item? j = StyleItem.ofJson? j) ∧
    (∀ j v, StyleValue.ofJson? j = some v ↔ ∃ s, ValueForm s j v) ∧
    (∀ j i, StyleItem.ofJson? j = some i ↔ ∃ s, ItemForm s j i) ∧
    (∀ {j v}, StyleValue.ofJson? j = some v → v.Proper) ∧
    (∀ {j i}, StyleItem.ofJson? j = some i → i.Proper) ∧
    (∀ {v : StyleValue}, v.Proper → v.toJson.finite →
      v.toJson.writable = v.toJson ∧ StyleValue.ofJson? v.toJson = some v) ∧
    (∀ {i : StyleItem}, i.Proper → i.toJson.finite →
      i.toJson.writable = i.toJson ∧ StyleItem.ofJson? i.toJson = some i) := by
  refine ⟨fun h h' => ⟨h.shape_unique h', ?_⟩, fun h h' => ⟨h.shape_unique h', ?_⟩,
    fun h h' => ⟨h.shape_unique h', ?_⟩, fun t j => ⟨t.scalar?_eq j, t.value?_eq j, t.item?_eq j⟩,
    StyleValue.ofJson?_eq_some_iff, StyleItem.ofJson?_eq_some_iff, fun {j v} h => ?_,
    fun {j i} h => ?_, fun {v} hv hfinite => ⟨v.toJson.writable_of_finite hfinite, ?_⟩,
    fun {i} hi hfinite => ⟨i.toJson.writable_of_finite hfinite, ?_⟩⟩
  · exact Option.some.inj
      ((Scalar.ofJson?_eq_some_iff.2 ⟨_, h⟩).symm.trans (Scalar.ofJson?_eq_some_iff.2 ⟨_, h'⟩))
  · exact Option.some.inj (((StyleValue.ofJson?_eq_some_iff _ _).2 ⟨_, h⟩).symm.trans
      ((StyleValue.ofJson?_eq_some_iff _ _).2 ⟨_, h'⟩))
  · exact Option.some.inj (((StyleItem.ofJson?_eq_some_iff _ _).2 ⟨_, h⟩).symm.trans
      ((StyleItem.ofJson?_eq_some_iff _ _).2 ⟨_, h'⟩))
  · exact ((StyleValue.ofJson?_eq_some_iff j v).1 h).elim fun _ hform => hform.proper
  · exact ((StyleItem.ofJson?_eq_some_iff j i).1 h).elim fun _ hform => hform.proper
  · exact (StyleValue.ofJson?_eq_some_iff _ _).2 (v.form_toJson hv)
  · exact (StyleItem.ofJson?_eq_some_iff _ _).2 (i.form_toJson hi)

/-- The shapes from the last one to the first one. -/
def Trial.backwards : Trial where
  scalars := [.flag, .number, .text]
  values := [.items, .removal, .fallback, .scalar, .nested]
  items := [.definition, .shortcut]
  mem_scalars := by intro shape; cases shape <;> simp
  mem_values := by intro shape; cases shape <;> simp
  mem_items := by intro shape; cases shape <;> simp

/-- A style with all shapes in it is read back, and a pair of fallbacks in it is no list of
items, although it is an array of two. -/
theorem StyleValue.decoding_unambiguous_media :
    let v : StyleValue := .nested [
      ("width", .property (.fallback (.text "100%") [.text "fill-available"])),
      ("margin", .property .removal),
      ("@media print", .items [.shortcut "btn", .definition [
        ("padding", .property (.scalar (.number (.ofInt 1)))),
        ("&:hover", .nested [("flag", .property (.scalar (.flag true)))])]])]
    let pair : Json := .array [.string "100%", .array [.string "fill-available"]]
    v.Proper ∧ v.toJson.finite ∧ StyleValue.ofJson? v.toJson = some v ∧
      Trial.backwards.value? v.toJson = some v ∧
      ValueForm .fallback pair (.property (.fallback (.text "100%") [.text "fill-available"])) ∧
      ∀ v', ¬ ValueForm .items pair v' := by
  intro v pair
  have hproper : v.Proper := by
    simp [v, StyleValue.Proper, ProperEntries, ProperItems, StyleItem.Proper, Table.keys]
  have hfinite : v.toJson.finite := by rfl
  obtain ⟨-, hone, -, htrial, -, -, -, -, hback, -⟩ := StyleValue.decoding_unambiguous
  have hread := (hback hproper hfinite).2
  have hpair : ValueForm .fallback pair
      (.property (.fallback (.text "100%") [.text "fill-available"])) :=
    .fallback (.text _) (.cons ⟨_, .text _⟩ .nil)
  refine ⟨hproper, hfinite, hread, (htrial .backwards _).2.1.trans hread, hpair,
    fun v' hitems => ?_⟩
  cases (hone hitems hpair).1

end AtomicCss
