import AtomicCss.Plugin.Important
import AtomicCss.Proofs.Alias.Mapping
import AtomicCss.Proofs.Distinct
import AtomicCss.Proofs.Extraction.Inside
import AtomicCss.Proofs.Style.Roundtrip
import AtomicCss.Proofs.Text.Trimming

/-!
# Importance

The flag of a definition is told from its own entry, and what it does to the values is told
from their texts. A style without flags is the style in which the entry of the flag is
dropped from every definition, however deep.

- `Important.Flagged`: the flag of a definition, in words.
- `Important.EndsMarked`: a text that ends in the mark, blanks behind it ignored.
- `Important.markText_markText`, `Important.markValue_markValue`: marked once is enough.
- `Important.normalize_markValue`: the texts of a marked value are the marked texts.
- `Important.apply_eq`: only the own values of a definition are treated by its flag.
- `StyleValue.unflagged`, `StyleItem.unflagged`: a style without flags.
- `notMem_keys_of_inside_unflagged`: no flag is left in it.
-/

namespace AtomicCss

namespace Important

open Text

/-! ## The flag -/

/-- What the entry of a flag says: a boolean says itself, and so does its text. -/
inductive Says : StyleValue → Bool → Prop
  | flag (b : Bool) : Says (.property (.scalar (.flag b))) b
  | on : Says (.property (.scalar (.text "true"))) true
  | off : Says (.property (.scalar (.text "false"))) false

/-- A flag is read exactly from the values that say it. -/
theorem flag?_eq_some_iff {v : StyleValue} {b : Bool} : flag? v = some b ↔ Says v b := by
  constructor
  · intro h
    unfold flag? at h
    split at h
    · exact Option.some.inj h ▸ .flag _
    · next s =>
      split at h
      · next hs => exact Option.some.inj h ▸ hs ▸ .on
      · split at h
        · next hs => exact Option.some.inj h ▸ hs ▸ .off
        · cases h
    · cases h
  · rintro (b | _ | _) <;> rfl

/-- The own entry of a definition says what its flag is. -/
def Told (d : StyleDefinition) (b : Bool) : Prop :=
  ∃ v, Table.get? d flagKey = some v ∧ Says v b

/-- The flag of a definition: what its own entry says, or else the default. -/
def Flagged (standard : Bool) (d : StyleDefinition) (b : Bool) : Prop :=
  Told d b ∨ ((∀ b', ¬ Told d b') ∧ b = standard)

/-- The flag that is computed is the flag of the definition. -/
theorem flagged_iff {standard : Bool} {d : StyleDefinition} {b : Bool} :
    Flagged standard d b ↔ flagOf standard d = b := by
  have htold (b : Bool) : Told d b ↔ (Table.get? d flagKey).bind flag? = some b := by
    simp only [Told, Option.bind_eq_some_iff, flag?_eq_some_iff]
  simp only [Flagged, flagOf, htold]
  cases (Table.get? d flagKey).bind flag? <;> simp [eq_comm]

/-! ## The mark -/

/-- The text ends in the mark, blanks behind it ignored. -/
def EndsMarked (s : String) : Prop :=
  ∃ front blanks, s.toList = front ++ mark ++ blanks ∧ ∀ c ∈ blanks, isBlank c = true

theorem trimEnd_mark {front blanks : List Char} (h : ∀ c ∈ blanks, isBlank c = true) :
    trimEnd (front ++ mark ++ blanks) = front ++ mark := by
  have hmark : mark = "!importan".toList ++ ['t'] := by decide
  rw [hmark, ← List.append_assoc front]
  exact trimEnd_append (by decide) h

/-- The test for a mark tells whether the text ends in one. -/
theorem isMarked_iff {s : String} : isMarked s.toList = true ↔ EndsMarked s := by
  rw [isMarked, List.isSuffixOf_iff_suffix]
  constructor
  · rintro ⟨front, hfront⟩
    obtain ⟨blanks, hs, hblanks⟩ := exists_blanks s.toList
    exact ⟨front, blanks, hfront ▸ hs, hblanks⟩
  · rintro ⟨front, blanks, hs, hblanks⟩
    rw [hs, trimEnd_mark hblanks]
    exact List.suffix_append front mark

/-- A text that is marked already is left alone. -/
theorem markText_of_endsMarked {s : String} (h : EndsMarked s) : markText s = s :=
  if_pos (isMarked_iff.2 h)

theorem markText_of_not_endsMarked {s : String} (h : ¬ EndsMarked s) :
    markText s = s ++ " !important" := by
  rw [markText, if_neg fun hs => h (isMarked_iff.1 hs), String.append_assoc]
  rfl

/-- A marked text ends in the mark. -/
theorem endsMarked_markText (s : String) : EndsMarked (markText s) := by
  by_cases h : EndsMarked s
  · rwa [markText_of_endsMarked h]
  · refine ⟨s.toList ++ [' '], [], ?_, fun c hc => nomatch hc⟩
    rw [markText_of_not_endsMarked h, String.toList_append, List.append_nil, List.append_assoc]
    rfl

@[simp] theorem markText_markText (s : String) : markText (markText s) = markText s :=
  markText_of_endsMarked (endsMarked_markText s)

/-- The distinct marked texts of distinct marked texts are the same ones. -/
theorem distinct_marked (texts : List String) :
    distinct ((distinct (texts.map markText)).map markText) = distinct (texts.map markText) := by
  simp only [distinct_map_distinct, List.map_map, Function.comp_def, markText_markText]

theorem markScalar_markScalar (s : Scalar) : markScalar (markScalar s) = markScalar s :=
  congrArg Scalar.text (markText_markText s.render)

theorem markValue_markValue (v : StyleValue) : markValue (markValue v) = markValue v := by
  rcases v with d | (s | ⟨s, rest⟩ | _) | items <;> simp [markValue, markScalar_markScalar]

/-- The texts of a marked value are the marked texts of the value. -/
theorem normalize_markValue (value : PropertyValue) : ∃ marked : PropertyValue,
    markValue (.property value) = .property marked ∧
      marked.normalize = value.normalize.map fun texts => distinct (texts.map markText) := by
  cases value with
  | scalar s => exact ⟨_, rfl, rfl⟩
  | fallback primary rest =>
    have htexts : ((primary :: rest).map markScalar).map Scalar.render =
        ((primary :: rest).map Scalar.render).map markText := by
      rw [List.map_map, List.map_map]
      rfl
    refine ⟨_, rfl, congrArg some ?_⟩
    exact (congrArg distinct htexts).trans (distinct_map_distinct markText _).symm
  | removal => exact ⟨_, rfl, rfl⟩

/-- A value of a definition, marked if the flag of the definition is set. -/
def treated (standard : Bool) (d : StyleDefinition) : StyleValue → StyleValue :=
  if flagOf standard d then markValue else id

/-- What is nested in a definition does not depend on its flag. -/
theorem treated_nested (standard : Bool) (d d' : StyleDefinition) :
    treated standard d (.nested d') = .nested d' := by
  unfold treated
  split <;> rfl

/-- Nor do the items in it. -/
theorem treated_items (standard : Bool) (d : StyleDefinition) (items : List StyleItem) :
    treated standard d (.items items) = .items items := by
  unfold treated
  split <;> rfl

/-- A property that is treated is still a property. -/
theorem exists_treated_property (standard : Bool) (d : StyleDefinition) (value : PropertyValue) :
    ∃ value', treated standard d (.property value) = .property value' := by
  unfold treated
  split
  · cases value <;> exact ⟨_, rfl⟩
  · exact ⟨value, rfl⟩

/-- A definition loses its flag, and its own values are treated by it. -/
theorem apply_eq (standard : Bool) (d : StyleDefinition) :
    apply standard d = Table.mapValues (treated standard d) (Table.erase d flagKey) := by
  unfold apply treated
  dsimp only
  split
  · rfl
  · exact (List.map_id _).symm

end Important

/-! ## Styles without flags -/

mutual

/-- The value without the flags in it. -/
def StyleValue.unflagged : StyleValue → StyleValue
  | .nested d => .nested (Table.erase (unflaggedValues d) Important.flagKey)
  | .property value => .property value
  | .items items => .items (unflaggedItems items)
termination_by structural v => v

/-- The item without the flags in it. -/
def StyleItem.unflagged : StyleItem → StyleItem
  | .shortcut name => .shortcut name
  | .definition d => .definition (Table.erase (unflaggedValues d) Important.flagKey)
termination_by structural i => i

/-- The entries without the flags in their values. -/
def unflaggedValues : List (String × StyleValue) → List (String × StyleValue)
  | [] => []
  | (key, v) :: entries => (key, v.unflagged) :: unflaggedValues entries
termination_by structural entries => entries

/-- The items without the flags in them. -/
def unflaggedItems : List StyleItem → List StyleItem
  | [] => []
  | i :: items => i.unflagged :: unflaggedItems items
termination_by structural items => items

end

/-- The definition without its flag and without the flags in its values. -/
def StyleDefinition.unflagged (d : StyleDefinition) : StyleDefinition :=
  Table.erase (unflaggedValues d) Important.flagKey

/-- Items lose their flags one by one. -/
theorem unflaggedItems_eq_map (items : List StyleItem) :
    unflaggedItems items = items.map StyleItem.unflagged := by
  induction items with
  | nil => rfl
  | cons i items ih => rw [unflaggedItems, ih, List.map_cons]

/-- Entries lose their flags one by one and keep their keys. -/
theorem unflaggedValues_eq_mapValues (d : List (String × StyleValue)) :
    unflaggedValues d = Table.mapValues StyleValue.unflagged d := by
  induction d with
  | nil => rfl
  | cons e d ih => rw [unflaggedValues, ih]; rfl

theorem StyleItem.shortcut?_unflagged (i : StyleItem) : i.unflagged.shortcut? = i.shortcut? := by
  cases i <;> rfl

/-- The flag of a definition is none of the values that lose flags. -/
theorem StyleDefinition.unflagged_eq (d : StyleDefinition) :
    d.unflagged = Table.mapValues StyleValue.unflagged (Table.erase d Important.flagKey) := by
  rw [unflagged, unflaggedValues_eq_mapValues, Table.erase_mapValues]

/-! ### Nothing is left -/

/-- A key that is there only once is not there once it is erased. -/
theorem Table.notMem_keys_erase {κ α : Type} [DecidableEq κ] {t : Table κ α} {k : κ}
    (h : (keys t).Nodup) : k ∉ keys (erase t k) := by
  induction t with
  | nil => exact List.not_mem_nil
  | cons e t ih =>
    obtain ⟨hmem, hnodup⟩ := List.nodup_cons.1 h
    rw [erase]
    split
    · next hk => exact hk ▸ hmem
    · next hk => exact List.not_mem_cons_of_ne_of_not_mem (Ne.symm hk) (ih hnodup)

section

variable {d : StyleDefinition}

/-- What stands in the entries that are left stands in the entries. -/
theorem inside_of_erase {entries : List (String × StyleValue)} {key : String}
    (h : d ∈ insideEntries (Table.erase entries key)) : d ∈ insideEntries entries := by
  induction entries with
  | nil => exact h
  | cons e entries ih =>
    rw [Table.erase] at h
    split at h
    · exact List.mem_append_right _ h
    · exact List.mem_append.2 ((List.mem_append.1 h).imp_right ih)

theorem notMem_keys_unflagged {entries : List (String × StyleValue)}
    (h : (Table.keys entries).Nodup) :
    Important.flagKey ∉ Table.keys (Table.erase (unflaggedValues entries) Important.flagKey) := by
  rw [← Table.keys_mapValues (f := StyleValue.unflagged)] at h
  exact unflaggedValues_eq_mapValues entries ▸ Table.notMem_keys_erase h

mutual

/-- No definition inside a value whose flags are dropped has one left. -/
theorem StyleValue.notMem_keys_of_inside_unflagged : ∀ v : StyleValue, v.Proper →
    d ∈ v.unflagged.inside → Important.flagKey ∉ Table.keys d
  | .nested entries, h, hd => by
    rcases List.mem_cons.1 hd with rfl | hd
    · exact notMem_keys_unflagged h.1
    · exact notMem_keys_of_inside_unflaggedValues entries h.2 (inside_of_erase hd)
  | .property _, _, hd => absurd hd List.not_mem_nil
  | .items items, h, hd => notMem_keys_of_inside_unflagged items h hd
termination_by structural v => v

theorem StyleItem.notMem_keys_of_inside_unflagged : ∀ i : StyleItem, i.Proper →
    d ∈ i.unflagged.inside → Important.flagKey ∉ Table.keys d
  | .shortcut _, _, hd => absurd hd List.not_mem_nil
  | .definition entries, h, hd => by
    rcases List.mem_cons.1 hd with rfl | hd
    · exact notMem_keys_unflagged h.1
    · exact notMem_keys_of_inside_unflaggedValues entries h.2 (inside_of_erase hd)
termination_by structural i => i

theorem notMem_keys_of_inside_unflaggedValues : ∀ entries : List (String × StyleValue),
    ProperEntries entries → d ∈ insideEntries (unflaggedValues entries) →
    Important.flagKey ∉ Table.keys d
  | [], _, hd => absurd hd List.not_mem_nil
  | (_, v) :: entries, h, hd => by
    rcases List.mem_append.1 hd with hd | hd
    · exact v.notMem_keys_of_inside_unflagged h.1 hd
    · exact notMem_keys_of_inside_unflaggedValues entries h.2 hd
termination_by structural entries => entries

/-- Where no definition repeats a key, no flag is left. -/
theorem notMem_keys_of_inside_unflagged : ∀ items : List StyleItem, ProperItems items →
    d ∈ insideItems (unflaggedItems items) → Important.flagKey ∉ Table.keys d
  | [], _, hd => absurd hd List.not_mem_nil
  | i :: items, h, hd => by
    rcases List.mem_append.1 hd with hd | hd
    · exact i.notMem_keys_of_inside_unflagged h.1 hd
    · exact notMem_keys_of_inside_unflagged items h.2 hd
termination_by structural items => items

end

end

end AtomicCss
