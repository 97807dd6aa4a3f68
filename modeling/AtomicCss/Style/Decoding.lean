import AtomicCss.Style.Value
import AtomicCss.Style.Misfit

/-!
# Styles as JSON

Styles are written as JSON without tags: the form of a value decides what it is.
An object is a nested definition, in which a repeated key keeps its first place
and takes its last value; a string, number or boolean is a scalar, `null`
is a removal, a scalar with an array of scalars is a value with fallbacks, and
any other array lists items.

- `Scalar.ofJson?`, `PropertyValue.ofJson?`, `StyleValue.ofJson?`,
  `StyleItem.ofJson?`: the value that a JSON value stands for, if any.
- `StyleValue.toJson`, `StyleItem.toJson`: the natural JSON form.
- `decodeItems`, `decodeCalls`: lists of items, with the first misfit.
-/

namespace AtomicCss

/-! ## From JSON -/

/-- The scalar of a string, number or boolean. Integers become doubles. -/
def Scalar.ofJson? : Json → Option Scalar
  | .string s => some (.text s)
  | .int n => some (.number (.ofInt n))
  | .double x => some (.number x)
  | .bool b => some (.flag b)
  | _ => none

/-- The scalars of a list of JSON values, if each of them is one. -/
def scalarsOfJson? : List Json → Option (List Scalar)
  | [] => some []
  | j :: js => do return (← Scalar.ofJson? j) :: (← scalarsOfJson? js)

/-- The value of a property. -/
def PropertyValue.ofJson? : Json → Option PropertyValue
  | .array [primary, .array rest] => do
    return .fallback (← Scalar.ofJson? primary) (← scalarsOfJson? rest)
  | .null => some .removal
  | j => (Scalar.ofJson? j).map .scalar

mutual

/-- The value of a key. A property value is tried before a list of items. -/
def StyleValue.ofJson? : Json → Option StyleValue
  | .object fields => (entriesOfFields? fields).map fun es => .nested (Table.ofEntries es)
  | .array elements =>
    match PropertyValue.ofJson? (.array elements) with
    | some v => some (.property v)
    | none => (itemsOfElements? elements).map .items
  | .null => some (.property .removal)
  | .bool b => some (.property (.scalar (.flag b)))
  | .int n => some (.property (.scalar (.number (.ofInt n))))
  | .double x => some (.property (.scalar (.number x)))
  | .string s => some (.property (.scalar (.text s)))
termination_by structural j => j

/-- The entries of a list of fields, if the value of each of them has a form. -/
def entriesOfFields? : List (String × Json) → Option (List (String × StyleValue))
  | [] => some []
  | (k, j) :: fields => do return (k, ← StyleValue.ofJson? j) :: (← entriesOfFields? fields)
termination_by structural fields => fields

/-- A string is a shortcut, an object a definition. -/
def StyleItem.ofJson? : Json → Option StyleItem
  | .string name => some (.shortcut name)
  | .object fields => (entriesOfFields? fields).map fun es => .definition (Table.ofEntries es)
  | .null | .bool _ | .int _ | .double _ | .array _ => none
termination_by structural j => j

/-- The items of a list of JSON values, if each of them is one. -/
def itemsOfElements? : List Json → Option (List StyleItem)
  | [] => some []
  | j :: js => do return (← StyleItem.ofJson? j) :: (← itemsOfElements? js)
termination_by structural js => js

end

/-! ## To JSON -/

/-- The natural JSON form of a scalar. -/
def Scalar.toJson : Scalar → Json
  | .text s => .string s
  | .number x => .double x
  | .flag b => .bool b

/-- The natural JSON form of the value of a property. -/
def PropertyValue.toJson : PropertyValue → Json
  | .scalar s => s.toJson
  | .fallback primary rest => .array [primary.toJson, .array (rest.map Scalar.toJson)]
  | .removal => .null

mutual

/-- The natural JSON form of the value of a key. -/
def StyleValue.toJson : StyleValue → Json
  | .nested definition => .object (fieldsOfDefinition definition)
  | .property v => v.toJson
  | .items items => .array (elementsOfItems items)
termination_by structural v => v

/-- The fields of a definition. -/
def fieldsOfDefinition : List (String × StyleValue) → List (String × Json)
  | [] => []
  | (k, v) :: rest => (k, v.toJson) :: fieldsOfDefinition rest
termination_by structural d => d

/-- The natural JSON form of an item. -/
def StyleItem.toJson : StyleItem → Json
  | .shortcut name => .string name
  | .definition definition => .object (fieldsOfDefinition definition)
termination_by structural i => i

/-- The elements of a list of items. -/
def elementsOfItems : List StyleItem → List Json
  | [] => []
  | i :: items => i.toJson :: elementsOfItems items
termination_by structural is => is

end

/-! ## Decoding with a reason -/

/-- The elements of a sequence. -/
def decodeSequence : Json → Except Misfit (List Json)
  | .array elements => .ok elements
  | j => .error (.wrongForm j .sequence)

/-- The fields of a map. -/
def decodeMap : Json → Except Misfit (List (String × Json))
  | .object fields => .ok fields
  | j => .error (.wrongForm j .map)

/-- A string. -/
def decodeString : Json → Except Misfit String
  | .string s => .ok s
  | j => .error (.wrongForm j .string)

/-- A boolean. -/
def decodeBool : Json → Except Misfit Bool
  | .bool b => .ok b
  | j => .error (.wrongForm j .boolean)

/-- The result of a decoder without a reason, or the misfit of its type. -/
def decodeWith {α : Type} (alternatives : Alternatives) (f : Json → Option α) (j : Json) :
    Except Misfit α :=
  match f j with
  | some a => .ok a
  | none => .error (.noAlternative alternatives)

/-- A sequence, element by element. -/
def decodeList {α : Type} (f : Json → Except Misfit α) (j : Json) : Except Misfit (List α) := do
  (← decodeSequence j).mapM f

/-- A map, field by field; a repeated key takes its last value. -/
def decodeTable {α : Type} (f : Json → Except Misfit α) (j : Json) :
    Except Misfit (Table String α) := do
  return Table.ofEntries (← (← decodeMap j).mapM fun (k, v) => return (k, ← f v))

/-- A pair, written as a sequence of two. -/
def decodePair {α β : Type} (f : Json → Except Misfit α) (g : Json → Except Misfit β) :
    Json → Except Misfit (α × β)
  | .array [] => .error (.tooShort 0 .pair)
  | .array (a :: rest) => do
    let x ← f a
    match rest with
    | [] => .error (.tooShort 1 .pair)
    | b :: more =>
      let y ← g b
      if more.isEmpty then return (x, y) else .error (.tooLong (more.length + 2))
  | j => .error (.wrongForm j .pair)

/-- One value, or a sequence of them. One is tried first. -/
def decodeOneOrMany {α : Type} (f : Json → Option α) (j : Json) : Except Misfit (List α) :=
  match f j, j with
  | some a, _ => .ok [a]
  | none, .array elements =>
    match elements.mapM f with
    | some as => .ok as
    | none => .error (.noAlternative .oneOrMany)
  | none, _ => .error (.noAlternative .oneOrMany)

/-- The text of a JSON string. -/
def Json.string? : Json → Option String
  | .string s => some s
  | _ => none

/-- A list of strings. -/
def decodeStrings (j : Json) : Except Misfit (List String) := decodeList decodeString j

/-- A list of style items. -/
def decodeItems (j : Json) : Except Misfit (List StyleItem) :=
  decodeList (decodeWith .styleItem StyleItem.ofJson?) j

/-- A list of lists of style items. -/
def decodeCalls (j : Json) : Except Misfit (List (List StyleItem)) := decodeList decodeItems j

/-- A style definition. -/
def decodeDefinition (j : Json) : Except Misfit StyleDefinition :=
  decodeTable (decodeWith .styleValue StyleValue.ofJson?) j

end AtomicCss
